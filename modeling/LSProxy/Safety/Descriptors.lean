import LSProxy.Safety.Isolation
import LSProxy.Safety.Objects

/-!
# No descriptor is lost, unless

The objects in the tables are those the connections and the pool point to (`Fits`), so what an
object holds is what the source accounts for (`Process.accounted_iff`). An event of the process is
a few operations on the tables, none of which loses a handle but the two of `Table.Valid.calls`.

* `Process.Sound`, `Process.Sound.step` — the invariant, and what one event does;
* `Process.LogEntry.leaks` — a connection to the server fails, or a connection that has left fast
  mode is deleted;
* `descriptors_accounted` — in a run without such events, and in no other, every open descriptor
  belongs to somebody.
-/

namespace LSProxy

open Ownership

variable {cfg : Config} {L : Llhttp}

/-! ### The objects of the connections -/

/-- The Hybridbuf `i` is in the pool or with a client. -/
def Proxy.HasHist (px : Proxy cfg L) (i : ℕ) : Prop :=
  i ∈ px.pool.map (·.id) ∨ ∃ b c, px.conns b = some c ∧ i ∈ c.client.histIds

/-- A client other than that of connection `b` has it. -/
def Proxy.OthersHaveHist (px : Proxy cfg L) (b i : ℕ) : Prop :=
  ∃ b' c', b' ≠ b ∧ px.conns b' = some c' ∧ i ∈ c'.client.histIds

theorem Proxy.OthersHaveHist.congr {px px' : Proxy cfg L} {b : ℕ}
    (h : ∀ b', b' ≠ b → px'.conns b' = px.conns b') (i : ℕ) :
    px'.OthersHaveHist b i ↔ px.OthersHaveHist b i := by
  constructor
  · rintro ⟨b', c', hb, hc', hi⟩
    exact ⟨b', c', hb, (h b' hb).symm.trans hc', hi⟩
  · rintro ⟨b', c', hb, hc', hi⟩
    exact ⟨b', c', hb, (h b' hb).trans hc', hi⟩

/-- The Hybridbufs of a process, seen from connection `b`. -/
theorem Proxy.hasHist_iff (px : Proxy cfg L) (b i : ℕ) :
    px.HasHist i ↔ i ∈ px.pool.map (·.id) ++ ((px.conns b).map (·.client.histIds)).getD [] ∨
      px.OthersHaveHist b i := by
  unfold Proxy.HasHist Proxy.OthersHaveHist
  rw [List.mem_append, or_assoc]
  refine or_congr_right ⟨?_, ?_⟩
  · rintro ⟨b', c', hc', hi⟩
    rcases eq_or_ne b' b with rfl | hb
    · rw [hc']
      exact .inl hi
    · exact .inr ⟨b', c', hb, hc', hi⟩
  · rintro (hi | ⟨b', c', -, hc', hi⟩)
    · cases hc : px.conns b with
      | none =>
        rw [hc] at hi
        cases hi
      | some c =>
        rw [hc] at hi
        exact ⟨b, c, hc, hi⟩
    · exact ⟨b', c', hc', hi⟩

/-- The objects are those the connections and the pool point to. -/
structure Fits (px : Proxy cfg L) (t : Table) : Prop where
  client : ∀ b, .client b ∈ t.objects ↔ (px.conns b).isSome = true
  server : ∀ b, (t.serverOf b).isSome = (px.conns b).any (·.server.isSome)
  requestBuf : ∀ b, .requestBuf b ∈ t.objects ↔ (px.conns b).any (·.client.requestBuf.isSome) = true
  requestTmpBuf : ∀ b,
    .requestTmpBuf b ∈ t.objects ↔ (px.conns b).any (·.client.requestTmpBuf.isSome) = true
  responseBuf : ∀ b,
    .responseBuf b ∈ t.objects ↔ (px.conns b).any (·.client.responseBuf.isSome) = true
  hist : ∀ i, .hist i ∈ t.objects ↔ px.HasHist i

/-- Only what belongs to connection `b` has changed, and that as it should. -/
theorem Fits.of_frame {px px' : Proxy cfg L} {t t' : Table} (hf : Fits px t) (b : ℕ)
    (hconns : ∀ b', b' ≠ b → px'.conns b' = px.conns b')
    (hobjects : ∀ x, x.transient = false → (∀ i, x ≠ .hist i) → x.clientOf ≠ some b →
      (x ∈ t'.objects ↔ x ∈ t.objects))
    (hothers : ∀ b', b' ≠ b → t'.serverOf b' = t.serverOf b')
    (hclient : .client b ∈ t'.objects ↔ (px'.conns b).isSome = true)
    (hserver : (t'.serverOf b).isSome = (px'.conns b).any (·.server.isSome))
    (hrequest : .requestBuf b ∈ t'.objects ↔
      (px'.conns b).any (·.client.requestBuf.isSome) = true)
    (htmp : .requestTmpBuf b ∈ t'.objects ↔
      (px'.conns b).any (·.client.requestTmpBuf.isSome) = true)
    (hresponse : .responseBuf b ∈ t'.objects ↔
      (px'.conns b).any (·.client.responseBuf.isSome) = true)
    (hhist : ∀ i, .hist i ∈ t'.objects ↔ px'.HasHist i) : Fits px' t' := by
  have frame : ∀ {x : Object} {b' : ℕ}, x.clientOf = some b' → b' ≠ b →
      (x ∈ t'.objects ↔ x ∈ t.objects) := by
    intro x b' hx hb
    refine hobjects x ?_ ?_ ?_
    · cases x <;> first | rfl | cases hx
    · rintro i rfl
      cases hx
    · rw [hx]
      exact fun heq => hb (Option.some.inj heq)
  -- for each kind of object: that of connection `b`, then those of the others
  refine ⟨fun b' => ?_, fun b' => ?_, fun b' => ?_, fun b' => ?_, fun b' => ?_, hhist⟩ <;>
    rcases eq_or_ne b' b with rfl | hb
  · exact hclient
  · rw [hconns b' hb, frame rfl hb, hf.client]
  · exact hserver
  · rw [hconns b' hb, hothers b' hb, hf.server]
  · exact hrequest
  · rw [hconns b' hb, frame rfl hb, hf.requestBuf]
  · exact htmp
  · rw [hconns b' hb, frame rfl hb, hf.requestTmpBuf]
  · exact hresponse
  · rw [hconns b' hb, frame rfl hb, hf.responseBuf]

/-- No connection, Hybridbuf of the pool or object of a connection has changed. -/
theorem Fits.congr {px px' : Proxy cfg L} {t t' : Table} (hf : Fits px t)
    (hconns : px'.conns = px.conns) (hpool : px'.pool = px.pool)
    (hpointer : t'.serverOf = t.serverOf)
    (hobjects : ∀ x : Object, (∀ k evtList, x ≠ .slowTimer k evtList) → x.transient = false →
      (x ∈ t'.objects ↔ x ∈ t.objects)) : Fits px' t' := by
  refine ⟨fun b => ?_, fun b => ?_, fun b => ?_, fun b => ?_, fun b => ?_, fun i => ?_⟩
  · rw [hconns, hobjects _ (by simp) rfl]
    exact hf.client b
  · rw [hconns, hpointer]
    exact hf.server b
  · rw [hconns, hobjects _ (by simp) rfl]
    exact hf.requestBuf b
  · rw [hconns, hobjects _ (by simp) rfl]
    exact hf.requestTmpBuf b
  · rw [hconns, hobjects _ (by simp) rfl]
    exact hf.responseBuf b
  · rw [Proxy.HasHist, hconns, hpool, hobjects _ (by simp) rfl]
    exact hf.hist i

/-- The buffers of slow mode. -/
def Object.slowBuffers (b : ℕ) : Finset Object := {.requestBuf b, .requestTmpBuf b, .responseBuf b}

/-- What is done to the connection `c`, which finds this pool, is done in order: server and client
are created and destroyed as they should, slow buffers are not lost, and no Hybridbuf appears. -/
structure Effect.Orderly (e : Effect cfg L) (pool : List (Hist cfg)) (c : Connection cfg L) :
    Prop where
  rep : ∀ c', e.status = .live c' → ∃ s, Rep s c'
  lifecycle : ∀ left, e.status.left = some left → Lifecycle c.server.isSome e.calls left
  slow : ∀ c', e.status = .live c' → c.client.requestBuf.isSome = true →
    c'.client.requestBuf.isSome = true
  live_ids : ∀ c', e.status = .live c' →
    (e.pool.map (·.id) ++ c'.histIds).Sublist (pool.map (·.id) ++ c.histIds)
  deleted_ids : e.status = .deleted →
    (e.pool.map (·.id)).Sublist (pool.map (·.id) ++ c.histIds)

/-- A callback does things in order. -/
theorem fire_orderly {s : Session cfg L} {c : Connection cfg L} {cb : Callback} (hrep : Rep s c)
    (hen : c.enabled cb = true) (io : Io) (g : Scratch cfg.sockIoBufSize)
    (pool : List (Hist cfg)) : (c.fire cb io g pool).Orderly pool c := by
  obtain ⟨out, -, hout⟩ := fire_step hrep hen io g pool
  obtain ⟨hlife, hslow⟩ := fire_lifecycle hrep hen io g pool
  obtain ⟨hlive, hdel⟩ := fire_histIds hrep hen io g pool
  refine ⟨fun c' hst => ?_, hlife, hslow, hlive, hdel⟩
  rw [hst] at hout
  obtain ⟨s', -, hrep'⟩ := hout.live
  exact ⟨s', hrep'⟩

namespace Process

/-- The process is in order. -/
structure Sound (ps : Process cfg L) : Prop where
  owned : ps.proxy.Owned
  valid : ps.table.Valid ps.proxy.accepted ps.proxy.nextId
  fits : Fits ps.proxy ps.table

/-! ### A callback -/

section Callback

variable {ps : Process cfg L} {b : ℕ} {c : Connection cfg L} {cb : Callback} {io : Io}
  {e : Effect cfg L} {left : Option Bool} {i : ℕ}

theorem mem_newSlowBuffers {t : Table} {x : Object} :
    x ∈ (t.newSlowBuffers b).objects ↔ x ∈ t.objects ∨ x ∈ Object.slowBuffers b := by
  simp [Table.newSlowBuffers, Table.new, Object.slowBuffers]
  tauto

/-- What a callback leaves of the objects that last. -/
theorem mem_callbackTable
    (h : Table.Called b e.calls left ps.table (e.calls.foldl (Table.call b io) ps.table))
    {x : Object} (hx : x.transient = false) :
    x ∈ (ps.callbackTable b c io e).objects ↔
      ((x ∈ ps.table.objects ∧ (left = none → x.clientOf ≠ some b)) ∨
        (e.opensSlowBuffers c = true ∧ x ∈ Object.slowBuffers b)) ∧
      ∀ i ∈ e.droppedHists ps.proxy.pool c, x ≠ .hist i := by
  unfold callbackTable
  rw [Table.mem_deleteHists, ← h.lasting x hx]
  split
  · next hopens => simp [mem_newSlowBuffers, hopens]
  · next hopens => simp [hopens]

theorem callbackTable_serverOf :
    (ps.callbackTable b c io e).serverOf = (e.calls.foldl (Table.call b io) ps.table).serverOf := by
  unfold callbackTable
  rw [Table.deleteHists_serverOf]
  split <;> rfl

/-- The Hybridbufs in sight of a callback are told apart. -/
theorem nodup_hists {px : Proxy cfg L} (h : px.Owned) (hc : px.conns b = some c) :
    (px.pool.map (·.id) ++ c.client.histIds).Nodup := by
  refine h.pool_nodup.append ?_ fun i hi hi' => h.not_pooled b c hc i hi' hi
  unfold Client.histIds
  cases c.client.requestHistory <;> simp

/-- **The tables after a callback.** -/
theorem Sound.callbackTable (hs : ps.Sound) (hc : ps.proxy.conns b = some c)
    (io : Io) (he : e.Orderly ps.proxy.pool c) (hleft : e.status.left = some left) :
    Table.Called b e.calls left ps.table (e.calls.foldl (Table.call b io) ps.table) ∧
      Table.Passes ps.proxy.accepted ps.proxy.nextId ps.proxy.accepted ps.proxy.nextId ps.table
        (ps.callbackTable b c io e) ((∀ bs, .page503 bs ∉ e.calls) ∧
          (.closeClient ∈ e.calls → .responseBuf b ∉ ps.table.objects)) := by
  have hlife := he.lifecycle
  have hserving : (ps.table.serverOf b).isSome = c.server.isSome := by
    rw [hs.fits.server, hc]
    rfl
  have hclient : .client b ∈ ps.table.objects := (hs.fits.client b).mpr (by rw [hc]; rfl)
  have hcalled : Table.Called b e.calls left ps.table (e.calls.foldl (Table.call b io) ps.table) :=
    .of_lifecycle (hlife left hleft) hserving
  -- first the calls on the sockets
  have h₁ : Table.Passes _ _ _ _ ps.table (e.calls.foldl (Table.call b io) ps.table) _ :=
    hs.valid.calls (hlife left hleft) hserving hclient
  -- then the buffers of slow mode, of a connection that had none and is still there
  have h₂ : Table.Passes ps.proxy.accepted ps.proxy.nextId ps.proxy.accepted ps.proxy.nextId
      (e.calls.foldl (Table.call b io) ps.table)
      (if e.opensSlowBuffers c then (e.calls.foldl (Table.call b io) ps.table).newSlowBuffers b
        else e.calls.foldl (Table.call b io) ps.table) True := by
    split
    · next hopens =>
      obtain ⟨hnone, hlive⟩ := Bool.and_eq_true_iff.mp hopens
      obtain ⟨c', hst, -⟩ := Status.isLiveWith_iff.mp hlive
      refine h₁.valid.newSlowBuffers ((hcalled.lasting _ rfl).mpr ⟨hclient, ?_⟩) fun hmem => ?_
      · rintro rfl
        rw [hst] at hleft
        cases hleft
      · have hold := (hs.fits.requestBuf b).mp ((hcalled.lasting _ rfl).mp hmem).1
        rw [hc, Option.any_some, Option.isSome_iff_ne_none] at hold
        exact hold (Option.isNone_iff_eq_none.mp hnone)
    · exact h₁.valid.refl
  -- last the Hybridbufs that nobody holds any more; nothing before has destroyed one
  have h₃ := h₂.valid.deleteHists ((nodup_hists hs.owned hc).filter (· ∉ e.histIds)) fun i hi => by
    have hsight := List.mem_of_mem_filter hi
    have hold : .hist i ∈ ps.table.objects := (hs.fits.hist i).mpr
      ((List.mem_append.mp hsight).imp_right fun hmem => ⟨b, c, hc, hmem⟩)
    have hmem := (hcalled.lasting (.hist i) rfl).mpr ⟨hold, fun _ => by simp [Object.clientOf]⟩
    split
    · exact mem_newSlowBuffers.mpr (.inl hmem)
    · exact hmem
  refine ⟨hcalled, ((h₁.trans h₂).trans h₃).congr ?_⟩
  rw [and_true, and_true]

/-- What a callback leaves, read off the process. -/
theorem settle_left {px px' : Proxy cfg L} (hr : px.settle b e = .ok px') :
    e.status.left = some ((px'.conns b).map (·.server.isSome)) ∧
      e.opensSlowBuffers c = (c.client.requestBuf.isNone &&
        (px'.conns b).any (·.client.requestBuf.isSome)) ∧
      e.histIds = px'.pool.map (·.id) ++ ((px'.conns b).map (·.client.histIds)).getD [] := by
  obtain ⟨-, -, hpool, hconn, -⟩ := Proxy.settle_ok hr
  unfold Effect.opensSlowBuffers Effect.histIds
  cases hst : e.status with
  | live c' =>
    rw [(hconn c').mpr hst, hpool]
    exact ⟨rfl, rfl, rfl⟩
  | deleted =>
    rw [Proxy.settle_deleted hr hst, hpool]
    exact ⟨rfl, rfl, rfl⟩
  | crashed f =>
    rw [Proxy.settle_error_iff.mpr hst] at hr
    cases hr

/-- A slow buffer is there after a callback just if the connection has it: it was there before, or
the callback has allocated it. -/
theorem mem_slowBuffer_iff {px' : Proxy cfg L} {x : Object} (hx : x.clientOf = some b)
    (hbuf : x ∈ Object.slowBuffers b)
    (hcalled : Table.Called b e.calls left ps.table (e.calls.foldl (Table.call b io) ps.table))
    (hleft : left = (px'.conns b).map (·.server.isSome))
    (hopens : e.opensSlowBuffers c = (c.client.requestBuf.isNone &&
      (px'.conns b).any (·.client.requestBuf.isSome)))
    (hold : x ∈ ps.table.objects ↔ c.client.requestBuf.isSome = true)
    (hkept : ∀ c', px'.conns b = some c' → c.client.requestBuf.isSome = true →
      c'.client.requestBuf.isSome = true) :
    x ∈ (ps.callbackTable b c io e).objects ↔
      (px'.conns b).any (·.client.requestBuf.isSome) = true := by
  have hlasting : x.transient = false := by cases x <;> first | rfl | cases hx
  have hnohist : ∀ i ∈ e.droppedHists ps.proxy.pool c, x ≠ .hist i := by
    rintro i - rfl
    cases hx
  rw [mem_callbackTable hcalled hlasting, hold, hopens, hx, hleft, and_iff_left hnohist,
    and_iff_left hbuf]
  cases hb : px'.conns b with
  | none => simp
  | some c' =>
    have hkept := hkept c' hb
    cases hc : c.client.requestBuf with
    | none => simp
    | some buf =>
      rw [hc] at hkept
      simpa using hkept rfl

/-- A Hybridbuf is there after a callback just if the pool or a client has it. -/
theorem mem_hist_iff {px' : Proxy cfg L} (hs : ps.Sound) (hc : ps.proxy.conns b = some c)
    (hcalled : Table.Called b e.calls left ps.table (e.calls.foldl (Table.call b io) ps.table))
    (hothers : ∀ b', b' ≠ b → px'.conns b' = ps.proxy.conns b')
    (hids : e.histIds = px'.pool.map (·.id) ++ ((px'.conns b).map (·.client.histIds)).getD [])
    (hsub : e.histIds ⊆ ps.proxy.pool.map (·.id) ++ c.client.histIds) :
    .hist i ∈ (ps.callbackTable b c io e).objects ↔ px'.HasHist i := by
  -- the Hybridbufs in sight of the callback, and those of the other clients
  have hbefore := ps.proxy.hasHist_iff b i
  have hafter := px'.hasHist_iff b i
  rw [hc] at hbefore
  rw [← hids, Proxy.OthersHaveHist.congr hothers] at hafter
  -- what another client has is not in sight
  have hapart : ps.proxy.OthersHaveHist b i →
      i ∉ ps.proxy.pool.map (·.id) ++ c.client.histIds := by
    rintro ⟨b', c', hb, hc', hi⟩ hmem
    rcases List.mem_append.mp hmem with hmem | hmem
    · exact hs.owned.not_pooled b' c' hc' i hi hmem
    · exact hs.owned.apart b' b c' c hc' hc hb i hi hmem
  have hdropped : (∀ j ∈ e.droppedHists ps.proxy.pool c, Object.hist i ≠ .hist j) ↔
      ¬ (i ∈ ps.proxy.pool.map (·.id) ++ c.client.histIds ∧ i ∉ e.histIds) := by
    unfold Effect.droppedHists
    constructor
    · rintro hne ⟨hmem, hnot⟩
      exact hne i (List.mem_filter.mpr ⟨hmem, by simpa using hnot⟩) rfl
    · rintro hnot j hj ⟨⟩
      obtain ⟨hmem, hgone⟩ := List.mem_filter.mp hj
      exact hnot ⟨hmem, by simpa using hgone⟩
  have hmem : (Object.hist i ∈ ps.table.objects ∧
        (left = none → (Object.hist i).clientOf ≠ some b)) ∨
        (e.opensSlowBuffers c = true ∧ Object.hist i ∈ Object.slowBuffers b) ↔
      ps.proxy.HasHist i := by
    simp [Object.clientOf, Object.slowBuffers, hs.fits.hist]
  rw [mem_callbackTable hcalled rfl, hmem, hdropped, hbefore, hafter]
  -- one in sight stays unless it is dropped, the others are not touched
  constructor
  · rintro ⟨hbefore | hother, hnot⟩
    · refine .inl ?_
      by_contra hgone
      exact hnot ⟨hbefore, hgone⟩
    · exact .inr hother
  · rintro (hi | hother)
    · exact ⟨.inl (hsub hi), fun h => h.2 hi⟩
    · exact ⟨.inr hother, fun h => hapart hother h.1⟩

/-- **What is done to a connection** keeps the process in order, if it is done in order. It loses a
descriptor if it fails to connect to the server, or deletes a connection that has left fast
mode. -/
theorem Sound.settle {px' : Proxy cfg L} (hs : ps.Sound) (hc : ps.proxy.conns b = some c)
    (he : e.Orderly ps.proxy.pool c) (hsettle : ps.proxy.settle b e = .ok px') :
    Sound ⟨px', ps.callbackTable b c io e⟩ ∧
      Table.Passes ps.proxy.accepted ps.proxy.nextId px'.accepted px'.nextId ps.table
        (ps.callbackTable b c io e) ((∀ bs, .page503 bs ∉ e.calls) ∧
          (.closeClient ∈ e.calls → c.fastMode = true)) := by
  obtain ⟨s, hrep⟩ := hs.owned.rep b c hc
  have howned := hs.owned.settle hc hsettle he.rep he.live_ids he.deleted_ids
  have hids_live := he.live_ids
  have hids_deleted := he.deleted_ids
  have hslow := he.slow
  obtain ⟨hacc, hnext, hpool, hconn, hothers⟩ := Proxy.settle_ok hsettle
  obtain ⟨hleft, hopens, hids⟩ := settle_left (c := c) hsettle
  obtain ⟨hcalled, hpass⟩ := hs.callbackTable hc io he hleft
  have hkept : ∀ c', px'.conns b = some c' → c.client.requestBuf.isSome = true →
      c'.client.requestBuf.isSome = true := fun c' hc' => hslow c' ((hconn c').mp hc')
  have hsub : e.histIds ⊆ ps.proxy.pool.map (·.id) ++ c.client.histIds := by
    unfold Effect.histIds
    cases hst : e.status with
    | live c' => exact (hids_live c' hst).subset
    | deleted =>
      rw [List.append_nil]
      exact (hids_deleted hst).subset
    | crashed f =>
      rw [hst] at hleft
      cases hleft
  -- the three buffers come and go together
  have hsame : ∀ f : Client cfg → Bool,
      (∀ s' c', Rep (L := L) s' c' → f c'.client = c'.client.requestBuf.isSome) →
      (px'.conns b).any (fun c => f c.client) = (px'.conns b).any (·.client.requestBuf.isSome) := by
    intro f hf
    cases hb : px'.conns b with
    | none => rfl
    | some c' =>
      obtain ⟨s', hrep'⟩ := howned.rep b c' hb
      exact hf s' c' hrep'
  have hfits : Fits px' (ps.callbackTable b c io e) := by
    refine hs.fits.of_frame b hothers (fun x hx hnohist hnot => ?_) (fun b' hb => ?_) ?_ ?_ ?_ ?_ ?_
      fun i => mem_hist_iff hs hc hcalled hothers hids hsub
    -- the objects of other connections
    · have hbuf : x ∉ Object.slowBuffers b := by
        intro hmem
        simp only [Object.slowBuffers, Finset.mem_insert, Finset.mem_singleton] at hmem
        rcases hmem with rfl | rfl | rfl <;> exact hnot rfl
      rw [mem_callbackTable hcalled hx]
      simp [hbuf, hnot, hnohist]
    · rw [callbackTable_serverOf, hcalled.others b' hb]
    -- the client goes with its connection
    · rw [mem_callbackTable hcalled rfl, hs.fits.client, hc]
      cases px'.conns b <;> simp [Object.clientOf, Object.slowBuffers]
    -- the server is what the calls leave
    · rw [callbackTable_serverOf, hcalled.serving]
      cases px'.conns b <;> rfl
    -- the buffers of slow mode, in the order of `Fits`
    · exact mem_slowBuffer_iff rfl (by simp [Object.slowBuffers]) hcalled rfl hopens
        (by rw [hs.fits.requestBuf, hc]; rfl) hkept
    · rw [hsame (·.requestTmpBuf.isSome) fun s' c' h => h.slowBuffers.2.1]
      refine mem_slowBuffer_iff rfl (by simp [Object.slowBuffers]) hcalled rfl hopens ?_ hkept
      rw [hs.fits.requestTmpBuf, hc, Option.any_some, hrep.slowBuffers.2.1]
    · rw [hsame (·.responseBuf.isSome) fun s' c' h => h.slowBuffers.2.2]
      refine mem_slowBuffer_iff rfl (by simp [Object.slowBuffers]) hcalled rfl hopens ?_ hkept
      rw [hs.fits.responseBuf, hc, Option.any_some, hrep.slowBuffers.2.2]
  -- the FIFO is there from the moment fast mode is left
  have hfast : .responseBuf b ∉ ps.table.objects ↔ c.fastMode = true := by
    rw [hs.fits.responseBuf, hc, Option.any_some, hrep.slowBuffers.2.2, hrep.slowBuffers.1,
      ← hrep.fastMode]
    cases c.fastMode <;> simp
  refine ⟨⟨howned, ?_, hfits⟩, ?_⟩
  · show Table.Valid px'.accepted px'.nextId _
    rw [hacc, hnext]
    exact hpass.valid
  · show Table.Passes _ _ px'.accepted px'.nextId _ _ _
    rw [hacc, hnext]
    exact hpass.congr (and_congr_right' (imp_congr_right fun _ => hfast))

/-- **A callback** keeps the process in order. It loses a descriptor if it fails to connect to the
server, or deletes a connection that has left fast mode. -/
theorem Sound.callback {ps' : Process cfg L} (hs : ps.Sound) (hc : ps.proxy.conns b = some c)
    (hen : c.enabled cb = true) (hr : ps.callback b c cb io = .ok ps') :
    ps'.Sound ∧ Table.Passes ps.proxy.accepted ps.proxy.nextId ps'.proxy.accepted ps'.proxy.nextId
      ps.table ps'.table
      ((∀ bs, .page503 bs ∉ (c.fire cb io ps.proxy.globalBuffer ps.proxy.pool).calls) ∧
        (.closeClient ∈ (c.fire cb io ps.proxy.globalBuffer ps.proxy.pool).calls →
          c.fastMode = true)) := by
  obtain ⟨px', hsettle, rfl⟩ := callback_ok hr
  obtain ⟨s, hrep⟩ := hs.owned.rep b c hc
  exact hs.settle hc (fire_orderly hrep hen io ps.proxy.globalBuffer ps.proxy.pool) hsettle

/-- `set_slow_mode` does nothing on the sockets. -/
theorem slowSwitch_calls {s : Session cfg L} (hrep : Rep s c) (hen : c.enabled .slowSwitch = true)
    (io : Io) (g : Scratch cfg.sockIoBufSize) (pool : List (Hist cfg)) :
    (c.fire .slowSwitch io g pool).calls = [] := by
  obtain ⟨out, hstep, -⟩ := fire_step hrep hen io g pool
  generalize (c.fire .slowSwitch io g pool).calls = calls at hstep
  cases hstep <;> rfl

/-- `set_slow_mode`, called by `put_events_slow_mode`, frees no event. -/
theorem Sound.slowSwitch {ps' : Process cfg L} (hs : ps.Sound) (hc : ps.proxy.conns b = some c)
    (hen : c.enabled .slowSwitch = true) (hr : ps.callback b c .slowSwitch io = .ok ps') :
    (ps'.Sound ∧ Table.Passes ps.proxy.accepted ps.proxy.nextId ps'.proxy.accepted
      ps'.proxy.nextId ps.table ps'.table True) ∧
      ps'.table.events = ps.table.events ∧
      ∀ k evtList, .slowTimer k evtList ∈ ps'.table.objects ↔
        .slowTimer k evtList ∈ ps.table.objects := by
  obtain ⟨s, hrep⟩ := hs.owned.rep b c hc
  have hcalls := slowSwitch_calls hrep hen io ps.proxy.globalBuffer ps.proxy.pool
  obtain ⟨hsound, hpass⟩ := hs.callback hc hen hr
  rw [hcalls] at hpass
  refine ⟨⟨hsound, hpass.congr (by simp)⟩, ?_⟩
  obtain ⟨px', hsettle, rfl⟩ := callback_ok hr
  generalize c.fire .slowSwitch io ps.proxy.globalBuffer ps.proxy.pool = e at *
  unfold Process.callbackTable
  rw [hcalls]
  -- neither a buffer nor a Hybridbuf has events
  refine ⟨?_, fun k evtList => ?_⟩
  · have hevents : ∀ (ids : List ℕ) (t : Table),
        (ids.foldl (fun t i => t.delete (.hist i)) t).events = t.events := by
      intro ids
      induction ids with
      | nil => exact fun t => rfl
      | cons i ids ih =>
        intro t
        rw [List.foldl_cons, ih]
        exact Finset.sdiff_empty
    rw [hevents]
    split
    · simp [Table.newSlowBuffers, Table.new, Object.events]
    · rfl
  · rw [Table.mem_deleteHists]
    split
    · simp [mem_newSlowBuffers, Object.slowBuffers]
    · simp

end Callback

/-! ### An event of the process -/

section Step

variable {ps ps' : Process cfg L}

/-- A new connection has the number of no other. -/
theorem Sound.conns_accepted (hs : ps.Sound) : ps.proxy.conns ps.proxy.accepted = none := by
  cases h : ps.proxy.conns ps.proxy.accepted with
  | none => rfl
  | some c =>
    have hmem := (hs.fits.client ps.proxy.accepted).mpr (by rw [h]; rfl)
    exact absurd (hs.valid.client_lt hmem) (lt_irrefl _)

/-- A socket that is turned away. -/
theorem Sound.refuse (hs : ps.Sound) (hmax : cfg.maxConnection ≤ ps.proxy.connectionCount)
    (io : Io) :
    (ps.acceptNew io).Sound ∧ Table.Passes ps.proxy.accepted ps.proxy.nextId
      (ps.acceptNew io).proxy.accepted (ps.acceptNew io).proxy.nextId ps.table
      (ps.acceptNew io).table True := by
  have hproxy : (ps.acceptNew io).proxy = { ps.proxy with
      globalBuffer := (ps.proxy.acceptNew io).2.globalBuffer
      accepted := ps.proxy.accepted + 1 } := by
    rw [Process.acceptNew, Proxy.acceptNew, if_pos hmax]
  have htable : (ps.acceptNew io).table = Table.closeSocketGracefully
      { ps.table with fds := insert (.client ps.proxy.accepted) ps.table.fds } io.clientClose
      (.client ps.proxy.accepted) := by
    rw [Process.acceptNew, if_pos hmax]
  have hpass : Table.Passes ps.proxy.accepted ps.proxy.nextId
      (ps.acceptNew io).proxy.accepted (ps.acceptNew io).proxy.nextId ps.table
      (ps.acceptNew io).table True := by
    rw [hproxy, htable]
    exact hs.valid.refuse io.clientClose
  have hlasting : ∀ x : Object, x.transient = false →
      (x ∈ (ps.acceptNew io).table.objects ↔ x ∈ ps.table.objects) := by
    intro x hx
    rw [htable]
    exact Table.mem_closeSocketGracefully hx _ _
  refine ⟨⟨hs.owned.acceptNew io, hpass.valid, ?_⟩, hpass⟩
  refine hs.fits.congr ?_ ?_ ?_ fun x _ hx => hlasting x hx
  · rw [hproxy]
  · rw [hproxy]
  · rw [htable, Table.closeSocketGracefully_serverOf]

/-- The tables with a new client, and with its Hybridbuf if that is new. -/
theorem Sound.admit_table (hs : ps.Sound)
    (hroom : ¬ cfg.maxConnection ≤ ps.proxy.connectionCount) (io : Io) :
    Table.Passes ps.proxy.accepted ps.proxy.nextId (ps.proxy.accepted + 1) (ps.proxy.nextId + 1)
        ps.table (ps.acceptNew io).table True ∧
      (ps.acceptNew io).table.serverOf = ps.table.serverOf ∧
      ∀ x, x ∈ (ps.acceptNew io).table.objects ↔ x ∈ ps.table.objects ∨
        x = .client ps.proxy.accepted ∨ (ps.proxy.pool = [] ∧ x = .hist ps.proxy.nextId) := by
  rw [Process.acceptNew, if_neg hroom]
  cases hpool : ps.proxy.pool with
  | nil =>
    have hclient := hs.valid.newClient (le_refl ps.proxy.nextId)
    refine ⟨(hclient.trans hclient.valid.newHist).congr (by simp), rfl, fun x => ?_⟩
    simp [Table.new, or_comm, or_assoc]
  | cons h pool =>
    refine ⟨hs.valid.newClient (Nat.le_succ _), rfl, fun x => ?_⟩
    simp [Table.new, or_comm]

/-- A client that is admitted. -/
theorem Sound.accept (hs : ps.Sound) (hroom : ¬ cfg.maxConnection ≤ ps.proxy.connectionCount)
    (io : Io) :
    (ps.acceptNew io).Sound ∧ Table.Passes ps.proxy.accepted ps.proxy.nextId
      (ps.acceptNew io).proxy.accepted (ps.acceptNew io).proxy.nextId ps.table
      (ps.acceptNew io).table True := by
  have hproxy : (ps.acceptNew io).proxy = { ps.proxy with
      pool := (Connection.acceptNew L ps.proxy.pool ps.proxy.nextId).2
      nextId := ps.proxy.nextId + 1
      connectionCount := ps.proxy.connectionCount + 1
      accepted := ps.proxy.accepted + 1
      conns := Function.update ps.proxy.conns ps.proxy.accepted
        (some (Connection.acceptNew L ps.proxy.pool ps.proxy.nextId).1) } := by
    rw [Process.acceptNew, Proxy.acceptNew, if_neg hroom]
  obtain ⟨hpass, hpointer, hobjects⟩ := hs.admit_table hroom io
  have hnone := hs.conns_accepted
  have hpass' : Table.Passes ps.proxy.accepted ps.proxy.nextId
      (ps.acceptNew io).proxy.accepted (ps.acceptNew io).proxy.nextId ps.table
      (ps.acceptNew io).table True := by
    rw [hproxy]
    exact hpass
  refine ⟨⟨hs.owned.acceptNew io, hpass'.valid, ?_⟩, hpass'⟩
  have hnew : (ps.acceptNew io).proxy.conns ps.proxy.accepted =
      some (Connection.acceptNew L ps.proxy.pool ps.proxy.nextId).1 := by
    rw [hproxy]
    exact Function.update_self ..
  have hothers : ∀ b, b ≠ ps.proxy.accepted →
      (ps.acceptNew io).proxy.conns b = ps.proxy.conns b := by
    intro b hb
    rw [hproxy]
    exact Function.update_of_ne hb _ _
  -- a new connection has neither a server nor slow buffers
  have hplain : (Connection.acceptNew L ps.proxy.pool ps.proxy.nextId).1.server.isSome = false ∧
      (Connection.acceptNew L ps.proxy.pool ps.proxy.nextId).1.client.requestBuf.isSome = false ∧
      (Connection.acceptNew L ps.proxy.pool ps.proxy.nextId).1.client.requestTmpBuf.isSome
        = false ∧
      (Connection.acceptNew L ps.proxy.pool ps.proxy.nextId).1.client.responseBuf.isSome
        = false := by
    cases ps.proxy.pool <;> exact ⟨rfl, rfl, rfl, rfl⟩
  obtain ⟨hserver, hrequest, htmp, hresponse⟩ := hplain
  have hrequestBuf := hs.fits.requestBuf ps.proxy.accepted
  have hrequestTmpBuf := hs.fits.requestTmpBuf ps.proxy.accepted
  have hresponseBuf := hs.fits.responseBuf ps.proxy.accepted
  rw [hnone] at hrequestBuf hrequestTmpBuf hresponseBuf
  -- what is new belongs to connection `accepted`, but for the Hybridbuf
  refine hs.fits.of_frame ps.proxy.accepted hothers (fun x _ hnohist hnot => ?_)
    (fun b _ => by rw [hpointer]) ?_ ?_ ?_ ?_ ?_ fun i => ?_
  · have hne : x ≠ .client ps.proxy.accepted := by
      rintro rfl
      exact hnot rfl
    rw [hobjects]
    simp [hne, hnohist]
  · rw [hobjects, hnew]
    simp
  · rw [hpointer, hs.fits.server, hnone, hnew]
    exact hserver.symm
  · rw [hobjects, hnew, Option.any_some, hrequest, hrequestBuf]
    simp
  · rw [hobjects, hnew, Option.any_some, htmp, hrequestTmpBuf]
    simp
  · rw [hobjects, hnew, Option.any_some, hresponse, hresponseBuf]
    simp
  · -- the Hybridbuf of the newcomer comes from the pool, or is new
    rw [hobjects, hs.fits.hist, Proxy.hasHist_iff _ ps.proxy.accepted, hnone,
      Proxy.hasHist_iff _ ps.proxy.accepted, hnew, Proxy.OthersHaveHist.congr hothers]
    have hpool : (ps.acceptNew io).proxy.pool =
        (Connection.acceptNew L ps.proxy.pool ps.proxy.nextId).2 := by rw [hproxy]
    rw [hpool]
    cases hold : ps.proxy.pool with
    | nil => simp [Connection.acceptNew, Client.create, Client.histIds, or_comm]
    | cons x pool =>
      simp [Connection.acceptNew, Client.create, Client.histIds, or_comm, or_left_comm]

/-- `accept_new` keeps the process in order, and loses nothing. -/
theorem Sound.acceptNew (hs : ps.Sound) (io : Io) :
    (ps.acceptNew io).Sound ∧ Table.Passes ps.proxy.accepted ps.proxy.nextId
      (ps.acceptNew io).proxy.accepted (ps.acceptNew io).proxy.nextId ps.table
      (ps.acceptNew io).table True := by
  by_cases hmax : cfg.maxConnection ≤ ps.proxy.connectionCount
  · exact hs.refuse hmax io
  · exact hs.accept hmax io

/-- A pending event of a connection is one of those `set_slow_mode` can be called for. -/
theorem enabled_of_pending {evt : EventId} {b : ℕ} {c : Connection cfg L}
    (hconn : evt.associatedConn = some b) (hc : ps.proxy.conns b = some c)
    (hpending : ps.pending evt = true) : c.enabled .slowSwitch = true := by
  show c.hasEvent = true
  unfold Connection.hasEvent
  cases evt <;> cases hconn
  case clientRead =>
    rw [pending, hc, Option.any_some] at hpending
    rw [hpending, Bool.true_or, Bool.true_or]
  case clientWrite =>
    rw [pending, hc, Option.any_some] at hpending
    rw [hpending, Bool.or_true, Bool.true_or]
  case serverRead =>
    rw [pending, hc, Option.any_some, Bool.and_eq_true] at hpending
    obtain ⟨s, hserver, hread⟩ := (Option.any_eq_true _ _).mp hpending.2
    rw [hserver, Option.any_some, hread, Bool.true_or, Bool.or_true]
  case serverWrite =>
    rw [pending, hc, Option.any_some, Bool.and_eq_true] at hpending
    obtain ⟨s, hserver, hwrite⟩ := (Option.any_eq_true _ _).mp hpending.2
    rw [hserver, Option.any_some, hwrite, Bool.or_true, Bool.or_true]

/-- The loop of `put_events_slow_mode` goes on from a process in order, that has the same events
and timers. -/
theorem Sound.putEventsSlowMode {ios : EventId → Io} {evtList : List EventId} (hs : ps.Sound)
    (h : ps.putEventsSlowMode ios evtList = .ok ps') :
    (ps'.Sound ∧ Table.Passes ps.proxy.accepted ps.proxy.nextId ps'.proxy.accepted
      ps'.proxy.nextId ps.table ps'.table True) ∧
      ps'.table.events = ps.table.events ∧
      ∀ k evtList, .slowTimer k evtList ∈ ps'.table.objects ↔
        .slowTimer k evtList ∈ ps.table.objects := by
  induction evtList generalizing ps with
  | nil =>
    obtain rfl := Except.ok.inj h
    exact ⟨⟨hs, hs.valid.refl⟩, rfl, fun _ _ => Iff.rfl⟩
  | cons evt rest ih =>
    unfold Process.putEventsSlowMode at h
    split at h
    case isFalse => cases h
    case isTrue =>
    split at h
    case h_2 => exact ih hs h
    case h_1 b hconn =>
    split at h
    case h_2 => cases h
    case h_1 c hc =>
    split at h
    case isFalse => exact ih hs h
    case isTrue hpending =>
    split at h
    case h_2 => cases h
    case h_1 ps₁ hr =>
    obtain ⟨⟨hs₁, hpass₁⟩, hevents₁, htimers₁⟩ :=
      hs.slowSwitch hc (enabled_of_pending hconn hc hpending) hr
    -- the connection is in slow mode now, and the rest of the list is gone through as it was
    obtain ⟨⟨hs', hpass'⟩, hevents', htimers'⟩ := ih hs₁ h
    refine ⟨⟨hs', (hpass₁.trans hpass').congr (by simp)⟩, hevents'.trans hevents₁, ?_⟩
    exact fun k evtList => (htimers' k evtList).trans (htimers₁ k evtList)

/-- An operation on the tables that touches no object of a connection. -/
theorem Sound.of_table {t : Table} (hs : ps.Sound)
    (hvalid : t.Valid ps.proxy.accepted ps.proxy.nextId)
    (hpointer : t.serverOf = ps.table.serverOf)
    (hobjects : ∀ x : Object, (∀ k evtList, x ≠ .slowTimer k evtList) → x.transient = false →
      (x ∈ t.objects ↔ x ∈ ps.table.objects)) : Sound { ps with table := t } :=
  ⟨hs.owned, hvalid, hs.fits.congr rfl rfl hpointer hobjects⟩

/-- The timer `x` has fired and goes. -/
theorem Sound.deleteTimer (hs : ps.Sound) {x : Object} (hx : x ∈ ps.table.objects)
    (htimer : (∃ k fd, x = .closeTimer k fd) ∨ ∃ k evtList, x = .slowTimer k evtList) :
    Sound { ps with table := ps.table.delete x } ∧
      Table.Passes ps.proxy.accepted ps.proxy.nextId ps.proxy.accepted ps.proxy.nextId ps.table
        (ps.table.delete x) True := by
  have hpass : Table.Passes ps.proxy.accepted ps.proxy.nextId ps.proxy.accepted ps.proxy.nextId
      ps.table (ps.table.delete x) True := by
    rcases htimer with ⟨k, fd, rfl⟩ | ⟨k, evtList, rfl⟩
    · exact (hs.valid.destroy hx (by simp) (by simp) subset_rfl (by simp)).congr
        (iff_of_true subset_rfl trivial)
    · exact (hs.valid.destroy hx (by simp) (by simp) subset_rfl (by simp)).congr
        (iff_of_true subset_rfl trivial)
  refine ⟨hs.of_table hpass.valid rfl fun y hslow hlasting => ?_, hpass⟩
  -- a timer is not what `of_table` asks about
  have hne : y ≠ x := by
    rcases htimer with ⟨k, fd, rfl⟩ | ⟨k, evtList, rfl⟩
    · rintro rfl
      cases hlasting
    · exact hslow k evtList
  exact Table.mem_delete.trans (and_iff_right hne)

/-- A callback tries to connect to the server, and fails. -/
def LogEntry.connectFails (x : LogEntry cfg L) : Bool :=
  x.calls.any fun
    | .page503 _ => true
    | _ => false

/-- A connection that has left fast mode is deleted. -/
def LogEntry.deletesSlow (x : LogEntry cfg L) : Bool :=
  match x.ev with
  | .fire b _ _ => x.calls.contains .closeClient && (x.before.proxy.conns b).any (!·.fastMode)
  | _ => false

/-- A descriptor is lost. -/
def LogEntry.leaks (x : LogEntry cfg L) : Bool := x.connectFails || x.deletesSlow

theorem LogEntry.calls_fire {b : ℕ} {c : Connection cfg L} {cb : Callback} {io : Io}
    (hc : ps.proxy.conns b = some c) : (⟨ps, .fire b cb io⟩ : LogEntry cfg L).calls
      = (c.fire cb io ps.proxy.globalBuffer ps.proxy.pool).calls := by
  simp only [LogEntry.calls, hc]

theorem LogEntry.leaks_fire {b : ℕ} {c : Connection cfg L} {cb : Callback} {io : Io}
    (hc : ps.proxy.conns b = some c) :
    (⟨ps, .fire b cb io⟩ : LogEntry cfg L).leaks = false ↔
      (∀ bs, .page503 bs ∉ (c.fire cb io ps.proxy.globalBuffer ps.proxy.pool).calls) ∧
        (.closeClient ∈ (c.fire cb io ps.proxy.globalBuffer ps.proxy.pool).calls →
          c.fastMode = true) := by
  have hcalls : (⟨ps, .fire b cb io⟩ : LogEntry cfg L).calls = _ := calls_fire hc
  rw [leaks, Bool.or_eq_false_iff]
  refine and_congr ?_ ?_
  · rw [connectFails, hcalls, List.any_eq_false]
    constructor
    · exact fun h bs hmem => h _ hmem rfl
    · intro h call hmem
      cases call with
      | page503 bs => exact absurd hmem (h bs)
      | _ => exact Bool.false_ne_true
  · rw [deletesSlow, hcalls]
    show (List.contains _ _ && (ps.proxy.conns b).any (!·.fastMode)) = false ↔ _
    rw [hc, Option.any_some, Bool.and_eq_false_imp, List.contains_iff_mem, Bool.not_eq_false']

/-- **One event.** It keeps the process in order, and says itself whether it loses a descriptor. -/
theorem Sound.step {ev : Event} (hs : ps.Sound) (h : ps.step ev = some (.ok ps')) :
    ps'.Sound ∧ Table.Passes ps.proxy.accepted ps.proxy.nextId ps'.proxy.accepted ps'.proxy.nextId
      ps.table ps'.table ((⟨ps, ev⟩ : LogEntry cfg L).leaks = false) := by
  cases ev with
  | acceptNew io =>
    obtain rfl := Except.ok.inj (Option.some.inj h)
    obtain ⟨hs', hpass⟩ := hs.acceptNew io
    exact ⟨hs', hpass.congr (iff_of_true trivial rfl)⟩
  | fire b cb io =>
    obtain ⟨c, hc, hen, -, hr⟩ := step_fire h
    obtain ⟨hs', hpass⟩ := hs.callback hc hen hr
    -- the callback decides whether a descriptor is lost
    exact ⟨hs', hpass.congr (LogEntry.leaks_fire hc).symm⟩
  | sigusr1 evtList =>
    obtain ⟨-, -, rfl⟩ := step_sigusr1 h
    have hpass := hs.valid.newSlowTimer evtList
    refine ⟨hs.of_table hpass.valid rfl fun x hslow _ => ?_,
      hpass.congr (iff_of_true trivial rfl)⟩
    exact Finset.mem_insert.trans (or_iff_right (hslow _ _))
  | putEventsSlowMode k evtList ios =>
    obtain ⟨hmem, ⟨ps₁, hloop, hr⟩ | ⟨f, -, hr⟩⟩ := step_putEventsSlowMode h
    · obtain rfl := Except.ok.inj hr
      obtain ⟨⟨hs₁, hpass₁⟩, -, htimers⟩ := hs.putEventsSlowMode hloop
      obtain ⟨hs', hpass'⟩ :=
        hs₁.deleteTimer ((htimers k evtList).mpr hmem) (.inr ⟨k, evtList, rfl⟩)
      exact ⟨hs', (hpass₁.trans hpass').congr (iff_of_true ⟨trivial, trivial⟩ rfl)⟩
    · cases hr
  | closeAfterTimeout k fd =>
    obtain ⟨hmem, rfl⟩ := step_closeAfterTimeout h
    obtain ⟨hs', hpass'⟩ := hs.deleteTimer hmem (.inl ⟨k, fd, rfl⟩)
    exact ⟨hs', hpass'.congr (iff_of_true trivial rfl)⟩

/-- **A run** keeps the process in order, and loses what its events lose. -/
theorem RunFrom.passes {ps₀ : Process cfg L} {log : List (LogEntry cfg L)}
    {r : Except Failure (Process cfg L)} (h : RunFrom ps₀ log r) (hs₀ : ps₀.Sound) :
    ∀ ps, r = .ok ps → ps.Sound ∧ Table.Passes ps₀.proxy.accepted ps₀.proxy.nextId
      ps.proxy.accepted ps.proxy.nextId ps₀.table ps.table (∀ x ∈ log, x.leaks = false) := by
  induction h with
  | start =>
    rintro ps hr
    obtain rfl := Except.ok.inj hr
    exact ⟨hs₀, hs₀.valid.refl.congr (iff_of_true trivial (by simp))⟩
  | step _ hstep ih =>
    rintro ps' rfl
    obtain ⟨hs, hpass⟩ := ih _ rfl
    obtain ⟨hs', hpass'⟩ := hs.step hstep
    refine ⟨hs', (hpass.trans hpass').congr ?_⟩
    rw [List.forall_mem_append, List.forall_mem_singleton]

end Step

/-! ### The start -/

theorem sound_start (n : ℕ) : (start cfg L n).Sound := by
  refine ⟨Proxy.owned_start n, .start n, ⟨fun b => ?_, fun b => rfl, fun b => ?_, fun b => ?_,
    fun b => ?_, fun i => ?_⟩⟩
  · simp [start, Table.mem_start, Proxy.start]
  · simp [start, Table.mem_start, Proxy.start]
  · simp [start, Table.mem_start, Proxy.start]
  · simp [start, Table.mem_start, Proxy.start]
  · simp [start, Table.mem_start, Proxy.HasHist, Proxy.start]

/-! ### Who accounts for a descriptor -/

/-- A timer will close the socket. -/
def Closing (ps : Process cfg L) (fd : Fd) : Prop := ∃ k, .closeTimer k fd ∈ ps.table.objects

/-- The descriptor is one of the start, it is that of a Hybridbuf in the pool, it belongs to a live
connection, or a timer will close it. -/
def Accounted (ps : Process cfg L) (fd : Fd) : Prop :=
  ps.Closing fd ∨ match fd with
    | .startup _ => True
    | .client b => ∃ c, ps.proxy.conns b = some c
    | .server b n =>
      ∃ c, ps.proxy.conns b = some c ∧ c.server.isSome = true ∧ ps.table.serverOf b = some n
    | .requestBuf b => ∃ c, ps.proxy.conns b = some c ∧ c.client.requestBuf.isSome = true
    | .requestTmpBuf b => ∃ c, ps.proxy.conns b = some c ∧ c.client.requestTmpBuf.isSome = true
    | .responseBuf b | .responseReader b =>
      ∃ c, ps.proxy.conns b = some c ∧ c.client.responseBuf.isSome = true
    | .hist i => ps.proxy.HasHist i

/-- A live object holds the descriptor just if it is accounted for. -/
theorem Sound.accounted_iff {ps : Process cfg L} (hs : ps.Sound) (fd : Fd) :
    ps.Accounted fd ↔ .fd fd ∈ heldBy Object.holds {x | x ∈ ps.table.objects} := by
  have hserver : ∀ b n, .server b n ∈ ps.table.objects ↔
      ∃ c, ps.proxy.conns b = some c ∧ c.server.isSome = true ∧ ps.table.serverOf b = some n := by
    intro b n
    rw [hs.valid.server]
    constructor
    · intro hn
      have hany := hs.fits.server b
      rw [hn] at hany
      obtain ⟨c, hc, hsome⟩ := (Option.any_eq_true _ _).mp hany.symm
      exact ⟨c, hc, hsome, hn⟩
    · exact fun ⟨_, _, _, hn⟩ => hn
  -- who accounts for a descriptor points to the object that holds it, and the other way round
  constructor
  · rintro (⟨k, hk⟩ | hfd)
    · exact ⟨_, hk, Finset.mem_singleton_self fd⟩
    · cases fd with
      | startup f => exact ⟨.process, hs.valid.process, Table.startup_mem f⟩
      | client b =>
        obtain ⟨c, hc⟩ := hfd
        exact ⟨.client b, (hs.fits.client b).mpr (by rw [hc]; rfl), Finset.mem_singleton_self _⟩
      | server b n => exact ⟨.server b n, (hserver b n).mpr hfd, Finset.mem_singleton_self _⟩
      | requestBuf b =>
        exact ⟨.requestBuf b, (hs.fits.requestBuf b).mpr ((Option.any_eq_true _ _).mpr hfd),
          Finset.mem_singleton_self _⟩
      | requestTmpBuf b =>
        exact ⟨.requestTmpBuf b, (hs.fits.requestTmpBuf b).mpr ((Option.any_eq_true _ _).mpr hfd),
          Finset.mem_singleton_self _⟩
      | responseBuf b | responseReader b =>
        exact ⟨.responseBuf b, (hs.fits.responseBuf b).mpr ((Option.any_eq_true _ _).mpr hfd),
          by simp [Object.holds, Object.fds]⟩
      | hist i => exact ⟨.hist i, (hs.fits.hist i).mpr hfd, Finset.mem_singleton_self _⟩
  · rintro ⟨x, hx, hfd⟩
    cases x with
    | process =>
      simp only [Object.holds, fd_mem_handles, Object.fds, Finset.mem_insert,
        Finset.mem_singleton] at hfd
      rcases hfd with rfl | rfl | rfl | rfl | rfl | rfl | rfl <;> exact .inr trivial
    | client b =>
      obtain rfl := Finset.mem_singleton.mp hfd
      exact .inr (Option.isSome_iff_exists.mp ((hs.fits.client b).mp hx))
    | server b n =>
      obtain rfl := Finset.mem_singleton.mp hfd
      exact .inr ((hserver b n).mp hx)
    | requestBuf b =>
      obtain rfl := Finset.mem_singleton.mp hfd
      exact .inr ((Option.any_eq_true _ _).mp ((hs.fits.requestBuf b).mp hx))
    | requestTmpBuf b =>
      obtain rfl := Finset.mem_singleton.mp hfd
      exact .inr ((Option.any_eq_true _ _).mp ((hs.fits.requestTmpBuf b).mp hx))
    | responseBuf b =>
      have hold := (Option.any_eq_true _ _).mp ((hs.fits.responseBuf b).mp hx)
      simp only [Object.holds, fd_mem_handles, Object.fds, Finset.mem_insert,
        Finset.mem_singleton] at hfd
      rcases hfd with rfl | rfl
      · exact .inr hold
      · exact .inr hold
    | hist i =>
      obtain rfl := Finset.mem_singleton.mp hfd
      exact .inr ((hs.fits.hist i).mp hx)
    | closeTimer k fd' =>
      obtain rfl := Finset.mem_singleton.mp hfd
      exact .inl ⟨k, hx⟩
    | slowTimer k evtList => exact absurd hfd (Finset.notMem_empty fd)

end Process

/-- **Descriptors are accounted for.** In a run of the process every open descriptor is one of the
start, or that of a Hybridbuf in the pool, or belongs to a live connection, or waits for its timer,
just if no connection to the server has failed and no connection that had left fast mode has been
deleted. Then only the descriptors of the start and of the pool are open when all connections and
timers have gone. -/
theorem descriptors_accounted {n : ℕ} {log : List (Process.LogEntry cfg L)} {ps : Process cfg L}
    (h : Process.RunFrom (Process.start cfg L n) log (.ok ps)) :
    ((∀ fd ∈ ps.table.fds, ps.Accounted fd) ↔ ∀ x ∈ log, x.leaks = false) ∧
      ((∀ x ∈ log, x.leaks = false) → (∀ b, ps.proxy.conns b = none) →
        (∀ fd, ¬ ps.Closing fd) → ∀ fd, fd ∈ ps.table.fds ↔
          (∃ f, fd = .startup f) ∨ ∃ x ∈ ps.proxy.pool, fd = .hist x.id) := by
  obtain ⟨hs, hpass⟩ := h.passes (Process.sound_start n) ps rfl
  -- at the start nothing is lost, and a run loses what its events lose
  have hstart : (Process.start cfg L n).table.lost = ∅ := Table.lost_start n
  have hlost : (∀ fd ∈ ps.table.fds, ps.Accounted fd) ↔ ∀ x ∈ log, x.leaks = false := by
    rw [← hpass.lossless_iff, hstart, Set.subset_empty_iff, Set.eq_empty_iff_forall_notMem]
    constructor
    -- a lost handle is a descriptor, because no event is ever lost
    · rintro hall (f | e) hmem
      · exact hmem.2 ((hs.accounted_iff f).mp (hall f hmem.1))
      · exact hs.valid.events e hmem
    · intro hall fd hfd
      rw [hs.accounted_iff]
      by_contra hnot
      exact hall (.fd fd) ⟨hfd, hnot⟩
  refine ⟨hlost, fun hkept hconns hclosed fd => ?_⟩
  -- what is accounted for is open, since its owner finds it open
  have hopen : fd ∈ ps.table.fds ↔ ps.Accounted fd := by
    refine ⟨hlost.mpr hkept fd, fun hacc => ?_⟩
    exact hs.valid.sound.held_subset ((hs.accounted_iff fd).mp hacc)
  rw [hopen]
  unfold Process.Accounted
  rw [or_iff_right (hclosed fd)]
  -- without connections only the start and the pool account for anything
  cases fd with
  | startup f => simp
  | hist i =>
    constructor
    · rintro (hi | ⟨b, c, hc, -⟩)
      · obtain ⟨x, hx, rfl⟩ := List.mem_map.mp hi
        exact .inr ⟨x, hx, rfl⟩
      · rw [hconns b] at hc
        cases hc
    · rintro (⟨f, hf⟩ | ⟨x, hx, heq⟩)
      · cases hf
      · exact .inl (List.mem_map.mpr ⟨x, hx, (Fd.hist.inj heq).symm⟩)
  | _ => simp [hconns]

/-- The constants of the tests: four connections, one buffer in the pool. -/
def Config.small : Config := { Config.shipped with maxConnection := 4 }

/-- A client is served in fast mode and leaves; when the timers have fired, the descriptors of the
start and that of its Hybridbuf are open. -/
theorem descriptors_accounted_fast :
    ∃ (log : List (Process.LogEntry .small .bodiless)) (ps : Process .small .bodiless),
      Process.RunFrom (Process.start .small .bodiless Config.small.maxHybridPool) log (.ok ps) ∧
        ps.table.nextServer = 1 ∧
        ∀ fd, fd ∈ ps.table.fds ↔
          (∃ f, fd = .startup f) ∨ ∃ x ∈ ps.proxy.pool, fd = .hist x.id := by
  obtain ⟨log, r, hrun, hr⟩ := Process.exists_run (L := .bodiless) Config.small.maxHybridPool
    [.acceptNew {},
      .fire 0 .clientReadable
        { clientReads := [.data (ascii "GET / HTTP/1.1\r\n\r\n")], serverWrites := [.wrote 18] },
      .fire 0 .clientReadable { clientReads := [.data []], serverClose := { last := .data [] } },
      .closeAfterTimeout 0 (.client 0)]
    (fun log (r : Except Process.Failure (Process .small _)) => Process.isOkWith r fun ps =>
      log.all (!·.leaks) && ps.table.nextServer == 1 &&
        decide (ps.table.objects = {.process, .hist 0}))
    (by decide +kernel)
  obtain ⟨ps, rfl, hps⟩ := Process.isOkWith_iff.mp hr
  simp only [Bool.and_eq_true, List.all_eq_true, Bool.not_eq_true', beq_iff_eq,
    decide_eq_true_eq] at hps
  obtain ⟨⟨hkept, hserver⟩, hobjects⟩ := hps
  obtain ⟨hs, -⟩ := hrun.passes (Process.sound_start _) ps rfl
  refine ⟨log, ps, hrun, hserver, (descriptors_accounted hrun).2 hkept (fun b => ?_) ?_⟩
  · rw [← Option.not_isSome_iff_eq_none, ← hs.fits.client, hobjects]
    simp
  · rintro fd ⟨k, hk⟩
    rw [hobjects] at hk
    simp at hk

/-- A client is put into slow mode and leaves: the reader of its `response_buf` stays open. Another
finds no server: the socket of the attempt stays open. -/
theorem descriptors_lost :
    ∃ (log : List (Process.LogEntry .small .bodiless)) (ps : Process .small .bodiless),
      Process.RunFrom (Process.start .small .bodiless Config.small.maxHybridPool) log (.ok ps) ∧
        ps.table.objects = {.process, .hist 0} ∧
        .responseReader 0 ∈ ps.table.fds ∧ ¬ ps.Accounted (.responseReader 0) ∧
        .server 1 0 ∈ ps.table.fds ∧ ¬ ps.Accounted (.server 1 0) := by
  obtain ⟨log, r, hrun, hr⟩ := Process.exists_run (L := .bodiless) Config.small.maxHybridPool
    [.acceptNew {},
      .sigusr1 [.acceptNew, .monitorDataRates, .clientRead 0],
      .putEventsSlowMode 0 [.acceptNew, .monitorDataRates, .clientRead 0] (fun _ => {}),
      .fire 0 .clientReadable
        { clientReads := [.data []], clientClose := { last := .data [] } },
      .acceptNew {},
      .fire 1 .clientReadable { connectOk := false, clientClose := { last := .data [] } }]
    (fun _ (r : Except Process.Failure (Process .small _)) => Process.isOkWith r fun ps =>
      decide (ps.table.objects = {.process, .hist 0}) &&
        decide (.responseReader 0 ∈ ps.table.fds) && decide (.server 1 0 ∈ ps.table.fds))
    (by decide +kernel)
  obtain ⟨ps, rfl, hps⟩ := Process.isOkWith_iff.mp hr
  simp only [Bool.and_eq_true, decide_eq_true_eq] at hps
  obtain ⟨⟨hobjects, hreader⟩, hsocket⟩ := hps
  obtain ⟨hs, -⟩ := hrun.passes (Process.sound_start _) ps rfl
  have hfree : ∀ fd, fd ∉ Object.process.fds → fd ∉ (Object.hist 0).fds →
      ¬ ps.Accounted fd := by
    intro fd hprocess hhist hacc
    obtain ⟨x, hx, hheld⟩ := (hs.accounted_iff fd).mp hacc
    have hx : x = .process ∨ x = .hist 0 := by simpa [hobjects] using hx
    rcases hx with rfl | rfl
    · exact hprocess hheld
    · exact hhist hheld
  exact ⟨log, ps, hrun, hobjects, hreader, hfree _ (by decide) (by decide), hsocket,
    hfree _ (by decide) (by decide)⟩

end LSProxy
