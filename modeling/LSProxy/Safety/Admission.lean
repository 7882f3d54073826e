import Mathlib
import LSProxy.Lib.Lending
import LSProxy.Safety.Isolation

/-!
# Admission, and the pool of history buffers

`accept_new` counts the connections and turns clients away at `MAX_CONNECTION`; a client takes its
history buffer from the pool, or allocates one, and gives it back when it leaves fast mode or when
it is deleted. To the process as a whole this is lending from a pool (`Lending`): `Proxy.lending`
is the state of the loan, and every event of the process is a few events of it.

* `World.Keeps` — no callback takes anything from the pool, nor fills it beyond `MAX_HYBRID_POOL`;
* `Proxy.step_lends` — an event of the process is a run of the loan;
* `admission` — the connections are counted, both counts are bounded, a client gives its history
  back at most once, and there are never more history buffers than connections may exist.
-/

set_option mvcgen.warning false

namespace LSProxy

open Handler Session Std.Do

variable {cfg : Config} {L : Llhttp}

/-! ### What a callback does to the pool -/

/-- The pool has not lost any of the buffers `ids`, and is not too large. -/
def World.Keeps (ids : List ℕ) (w : World cfg L) : Prop :=
  ids <+: w.pool.map (·.id) ∧ w.pool.length ≤ cfg.maxHybridPool

/-- The pool is kept, -/
abbrev keeping (ids : List ℕ) : Assertion (.except Exit (.arg (World cfg L) .pure)) :=
  fun w => ⌜w.Keeps ids⌝

/-- and stays so, whether the handler returns or leaves early. -/
abbrev kept {α : Type} (ids : List ℕ) : PostCond α (.except Exit (.arg (World cfg L) .pure)) :=
  post⟨fun _ w => ⌜w.Keeps ids⌝, fun _ w => ⌜w.Keeps ids⌝⟩

-- pieces that do not mention the pool
attribute [spec] call require check onClient getServer onServer getParser setParser getClientQueue
  getServerQueue getRequestBuf getRequestTmpBuf getResponseBuf getRequestHistory putScratch
  scratchFirst scratchBetween readClient readServer closeSocketGracefully Server.create
  Connection.freeServer Connection.freeParser Client.freeQueuedOutput Server.freeQueuedOutput
  replyWith503Unavailable

-- the queues have nothing to do with it, and are costly to look into
attribute [local irreducible] Circularbuf.copyFrom Circularbuf.writeAllTo

variable {ids : List ℕ}

/-- Giving a buffer back. -/
theorem World.Keeps.release {w : World cfg L} (h : w.Keeps ids) (x : Hist cfg) :
    (⟨w.globalBuffer, if w.pool.length < cfg.maxHybridPool then w.pool ++ [x] else w.pool, w.conn,
      w.calls⟩ : World cfg L).Keeps ids := by
  obtain ⟨hpre, hle⟩ := h
  split_ifs with hroom
  · refine ⟨?_, ?_⟩
    · show ids <+: (w.pool ++ [x]).map (·.id)
      rw [List.map_append]
      exact hpre.trans (List.prefix_append _ _)
    · show (w.pool ++ [x]).length ≤ _
      rw [List.length_append, List.length_singleton]
      exact hroom
  · exact ⟨hpre, hle⟩

@[spec] theorem Client.releaseRequestHistory_keeps :
    ⦃keeping ids⦄ (Client.releaseRequestHistory : Handler cfg L Unit) ⦃kept ids⦄ := by
  mvcgen [Client.releaseRequestHistory]
  next hkeeps _ x _ _ _ => exact hkeeps.release ⟨x.id, x.buf.clear⟩

@[spec] theorem Connection.delete_keeps (io : Io) :
    ⦃keeping ids⦄ (Connection.delete io : Handler cfg L Unit) ⦃kept ids⦄ := by
  mvcgen [Connection.delete, Connection.freeClient]

@[spec] theorem Client.keepTrackRequestHistory_keeps (io : Io) (size : ℕ) :
    ⦃keeping ids⦄ (Client.keepTrackRequestHistory io size : Handler cfg L Bool) ⦃kept ids⦄ := by
  mvcgen [Client.keepTrackRequestHistory]

@[spec] theorem Client.dispatchRequest_keeps (io : Io) (nbytes k : ℕ) :
    ⦃keeping ids⦄ (Client.dispatchRequest io nbytes k : Handler cfg L Unit) ⦃kept ids⦄ := by
  mvcgen [Client.dispatchRequest]

@[spec] theorem Client.recvToBufferSlowly_keeps (io : Io) :
    ⦃keeping ids⦄ (Client.recvToBufferSlowly io : Handler cfg L Unit) ⦃kept ids⦄ := by
  mvcgen [Client.recvToBufferSlowly]

@[spec] theorem Client.sendResponseSlowly_keeps (io : Io) :
    ⦃keeping ids⦄ (Client.sendResponseSlowly io : Handler cfg L Unit) ⦃kept ids⦄ := by
  mvcgen [Client.sendResponseSlowly]

@[spec] theorem Connection.fastForwardToServer_keeps (io : Io) :
    ⦃keeping ids⦄ (Connection.fastForwardToServer io : Handler cfg L Unit) ⦃kept ids⦄ := by
  mvcgen [Connection.fastForwardToServer]

@[spec] theorem Connection.fastForwardToClient_keeps (io : Io) :
    ⦃keeping ids⦄ (Connection.fastForwardToClient io : Handler cfg L Unit) ⦃kept ids⦄ := by
  mvcgen [Connection.fastForwardToClient]

@[spec] theorem Connection.startTransition_keeps (io : Io) :
    ⦃keeping ids⦄ (Connection.startTransition io : Handler cfg L Unit) ⦃kept ids⦄ := by
  mvcgen [Connection.startTransition]

@[spec] theorem Connection.setSlowMode_keeps (io : Io) :
    ⦃keeping ids⦄ (Connection.setSlowMode io : Handler cfg L Unit) ⦃kept ids⦄ := by
  mvcgen [Connection.setSlowMode]

@[spec] theorem Server.recvToBufferSlowly_keeps (io : Io) :
    ⦃keeping ids⦄ (Server.recvToBufferSlowly io : Handler cfg L Unit) ⦃kept ids⦄ := by
  mvcgen [Server.recvToBufferSlowly]

@[spec] theorem Server.sendRequestSlowly_keeps (io : Io) :
    ⦃keeping ids⦄ (Server.sendRequestSlowly io : Handler cfg L Unit) ⦃kept ids⦄ := by
  mvcgen [Server.sendRequestSlowly]

/-- **No callback takes from the pool or fills it beyond its bound.** -/
theorem Callback.handler_keeps (cb : Callback) (io : Io) :
    ⦃keeping ids⦄ (cb.handler io : Handler cfg L Unit) ⦃kept ids⦄ := by
  cases cb with
  | clientReadable => mvcgen [Callback.handler, Client.onReadable]
  | clientWritable => mvcgen [Callback.handler, Client.onWritable]
  | serverReadable timeout => mvcgen [Callback.handler, Server.onReadable]
  | serverWritable => mvcgen [Callback.handler, Server.onWritable]
  | monitor => mvcgen [Callback.handler, monitorDataRates]
  | slowSwitch => exact Connection.setSlowMode_keeps io

/-- The same of one event of a connection. -/
theorem fire_keeps (c : Connection cfg L) (cb : Callback) (io : Io) (g : Scratch cfg.sockIoBufSize)
    {pool : List (Hist cfg)} (hpool : pool.length ≤ cfg.maxHybridPool) :
    pool.map (·.id) <+: (c.fire cb io g pool).pool.map (·.id) ∧
      (c.fire cb io g pool).pool.length ≤ cfg.maxHybridPool := by
  have h := @Callback.handler_keeps cfg L (pool.map (·.id)) cb io ⟨g, pool, c, []⟩
    ⟨List.prefix_refl _, hpool⟩
  -- the three ways out of a handler: it returns, or leaves with the connection deleted or a fault
  unfold Connection.fire
  simp only [wp, PredTrans.apply] at h
  split at h
  · next heq =>
    rw [heq]
    exact h
  · next e w heq =>
    rw [heq]
    cases e with
    | deleted => exact h
    | fault f => exact h

namespace Proxy

/-! ### The process as a loan -/

/-- The live connections, by number. -/
def members (px : Proxy cfg L) : Finset ℕ :=
  (Finset.range px.accepted).filter fun b => (px.conns b).isSome = true

/-- Connection `b` is live and its client has a history buffer. -/
def holds (px : Proxy cfg L) (b : ℕ) : Bool :=
  (px.conns b).any fun c => c.client.requestHistory.isSome

/-- The connections that have one. -/
def holders (px : Proxy cfg L) : Finset ℕ :=
  (Finset.range px.accepted).filter fun b => px.holds b = true

/-- The process, as far as lending history buffers goes. -/
def lending (px : Proxy cfg L) : Lending.State ℕ := ⟨px.pool.length, px.members, px.holders⟩

/-- Add up what the events of a run amount to, by whose event it is and the states before and
after it. -/
def tally (f : ℕ → Proxy cfg L → Proxy cfg L → ℕ) (px : Proxy cfg L) : List Event → ℕ
  | [] => 0
  | ev :: rest =>
    match px.step ev with
    | some (who, _, .ok px') => f who px px' + px'.tally f rest
    | _ => 0

/-- How many buffers an event of connection `b` adds to the pool. -/
def pooledBy (b who : ℕ) (px px' : Proxy cfg L) : ℕ :=
  if who = b then px'.pool.length - px.pool.length else 0

/-- How many buffers connection `b` parts with. -/
def releasedBy (b _who : ℕ) (px px' : Proxy cfg L) : ℕ :=
  if px.holds b && !px'.holds b then 1 else 0

section Counted

variable {px px' : Proxy cfg L}

/-- The numbers in use have been given out. -/
def Named (px : Proxy cfg L) : Prop := ∀ b c, px.conns b = some c → b < px.accepted

theorem Named.mem_members (h : px.Named) {b : ℕ} :
    b ∈ px.members ↔ (px.conns b).isSome = true := by
  rw [members, Finset.mem_filter, Finset.mem_range]
  refine ⟨fun hb => hb.2, fun hb => ⟨?_, hb⟩⟩
  obtain ⟨c, hc⟩ := Option.isSome_iff_exists.mp hb
  exact h b c hc

theorem Named.mem_holders (h : px.Named) {b : ℕ} : b ∈ px.holders ↔ px.holds b = true := by
  rw [holders, Finset.mem_filter, Finset.mem_range]
  refine ⟨fun hb => hb.2, fun hb => ⟨?_, hb⟩⟩
  obtain ⟨c, hc, -⟩ := (Option.any_eq_true _ _).mp hb
  exact h b c hc

theorem Named.accepted_notMem (h : px.Named) : px.accepted ∉ px.members := by
  intro hb
  obtain ⟨c, hc⟩ := Option.isSome_iff_exists.mp (h.mem_members.mp hb)
  exact absurd (h _ c hc) (lt_irrefl _)

/-- The connections are numbered, in sessions, and counted. -/
structure Counted (px : Proxy cfg L) : Prop where
  named : px.Named
  rep : ∀ b c, px.conns b = some c → ∃ s, Rep s c
  count : px.connectionCount = px.members.card

theorem counted_start (n : ℕ) : (start cfg L n).Counted := by
  refine ⟨fun b c hc => ?_, fun b c hc => ?_, rfl⟩
  · cases hc
  · cases hc

/-- What an event of `who` does to the loan. -/
structure Lends (px px' : Proxy cfg L) (who : ℕ) (es : List (Lending.Event ℕ)) : Prop where
  run : Lending.Run cfg.maxHybridPool cfg.maxConnection px.lending es px'.lending
  counted : px'.Counted
  accepted_le : px.accepted ≤ px'.accepted
  pooled : ∀ b, pooledBy b who px px' ≤ releasedBy b who px px'
  released : ∀ b, releasedBy b who px px' ≤ es.count (.returned b)
  admitted : ∀ b, es.count (.admitted b)
    ≤ if px.accepted ≤ b ∧ b < px'.accepted then 1 else 0

/-- What a new connection is lent. -/
theorem acceptNew_lending (pool : List (Hist cfg)) (id : ℕ) :
    (Connection.acceptNew L pool id).1.client.requestHistory.isSome = true ∧
      ((∃ k, pool.length = k + 1 ∧ (Connection.acceptNew L pool id).2.length = k) ∨
        (pool.length = 0 ∧ (Connection.acceptNew L pool id).2.length = 0)) := by
  cases pool with
  | nil => exact ⟨rfl, .inr ⟨rfl, rfl⟩⟩
  | cons h pool => exact ⟨rfl, .inl ⟨pool.length, rfl, rfl⟩⟩

/-- Connections that have not changed are lent what they were. -/
theorem Named.lending_congr (h : px.Named) (h' : px'.Named)
    (hpool : px'.pool.length = px.pool.length)
    (hmember : ∀ b, (px'.conns b).isSome = (px.conns b).isSome)
    (hheld : ∀ b, px'.holds b = px.holds b) : px'.lending = px.lending := by
  have hmembers : px'.members = px.members := by
    ext b
    rw [h'.mem_members, h.mem_members, hmember]
  have hholders : px'.holders = px.holders := by
    ext b
    rw [h'.mem_holders, h.mem_holders, hheld]
  rw [lending, lending, hpool, hmembers, hholders]

/-- A socket that is turned away. -/
theorem Counted.refuse (h : px.Counted) (g : Scratch cfg.sockIoBufSize) :
    px.Lends { px with globalBuffer := g, accepted := px.accepted + 1 } px.accepted [] := by
  have hnamed : Named { px with globalBuffer := g, accepted := px.accepted + 1 } :=
    fun b c hc => Nat.lt_succ_of_lt (h.named b c hc)
  have hsame := h.named.lending_congr hnamed rfl (fun _ => rfl) fun _ => rfl
  refine ⟨?_, ⟨hnamed, h.rep, ?_⟩, Nat.le_succ _, fun b => ?_, fun b => ?_, fun b => by simp⟩
  · rw [hsame]
    exact .start
  · have hmembers := congrArg Lending.State.clients hsame
    exact h.count.trans (congrArg Finset.card hmembers.symm)
  · simp [pooledBy]
  · simp [releasedBy, holds]

/-- A client that is admitted. -/
theorem Counted.accept (h : px.Counted) (hroom : px.connectionCount < cfg.maxConnection) (io : Io) :
    px.Lends (px.acceptNew io).2 px.accepted [.admitted px.accepted] := by
  have hnew : (px.acceptNew io).2 = { px with
      pool := (Connection.acceptNew L px.pool px.nextId).2
      nextId := px.nextId + 1
      connectionCount := px.connectionCount + 1
      accepted := px.accepted + 1
      conns := Function.update px.conns px.accepted
        (some (Connection.acceptNew L px.pool px.nextId).1) } := by
    rw [Proxy.acceptNew, if_neg (Nat.not_le_of_lt hroom)]
  obtain ⟨hholds, hpool⟩ := acceptNew_lending (L := L) px.pool px.nextId
  have hself : (px.acceptNew io).2.conns px.accepted
      = some (Connection.acceptNew L px.pool px.nextId).1 := by
    rw [hnew]
    exact Function.update_self ..
  have hother : ∀ b, b ≠ px.accepted → (px.acceptNew io).2.conns b = px.conns b := by
    intro b hne
    rw [hnew]
    exact Function.update_of_ne hne _ _
  have hnamed : (px.acceptNew io).2.Named := by
    intro b c hc
    have hacc : (px.acceptNew io).2.accepted = px.accepted + 1 := by rw [hnew]
    rw [hacc]
    by_cases hb : b = px.accepted
    · rw [hb]
      exact Nat.lt_succ_self _
    · rw [hother b hb] at hc
      exact Nat.lt_succ_of_lt (h.named b c hc)
  have hmembers : (px.acceptNew io).2.members = insert px.accepted px.members := by
    ext b
    rw [hnamed.mem_members, Finset.mem_insert, h.named.mem_members]
    by_cases hb : b = px.accepted
    · simp [hb, hself]
    · simp [hb, hother b hb]
  have hholders : (px.acceptNew io).2.holders = insert px.accepted px.holders := by
    ext b
    rw [hnamed.mem_holders, Finset.mem_insert, h.named.mem_holders]
    by_cases hb : b = px.accepted
    · simp [hb, holds, hself, hholds]
    · simp [hb, holds, hother b hb]
  have hlimit : px.members.card < cfg.maxConnection := h.count ▸ hroom
  have hfree := h.named.accepted_notMem
  refine ⟨.step .start ?_, ⟨hnamed, fun b c hc => ?_, ?_⟩, ?_, fun b => ?_, fun b => ?_,
    fun b => ?_⟩
  · rw [lending, lending, hmembers, hholders, hnew]
    -- `create_history` takes a buffer from the pool, or allocates one if there is none
    rcases hpool with ⟨k, hk, hk'⟩ | ⟨hk, hk'⟩
    · rw [hk, hk']
      exact .reuse hfree hlimit
    · rw [hk, hk']
      exact .fresh hfree hlimit
  · by_cases hb : b = px.accepted
    · rw [hb, hself] at hc
      obtain rfl := Option.some.inj hc
      exact ⟨_, represents_acceptNew px.pool px.nextId⟩
    · rw [hother b hb] at hc
      exact h.rep b c hc
  · rw [hmembers, Finset.card_insert_of_notMem hfree, ← h.count, hnew]
  · rw [hnew]
    exact Nat.le_succ _
  · have hle : (px.acceptNew io).2.pool.length ≤ px.pool.length := by
      rw [hnew]
      show (Connection.acceptNew L px.pool px.nextId).2.length ≤ _
      omega
    simp [pooledBy, Nat.sub_eq_zero_of_le hle]
  -- nobody parts with a buffer when a client is admitted
  · have hkept : px.holds b = true → (px.acceptNew io).2.holds b = true := by
      intro hb
      have hmem := h.named.mem_holders.mpr hb
      rw [← hnamed.mem_holders, hholders]
      exact Finset.mem_insert_of_mem hmem
    cases hb : px.holds b with
    | false => simp [releasedBy, hb]
    | true => simp [releasedBy, hkept hb]
  · rw [hnew]
    show _ ≤ if px.accepted ≤ b ∧ b < px.accepted + 1 then 1 else 0
    by_cases hb : b = px.accepted
    · simp [hb]
    · simp [Ne.symm hb]

theorem settle_count {b : ℕ} {e : Effect cfg L} (h : px.settle b e = .ok px') :
    px'.connectionCount = match e.status with
      | .deleted => px.connectionCount - 1
      | _ => px.connectionCount := by
  unfold settle at h
  split at h <;> (rename_i hst; rw [hst])
  · rw [← Except.ok.inj h]
  · rw [← Except.ok.inj h]
  · cases h

/-- A client has at most one buffer. -/
theorem length_histIds (c : Connection cfg L) :
    c.histIds.length = if c.client.requestHistory.isSome then 1 else 0 := by
  unfold Connection.histIds
  cases c.client.requestHistory <;> rfl

/-- What an event of connection `b` adds to the pool, the connection gives back. -/
theorem Counted.pool_le (h : px.Counted) (hpool : px.pool.length ≤ cfg.maxHybridPool) {b : ℕ}
    {c : Connection cfg L} {cb : Callback} {io : Io} (hc : px.conns b = some c)
    (hen : c.enabled cb = true)
    (hr : px.settle b (c.fire cb io px.globalBuffer px.pool) = .ok px') :
    px.pool.length ≤ px'.pool.length ∧ px'.pool.length ≤ cfg.maxHybridPool ∧
      px'.pool.length + (if px'.holds b then 1 else 0)
        ≤ px.pool.length + (if px.holds b then 1 else 0) := by
  obtain ⟨s, hrep⟩ := h.rep b c hc
  obtain ⟨-, -, hpool', hconn, -⟩ := settle_ok hr
  obtain ⟨hlive, hdel⟩ := fire_histIds hrep hen io px.globalBuffer px.pool
  obtain ⟨hkept, hbound⟩ := fire_keeps c cb io px.globalBuffer hpool
  rw [← hpool'] at hlive hdel hkept hbound
  refine ⟨by simpa using hkept.length_le, hbound, ?_⟩
  -- a buffer in the pool or with the client afterwards was in one of the two before
  have hholds : px.holds b = c.client.requestHistory.isSome := by rw [holds, hc]; rfl
  rw [hholds, ← length_histIds]
  cases hst : (c.fire cb io px.globalBuffer px.pool).status with
  | live c' =>
    have hself := (hconn c').mpr hst
    have hholds' : px'.holds b = c'.client.requestHistory.isSome := by rw [holds, hself]; rfl
    rw [hholds', ← length_histIds]
    simpa using (hlive c' hst).length_le
  | deleted =>
    rw [holds, settle_deleted hr hst]
    simpa using (hdel hst).length_le
  | crashed f =>
    rw [settle_error_iff.mpr hst] at hr
    cases hr

/-- The connection gives its buffer back, or keeps what it has. -/
theorem Counted.gives_back (h : px.Counted) (hnamed : px'.Named) {b : ℕ}
    (hge : px.pool.length ≤ px'.pool.length) (hbound : px'.pool.length ≤ cfg.maxHybridPool)
    (htotal : px'.pool.length + (if px'.holds b then 1 else 0)
      ≤ px.pool.length + (if px.holds b then 1 else 0))
    (hother : ∀ b', b' ≠ b → px'.holds b' = px.holds b') :
    ∃ es : List (Lending.Event ℕ),
      Lending.Run cfg.maxHybridPool cfg.maxConnection px.lending es
        ⟨px'.pool.length, px.members, px'.holders⟩ ∧
      px'.pool.length - px.pool.length ≤ releasedBy b b px px' ∧
      releasedBy b b px px' ≤ es.count (.returned b) ∧ ∀ b', es.count (.admitted b') = 0 := by
  by_cases hsame : px'.holds b = px.holds b
  -- it keeps what it has, so the pool has got nothing
  · have hpool : px'.pool.length = px.pool.length := by
      rw [hsame] at htotal
      omega
    have hholders : px'.holders = px.holders := by
      ext b'
      rw [hnamed.mem_holders, h.named.mem_holders]
      by_cases hb : b' = b
      · rw [hb, hsame]
      · rw [hother b' hb]
    refine ⟨[], ?_, ?_, ?_, fun _ => rfl⟩
    · rw [hpool, hholders]
      exact .start
    · rw [hpool, Nat.sub_self]
      exact Nat.zero_le _
    · rw [releasedBy, hsame, Bool.and_not_self]
      exact le_rfl
  · -- it cannot get one
    obtain ⟨hheld, hgiven⟩ : px.holds b = true ∧ px'.holds b = false := by
      cases hb : px.holds b with
      | true => exact ⟨rfl, Bool.eq_false_iff.mpr fun h => hsame (h.trans hb.symm)⟩
      | false =>
        have hb' : px'.holds b = true := by
          rw [← Bool.not_eq_false]
          exact fun h => hsame (h.trans hb.symm)
        rw [hb, hb', if_pos rfl] at htotal
        exact absurd (htotal.trans hge) (by simp)
    have hholders : px'.holders = px.holders.erase b := by
      ext b'
      rw [hnamed.mem_holders, Finset.mem_erase, h.named.mem_holders]
      by_cases hb : b' = b
      · simp [hb, hgiven]
      · simp [hb, hother b' hb]
    have hmem : b ∈ px.holders := h.named.mem_holders.mpr hheld
    rw [hheld, hgiven, if_pos rfl] at htotal
    have hreleased : releasedBy b b px px' = 1 := by rw [releasedBy, hheld, hgiven]; rfl
    refine ⟨[.returned b], .step .start ?_, ?_, ?_, fun b' => by simp⟩
    · rw [hholders]
      rcases Nat.lt_or_ge px.pool.length px'.pool.length with hlt | hle
      -- there was room in the pool, or the buffer is freed
      · obtain hpool : px'.pool.length = px.pool.length + 1 := le_antisymm htotal hlt
        rw [hpool] at hbound ⊢
        exact .pooled hmem hbound
      · rw [le_antisymm hle hge]
        exact .discarded hmem
    · rw [hreleased]
      exact Nat.sub_le_of_le_add (by simpa [Nat.add_comm] using htotal)
    · rw [hreleased, List.count_singleton_self]

/-- One event of a connection: it may give its buffer back, and it may leave. -/
theorem Counted.fire (h : px.Counted) (hpool : px.pool.length ≤ cfg.maxHybridPool) {b : ℕ}
    {c : Connection cfg L} {cb : Callback} {io : Io} (hc : px.conns b = some c)
    (hen : c.enabled cb = true)
    (hr : px.settle b (c.fire cb io px.globalBuffer px.pool) = .ok px') :
    ∃ es, px.Lends px' b es := by
  obtain ⟨hge, hbound, htotal⟩ := h.pool_le hpool hc hen hr
  obtain ⟨s, hrep⟩ := h.rep b c hc
  obtain ⟨haccepted, -, -, hconn, hother⟩ := settle_ok hr
  have hcount := settle_count hr
  obtain ⟨out, -, hout⟩ := fire_step hrep hen io px.globalBuffer px.pool
  have hnamed : px'.Named := by
    intro b' c' hc'
    rw [haccepted]
    by_cases hb : b' = b
    · exact hb ▸ h.named b c hc
    · rw [hother b' hb] at hc'
      exact h.named b' c' hc'
  have hrep' : ∀ b' c', px'.conns b' = some c' → ∃ s, Rep s c' := by
    intro b' c' hc'
    by_cases hb : b' = b
    · subst hb
      rw [(hconn c').mp hc'] at hout
      obtain ⟨s', -, hrep'⟩ := hout.live
      exact ⟨s', hrep'⟩
    · rw [hother b' hb] at hc'
      exact h.rep b' c' hc'
  have hmem : b ∈ px.members := h.named.mem_members.mpr (by rw [hc]; rfl)
  have hholds : ∀ b', b' ≠ b → px'.holds b' = px.holds b' := fun b' hb => by
    rw [holds, holds, hother b' hb]
  obtain ⟨r, hrun, hadded, hreturned, hadmitted⟩ := h.gives_back hnamed hge hbound htotal hholds
  have hpooled : ∀ b', pooledBy b' b px px' ≤ releasedBy b' b px px' := by
    intro b'
    unfold pooledBy
    split_ifs with hb
    · exact hb ▸ hadded
    · exact Nat.zero_le _
  have hreleased : ∀ b', releasedBy b' b px px' ≤ r.count (.returned b') := by
    intro b'
    by_cases hb : b' = b
    · exact hb ▸ hreturned
    · rw [releasedBy, hholds b' hb, Bool.and_not_self]
      exact Nat.zero_le _
  cases hst : (c.fire cb io px.globalBuffer px.pool).status with
  | live c' =>
    have hself := (hconn c').mpr hst
    have hmembers : px'.members = px.members := by
      ext b'
      rw [hnamed.mem_members, h.named.mem_members]
      by_cases hb : b' = b
      · simp [hb, hself, hc]
      · rw [hother b' hb]
    rw [hst] at hcount
    refine ⟨r, ?_, ⟨hnamed, hrep', ?_⟩, haccepted.ge, hpooled, hreleased, fun b' => ?_⟩
    · rw [← hmembers] at hrun
      exact hrun
    · rw [hcount, hmembers]
      exact h.count
    · rw [hadmitted]
      exact Nat.zero_le _
  | deleted =>
    have hself := settle_deleted hr hst
    have hmembers : px'.members = px.members.erase b := by
      ext b'
      rw [hnamed.mem_members, Finset.mem_erase, h.named.mem_members]
      by_cases hb : b' = b
      · simp [hb, hself]
      · simp [hb, hother b' hb]
    have hfree : b ∉ px'.holders := by
      rw [hnamed.mem_holders, holds, hself]
      exact Bool.false_ne_true
    rw [hst] at hcount
    -- a connection leaves when its buffer has been given back
    have hleft : Lending.Step cfg.maxHybridPool cfg.maxConnection
        ⟨px'.pool.length, px.members, px'.holders⟩ (.left b) px'.lending := by
      rw [lending, hmembers]
      exact .left hmem hfree
    refine ⟨r ++ [.left b], .step hrun hleft, ⟨hnamed, hrep', ?_⟩, haccepted.ge, hpooled,
      fun b' => ?_, fun b' => ?_⟩
    · rw [hcount, hmembers, Finset.card_erase_of_mem hmem, h.count]
    · rw [List.count_append]
      exact (hreleased b').trans (Nat.le_add_right _ _)
    · rw [List.count_append, hadmitted]
      simp
  | crashed f =>
    rw [settle_error_iff.mpr hst] at hr
    cases hr

/-- **An event of the process is a few events of the loan.** -/
theorem step_lends (h : px.Counted)
    (hsound : Lending.Sound cfg.maxHybridPool cfg.maxConnection px.lending) {ev : Event} {who : ℕ}
    {calls : List Call} (hstep : px.step ev = some (who, calls, .ok px')) :
    ∃ es, px.Lends px' who es := by
  rcases step_cases hstep with ⟨io, rfl, rfl, -, hr⟩ | ⟨b, c, cb, io, rfl, hc, hen, rfl, -, hr⟩
  · obtain rfl := Except.ok.inj hr
    rcases Nat.lt_or_ge px.connectionCount cfg.maxConnection with hroom | hmax
    · exact ⟨_, h.accept hroom io⟩
    · rw [Proxy.acceptNew, if_pos hmax]
      exact ⟨_, h.refuse _⟩
  · exact h.fire hsound.pooled_le hc hen hr.symm

end Counted

/-- What is added up of a run is added up of its parts. -/
theorem RunFrom.tally_append {px₀ : Proxy cfg L} {log : List LogEntry}
    {r : Except Fault (Proxy cfg L)} (h : RunFrom px₀ log r)
    (f : ℕ → Proxy cfg L → Proxy cfg L → ℕ) (evs : List Event) :
    ∀ px, r = .ok px →
      px₀.tally f (log.map (·.ev) ++ evs) = px₀.tally f (log.map (·.ev)) + px.tally f evs := by
  induction h generalizing evs with
  | start =>
    rintro px hr
    obtain rfl := Except.ok.inj hr
    exact (Nat.zero_add _).symm
  | @step log px ev who calls r _ hstep ih =>
    rintro px' rfl
    have hcons : ∀ rest, px.tally f (ev :: rest) = f who px px' + px'.tally f rest := by
      intro rest
      rw [tally, hstep]
    rw [List.map_append, List.append_assoc]
    show px₀.tally f (log.map (·.ev) ++ (ev :: evs))
      = px₀.tally f (log.map (·.ev) ++ [ev]) + px'.tally f evs
    rw [ih _ px rfl, ih _ px rfl, hcons, hcons, Nat.add_assoc]
    rfl

/-- One more event. -/
theorem RunFrom.tally_concat {px₀ px px' : Proxy cfg L} {log : List LogEntry} {e : LogEntry}
    (h : RunFrom px₀ log (.ok px)) (f : ℕ → Proxy cfg L → Proxy cfg L → ℕ)
    (hstep : px.step e.ev = some (e.who, e.calls, .ok px')) :
    px₀.tally f ((log ++ [e]).map (·.ev)) = px₀.tally f (log.map (·.ev)) + f e.who px px' := by
  rw [List.map_append, h.tally_append f _ px rfl]
  congr 1
  show px.tally f [e.ev] = _
  rw [tally, hstep]
  rfl

theorem lending_start (n : ℕ) : (Proxy.start cfg L n).lending = ⟨n, ∅, ∅⟩ := by
  have hpool : (Proxy.start cfg L n).pool.length = n := by simp [Proxy.start]
  rw [lending, hpool]
  rfl

/-- `main` allocates no more buffers than the pool may take, and no more than connections may
exist. -/
theorem sound_start : Lending.Sound cfg.maxHybridPool cfg.maxConnection
    (Proxy.start cfg L cfg.maxHybridPool).lending := by
  rw [lending_start]
  exact .initial le_rfl (Nat.div_le_self _ _)

/-- **An execution is a run of the loan.** -/
theorem RunFrom.lends {log : List LogEntry} {r : Except Fault (Proxy cfg L)}
    (h : RunFrom (Proxy.start cfg L cfg.maxHybridPool) log r) :
    ∀ px, r = .ok px → px.Counted ∧ ∃ es,
      Lending.Run cfg.maxHybridPool cfg.maxConnection
        (Proxy.start cfg L cfg.maxHybridPool).lending es px.lending ∧
      (∀ b, (Proxy.start cfg L cfg.maxHybridPool).tally (pooledBy b) (log.map (·.ev))
        ≤ (Proxy.start cfg L cfg.maxHybridPool).tally (releasedBy b) (log.map (·.ev))) ∧
      (∀ b, (Proxy.start cfg L cfg.maxHybridPool).tally (releasedBy b) (log.map (·.ev))
        ≤ es.count (.returned b)) ∧
      ∀ b, es.count (.admitted b) ≤ if b < px.accepted then 1 else 0 := by
  induction h with
  | start =>
    rintro px hr
    obtain rfl := Except.ok.inj hr
    exact ⟨counted_start _, [], .start, fun _ => le_rfl, fun _ => le_rfl, fun _ => Nat.zero_le _⟩
  | @step log px ev who calls r hrun hstep ih =>
    rintro px' rfl
    obtain ⟨hcounted, es, hlends, hpooled, hreleased, hadmitted⟩ := ih px rfl
    obtain ⟨es', h'⟩ := step_lends hcounted (hlends.sound sound_start) hstep
    refine ⟨h'.counted, es ++ es', hlends.append h'.run, fun b => ?_, fun b => ?_, fun b => ?_⟩
    · rw [hrun.tally_concat _ hstep, hrun.tally_concat _ hstep]
      exact Nat.add_le_add (hpooled b) (h'.pooled b)
    · rw [hrun.tally_concat _ hstep, List.count_append]
      exact Nat.add_le_add (hreleased b) (h'.released b)
    · -- a name is given once, and in order
      have hold := hadmitted b
      have hnew := h'.admitted b
      have hle := h'.accepted_le
      rw [List.count_append]
      split_ifs at hold hnew ⊢ <;> omega

end Proxy

/-- **Admission and history buffers are accounted for.** In every state the process reaches,
`connection_count` is the number of live connections and does not exceed `MAX_CONNECTION`; the pool
does not exceed `MAX_HYBRID_POOL`; each connection has parted with its history buffer at most once,
and has added at most that one to the pool; and the history buffers, in the pool and with clients,
do not outnumber the connections that may exist. -/
theorem admission {log : List Proxy.LogEntry} {px : Proxy cfg L}
    (h : Proxy.RunFrom (Proxy.start cfg L cfg.maxHybridPool) log (.ok px)) :
    (px.connectionCount = px.members.card ∧ ∀ b, b ∈ px.members ↔ (px.conns b).isSome = true) ∧
      px.connectionCount ≤ cfg.maxConnection ∧
      px.pool.length ≤ cfg.maxHybridPool ∧
      (∀ b, (Proxy.start cfg L cfg.maxHybridPool).tally (Proxy.pooledBy b) (log.map (·.ev))
          ≤ (Proxy.start cfg L cfg.maxHybridPool).tally (Proxy.releasedBy b) (log.map (·.ev)) ∧
        (Proxy.start cfg L cfg.maxHybridPool).tally (Proxy.releasedBy b) (log.map (·.ev)) ≤ 1) ∧
      (∀ b, b ∈ px.holders ↔ px.holds b = true) ∧
      px.pool.length + px.holders.card ≤ cfg.maxConnection := by
  obtain ⟨hcounted, es, hlends, hpooled, hreleased, hadmitted⟩ := h.lends px rfl
  have hsound := hlends.sound Proxy.sound_start
  refine ⟨⟨hcounted.count, fun b => hcounted.named.mem_members⟩, ?_, hsound.pooled_le,
    fun b => ⟨hpooled b, ?_⟩, fun b => hcounted.named.mem_holders, hsound.total_le⟩
  · rw [hcounted.count]
    exact hsound.clients_le
  · -- it was lent one buffer, when it was admitted
    have hcount := hlends.count Proxy.sound_start b
    have hfree : b ∉ (Proxy.start cfg L cfg.maxHybridPool).lending.holders := by
      rw [Proxy.lending_start]
      exact Finset.notMem_empty b
    have honce : es.count (.admitted b) ≤ 1 := by
      refine (hadmitted b).trans ?_
      split_ifs
      · exact le_rfl
      · exact Nat.zero_le _
    rw [if_neg hfree, Nat.add_zero] at hcount
    calc
      _ ≤ es.count (.returned b) := hreleased b
      _ ≤ es.count (.admitted b) := hcount ▸ Nat.le_add_right _ _
      _ ≤ 1 := honce

/-- The constants of the tests: six connections, one buffer in the pool. -/
def Config.tested : Config := { Config.shipped with maxConnection := 6 }

/-- Of three clients one finds a buffer in the pool, two have new ones allocated; when all have
gone one buffer is in the pool. -/
theorem admission_tested :
    ∃ (log : List Proxy.LogEntry) (px : Proxy .tested .bodiless),
      Proxy.RunFrom (Proxy.start .tested .bodiless Config.tested.maxHybridPool) log (.ok px) ∧
        px.accepted = 3 ∧ px.connectionCount = 0 ∧ px.pool.length = 1 ∧
        px.pool.length + px.holders.card ≤ 6 := by
  obtain ⟨log, r, hrun, hr⟩ := Proxy.exists_run (L := .bodiless) Config.tested.maxHybridPool
    [.acceptNew {}, .acceptNew {}, .fire 0 .slowSwitch {}, .acceptNew {},
      .fire 1 .clientReadable { connectOk := false },
      .fire 2 .clientReadable { connectOk := false },
      .fire 0 .clientReadable { clientReads := [.data []] }]
    (fun _ (r : Except Fault (Proxy .tested _)) => match r with
      | .ok px => px.accepted == 3 && px.connectionCount == 0 && px.pool.length == 1
      | .error _ => false)
    (by decide +kernel)
  cases r with
  | error f => cases hr
  | ok px =>
    simp only [Bool.and_eq_true, beq_iff_eq] at hr
    obtain ⟨-, -, -, -, -, htotal⟩ := admission hrun
    exact ⟨log, px, hrun, hr.1.1, hr.1.2, hr.2, htotal⟩

end LSProxy
