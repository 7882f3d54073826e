import LSProxy.Lib.Sweep
import LSProxy.Model.Sweeps
import LSProxy.Safety.DeferredSwitch
import LSProxy.Safety.Defense

/-!
# The loops over all connections

`get_all_connections` finds the connections by their registered events. That is all of them, and a
loop over the set deletes or switches each where the others are not touched, so it never comes to a
connection that it has deleted, whatever the order of the set.

* `Process.Sound.mem_getAllConnections` — `get_all_connections` finds just the live connections;
* `Connection.TooSlow` — which connections a tick can fail with;
* `Process.Does.local` — visits that do what a step of the session does are local;
* `tick_all` — one tick of `monitor_data_rates`, for all connections at once;
* `tick_order` — the order of the set does not matter;
* `cleared_up` — what `main` leaves when the event loop has been broken.
-/

namespace LSProxy

open Session Sweep Ownership

variable {cfg : Config} {L : Llhttp}

/-- A tick puts the connection into slow mode, and a server is there to wait for: the connection is
in fast mode, has moved enough not to be dropped, and less than the data transfer rate asks for. -/
structure Connection.TooSlow (c : Connection cfg L) : Prop where
  fastMode : c.fastMode = true
  server : c.server.isSome = true
  kept : ¬ (c.client.writeCount < cfg.minDown ∧ c.client.readCount < cfg.minDown)
  slow : c.client.readCount + c.client.writeCount < cfg.minDtr

namespace Process

/-! ### Every connection has an event -/

/-- **All connections are found**, and no other. -/
theorem Sound.mem_getAllConnections {ps : Process cfg L} (hs : ps.Sound) {b : ℕ} :
    b ∈ ps.getAllConnections ↔ (ps.proxy.conns b).isSome = true := by
  unfold getAllConnections
  simp only [Finset.mem_biUnion, Option.mem_toFinset, Option.mem_def]
  constructor
  · rintro ⟨evt, hreg, hconn⟩
    exact hs.associatedConn_live (Finset.mem_filter.mp hreg).1 hconn
  · intro hlive
    obtain ⟨c, hc⟩ := Option.isSome_iff_exists.mp hlive
    obtain ⟨s, hrep⟩ := hs.owned.rep b c hc
    suffices hevt : ∃ evt : EventId, ps.Alive evt ∧ ps.pending evt = true ∧
        evt.associatedConn = some b by
      obtain ⟨evt, halive, hpending, hconn⟩ := hevt
      exact ⟨evt, Finset.mem_filter.mpr ⟨(hs.mem_events_iff evt).mpr halive, hpending⟩, hconn⟩
    have hevent := hrep.hasEvent
    unfold Connection.hasEvent at hevent
    rcases Bool.or_eq_true_iff.mp hevent with hclient | hserver
    · rcases Bool.or_eq_true_iff.mp hclient with hread | hwrite
      · exact ⟨.clientRead b, hlive, by rw [pending, hc, Option.any_some, hread], rfl⟩
      · exact ⟨.clientWrite b, hlive, by rw [pending, hc, Option.any_some, hwrite], rfl⟩
    -- an event of the server, which has a number
    · have hnum := hs.fits.server b
      obtain ⟨srv, hsrv, hpend⟩ := (Option.any_eq_true _ _).mp hserver
      rw [hc, Option.any_some, hsrv] at hnum
      obtain ⟨n, hn⟩ := Option.isSome_iff_exists.mp hnum
      rcases Bool.or_eq_true_iff.mp hpend with hread | hwrite
      · exact ⟨.serverRead b n, hn, by simp [pending, hn, hc, hsrv, hread], rfl⟩
      · exact ⟨.serverWrite b n, hn, by simp [pending, hn, hc, hsrv, hwrite], rfl⟩

/-! ### Visits -/

/-- What has become of connection `b`, if it has ever been there. -/
def status (ps : Process cfg L) (b : ℕ) : Status cfg L := (ps.proxy.conns b).elim .deleted .live

/-- What `run` does to a connection is what `S` says of its session, and is done in order. -/
structure Does
    (run : Connection cfg L → Io → Scratch cfg.sockIoBufSize → List (Hist cfg) → Effect cfg L)
    (S : Session cfg L → Io → List Call → Outcome cfg L → Prop) : Prop where
  step : ∀ {s c}, Rep s c → ∀ io g pool,
    ∃ out, S s io (run c io g pool).calls out ∧ out.Represents (run c io g pool).status
  orderly : ∀ {s c}, Rep s c → ∀ io g pool, (run c io g pool).Orderly pool c
  unique : ∀ {s io calls calls' out out'}, S s io calls out → S s io calls' out' → out = out'

/-- `S` lets a session crash on the visit of connection `b`. -/
def VisitFails (S : Session cfg L → Io → List Call → Outcome cfg L → Prop) (ios : ℕ → Io) (b : ℕ)
    (st : Status cfg L) : Prop :=
  ∀ s, (Outcome.live s).Represents st → ∃ calls f, S s (ios b) calls (.crashed f)

/-- The visit of connection `b` leaves what `S` says. -/
def VisitDone (S : Session cfg L → Io → List Call → Outcome cfg L → Prop) (ios : ℕ → Io) (b : ℕ)
    (st st' : Status cfg L) : Prop :=
  (∃ s, (Outcome.live s).Represents st) ∧ ∀ s, (Outcome.live s).Represents st →
    ∃ calls out, S s (ios b) calls out ∧ out.Represents st'

section Visit

variable
  {run : Connection cfg L → Io → Scratch cfg.sockIoBufSize → List (Hist cfg) → Effect cfg L}
  {S : Session cfg L → Io → List Call → Outcome cfg L → Prop} {ios : ℕ → Io}
  {ps ps' : Process cfg L} {b : ℕ} {c : Connection cfg L}

theorem status_live (hc : ps.proxy.conns b = some c) : ps.status b = .live c := by
  rw [status, hc]
  rfl

/-- What has become of a connection that something was done to. -/
theorem settle_status {px' : Proxy cfg L} {t : Table} {e : Effect cfg L}
    (h : ps.proxy.settle b e = .ok px') : (⟨px', t⟩ : Process cfg L).status b = e.status := by
  obtain ⟨-, -, -, hconn, -⟩ := Proxy.settle_ok h
  cases hst : e.status with
  | live c => exact status_live ((hconn c).mpr hst)
  | deleted =>
    rw [status, Proxy.settle_deleted h hst]
    rfl
  | crashed f => cases h.symm.trans (Proxy.settle_error_iff.mpr hst)

/-- A visit keeps the process in order. -/
theorem Does.sound (h : Does run S) (hs : ps.Sound) (hvisit : visit run ios ps b = .ok ps') :
    ps'.Sound := by
  obtain ⟨c, px', hc, hsettle, rfl⟩ := visit_ok hvisit
  obtain ⟨s, hrep⟩ := hs.owned.rep b c hc
  exact (hs.settle hc (h.orderly hrep _ _ _) hsettle).1

/-- A visit fails just if the session crashes, or there is none. -/
theorem Does.fails_iff (h : Does run S) (hs : ps.Sound) :
    (∃ f, visit run ios ps b = .error f) ↔ VisitFails S ios b (ps.status b) := by
  constructor
  · rintro ⟨f, hvisit⟩ s hrep
    rcases visit_error hvisit with ⟨hnone, -⟩ | ⟨c, f', hc, hsettle, -⟩
    · rw [status, hnone] at hrep
      exact hrep.elim
    · rw [status_live hc] at hrep
      obtain ⟨out, hstep, hout⟩ :=
        h.step (c := c) hrep (ios b) ps.proxy.globalBuffer ps.proxy.pool
      rw [Proxy.settle_error_iff.mp hsettle] at hout
      cases out with
      | crashed f => exact ⟨_, f, hstep⟩
      | live s => exact hout.elim
      | deleted => exact hout.elim
  · intro hfails
    cases hvisit : visit run ios ps b with
    | error f => exact ⟨f, rfl⟩
    | ok ps' =>
      -- the session that crashes is the one of the connection
      obtain ⟨c, px', hc, hsettle, rfl⟩ := visit_ok hvisit
      obtain ⟨s, hrep⟩ := hs.owned.rep b c hc
      obtain ⟨calls, f, hcrash⟩ := hfails s (by rw [status_live hc]; exact hrep)
      obtain ⟨out, hstep, hout⟩ := h.step hrep (ios b) ps.proxy.globalBuffer ps.proxy.pool
      obtain rfl := h.unique hstep hcrash
      cases hst : (run c (ios b) ps.proxy.globalBuffer ps.proxy.pool).status with
      | crashed f' => cases hsettle.symm.trans (Proxy.settle_error_iff.mpr hst)
      | live c' =>
        rw [hst] at hout
        exact hout.elim
      | deleted =>
        rw [hst] at hout
        exact hout.elim

/-- **Visits are local.** -/
theorem Does.local (h : Does run S) (ios : ℕ → Io) :
    Local Sound status (VisitFails S ios) (VisitDone S ios) (visit run ios) where
  fails_iff hs := h.fails_iff hs
  keeps hs hvisit := h.sound hs hvisit
  done := by
    intro ps ps' b hs hvisit
    obtain ⟨c, px', hc, hsettle, rfl⟩ := visit_ok hvisit
    rw [status_live hc, settle_status hsettle]
    refine ⟨hs.owned.rep b c hc, fun s hrep => ?_⟩
    obtain ⟨out, hstep, hout⟩ :=
      h.step (c := c) hrep (ios b) ps.proxy.globalBuffer ps.proxy.pool
    exact ⟨_, out, hstep, hout⟩
  frame := by
    intro ps ps' b b' hs hvisit hb
    obtain ⟨c, px', hc, hsettle, rfl⟩ := visit_ok hvisit
    obtain ⟨-, -, -, -, hothers⟩ := Proxy.settle_ok hsettle
    rw [status, status, hothers b' hb]

end Visit

/-- A tick can visit every connection. -/
theorem enabled_monitor {s : Session cfg L} {c : Connection cfg L} (hrep : Rep s c) :
    c.enabled .monitor = true := hrep.hasEvent

/-- `monitor_data_rates` does what its step says. -/
theorem does_monitor : Does (fun (conn : Connection cfg L) io => conn.fire .monitor io)
    fun s io => Step s .monitor io where
  step hrep io g pool := fire_step hrep (enabled_monitor hrep) io g pool
  orderly hrep io g pool := fire_orderly hrep (enabled_monitor hrep) io g pool
  unique h h' := (h.unique h').2

/-- `delete conn` deletes the connection. -/
theorem does_deletion : Does (fun (conn : Connection cfg L) io => conn.deletion io)
    fun s _ calls out =>
      calls = (if s.phase.hasServer then [.closeServer] else []) ++ [.closeClient] ∧
        out = .deleted := by
  have hdel : ∀ {s : Session cfg L} {c : Connection cfg L}, Rep s c → ∀ io g pool,
      (c.deletion io g pool).status = .deleted ∧
      (c.deletion io g pool).calls =
        (if s.phase.hasServer then [.closeServer] else []) ++ [.closeClient] ∧
      ((c.deletion io g pool).pool.map (·.id)).Sublist (pool.map (·.id) ++ c.histIds) := by
    intro s c hrep io g pool
    have ha : Agrees ⟨g, pool, c, []⟩ ((Connection.delete io).run ⟨g, pool, c, []⟩)
        ((if c.server.isSome then [.closeServer] else []) ++ [.closeClient]) .deleted :=
      agrees_delete io rfl (.refl _)
    unfold Connection.deletion
    rw [← hrep.hasServer]
    unfold Agrees at ha
    split at ha
    · next hout => cases hout
    · next hrun _ =>
      rw [hrun]
      exact ⟨rfl, ha.1, (List.sublist_append_left _ _).trans ha.2⟩
    · next hout => cases hout
    · exact ha.elim
  refine ⟨fun hrep io g pool => ?_, fun {s _} hrep io g pool => ?_,
    fun h h' => h.2.trans h'.2.symm⟩
  · obtain ⟨hst, hcalls, -⟩ := hdel hrep io g pool
    rw [hst]
    exact ⟨.deleted, ⟨hcalls, rfl⟩, trivial⟩
  · obtain ⟨hst, hcalls, hids⟩ := hdel hrep io g pool
    refine ⟨?_, fun left hleft => ?_, ?_, ?_, fun _ => hids⟩
    · rw [hst]
      exact fun c' h => nomatch h
    · rw [hst] at hleft
      rw [hcalls, hrep.hasServer, ← Option.some.inj hleft]
      cases s.phase.hasServer with
      | false => exact .closeClient
      | true => exact .closeServer .closeClient
    · rw [hst]
      exact fun c' h => nomatch h
    · rw [hst]
      exact fun c' h => nomatch h

/-! ### A tick -/

section Tick

variable {ps₀ ps ps' : Process cfg L} {ios : ℕ → Io} {conns conns' : List ℕ}

/-- A tick is a run of visits, one after the other. -/
theorem monitorDataRates_runs {log : List (LogEntry cfg L)} (hrun : RunFrom ps₀ log (.ok ps))
    (hs : ps.Sound) (h : ps.monitorDataRates ios conns = .ok ps') :
    ∃ log', RunFrom ps₀ (log ++ log') (.ok ps') ∧
      log'.map (·.ev) = conns.map fun b => .fire b .monitor (ios b) := by
  induction conns generalizing ps log with
  | nil =>
    obtain rfl := Except.ok.inj h
    exact ⟨[], by simpa using hrun, rfl⟩
  | cons b conns ih =>
    obtain ⟨ps₁, hvisit, hrest⟩ := foldlM_cons_ok.mp h
    obtain ⟨c, hc, hcall⟩ := callback_of_visit hvisit
    obtain ⟨s, hrep⟩ := hs.owned.rep b c hc
    have hstep : ps.step (.fire b .monitor (ios b)) = some (.ok ps₁) := by
      unfold step
      simp only [hc, enabled_monitor hrep, hcall]
      simp
    obtain ⟨log', hrun', hev⟩ := ih (hrun.step hstep) (does_monitor.sound hs hvisit) hrest
    exact ⟨⟨ps, .fire b .monitor (ios b)⟩ :: log', by simpa using hrun',
      by rw [List.map_cons, List.map_cons, hev]⟩

/-- A tick fails only with the disk of a connection that it puts into slow mode. -/
theorem monitorDataRates_error {f : Failure} (hs : ps.Sound) (hnodup : conns.Nodup)
    (hlive : ∀ b ∈ conns, (ps.proxy.conns b).isSome = true)
    (h : ps.monitorDataRates ios conns = .error f) :
    (∃ f', f = .fault f') ∧
      ∃ b ∈ conns, ∃ c, ps.proxy.conns b = some c ∧ c.TooSlow ∧ ¬ (ios b).DiskOk := by
  obtain ⟨b, hb, ps₁, hs₁, hview, hfail⟩ := (does_monitor.local ios).foldlM_error hs hnodup h
  obtain ⟨c, hc⟩ := Option.isSome_iff_exists.mp (hlive b hb)
  rw [status_live hc] at hview
  rcases visit_error hfail with ⟨hnone, -⟩ | ⟨c₁, f', hc₁, hsettle, rfl⟩
  · -- nobody has deleted it in the meantime
    rw [status, hnone] at hview
    cases hview
  · -- nor has anybody changed it
    obtain rfl : c₁ = c := Status.live.inj ((status_live hc₁).symm.trans hview)
    obtain ⟨s, hrep⟩ := hs₁.owned.rep b c₁ hc₁
    obtain ⟨out, hstep, hout⟩ :=
      fire_step hrep (enabled_monitor hrep) (ios b) ps₁.proxy.globalBuffer ps₁.proxy.pool
    rw [Proxy.settle_error_iff.mp hsettle] at hout
    generalize (c₁.fire .monitor (ios b) _ _).calls = calls at hstep
    obtain ⟨hread, hwrite⟩ := hrep.counts
    have hfast := hrep.fastMode
    have hserver := hrep.hasServer
    refine ⟨⟨f', rfl⟩, b, hb, c₁, hc, ?_⟩
    cases hstep with
    | monitorFault hkeep hph hslow h =>
      refine ⟨⟨hfast.trans hph, ?_, by rwa [hread, hwrite], by rwa [hread, hwrite]⟩,
        fun hdisk => ?_⟩
      -- only the files that are filled from a history and a queue can fail
      · rw [hserver]
        cases h <;> rfl
      · obtain ⟨ph', hok⟩ := h.succeeds hdisk
        cases hok
    | monitorDrop => exact hout.elim
    | monitorKeep => exact hout.elim
    | monitorSwitch => exact hout.elim

end Tick

end Process

/-- Three clients, visited by a tick. After it the first sends more than twenty bytes, the second
more than ten. -/
def threeConnections : List Process.Event :=
  [.acceptNew {}, .acceptNew {}, .acceptNew {},
    .fire 0 .monitor {}, .fire 1 .monitor {}, .fire 2 .monitor {},
    .fire 0 .clientReadable
      { clientReads := [.data (ascii "GET /?twenty-bytes-ok")], serverWrites := [.wrote 20] },
    .fire 1 .clientReadable
      { clientReads := [.data (ascii "GET /ten-bytes")], serverWrites := [.wrote 13] }]

/-- What a tick leaves of a connection. -/
theorem monitor_leaves {s : Session cfg L} {c : Connection cfg L} {io : Io} {calls : List Call}
    {out : Outcome cfg L} {st : Status cfg L} (hrep : Rep s c)
    (hstep : Step s .monitor io calls out)
    (hout : out.Represents st) :
    (st = .deleted ↔
      c.client.writeCount < cfg.minDown ∧ c.client.readCount < cfg.minDown) ∧
      ∀ c', st = .live c' → c'.client.readCount = 0 ∧ c'.client.writeCount = 0 ∧
        (c'.fastMode = true ↔
          c.fastMode = true ∧ cfg.minDtr ≤ c.client.readCount + c.client.writeCount) := by
  obtain ⟨hread, hwrite⟩ := hrep.counts
  have hfast := hrep.fastMode
  rw [hread, hwrite, hfast]
  cases hstep with
  | monitorDrop hdrop =>
    cases st with
    | deleted => exact ⟨iff_of_true rfl hdrop, fun c' h => nomatch h⟩
    | live c' => exact hout.elim
    | crashed f => exact hout.elim
  | monitorKeep hkeep hslow =>
    cases st with
    | deleted => exact hout.elim
    | crashed f => exact hout.elim
    | live c' =>
      refine ⟨iff_of_false (fun h => nomatch h) hkeep, fun c'' h => ?_⟩
      obtain rfl := Status.live.inj h
      have hrep' : Rep _ c' := hout
      refine ⟨hrep'.counts.1, hrep'.counts.2, ?_⟩
      rw [hrep'.fastMode]
      rw [not_and, not_lt] at hslow
      exact ⟨fun hph => ⟨hph, hslow hph⟩, And.left⟩
  | monitorSwitch hkeep hph hslow h =>
    cases st with
    | deleted => exact hout.elim
    | crashed f => exact hout.elim
    | live c' =>
      refine ⟨iff_of_false (fun h => nomatch h) hkeep, fun c'' h' => ?_⟩
      obtain rfl := Status.live.inj h'
      have hrep' : Rep _ c' := hout
      refine ⟨hrep'.counts.1, hrep'.counts.2, ?_⟩
      rw [hrep'.fastMode, h.switched.2]
      exact iff_of_false Bool.false_ne_true fun h => absurd h.2 (not_le.mpr hslow)
  | monitorFault hkeep =>
    cases st with
    | deleted => exact hout.elim
    | live c' => exact hout.elim
    | crashed f => exact ⟨iff_of_false (fun h => nomatch h) hkeep, fun c' h => nomatch h⟩

/-- **A tick.** From any state the process reaches, and in any order of the set,
`monitor_data_rates` visits every connection once and never one that it has deleted. It comes to its
end unless the disk fails a connection with a server that it puts into slow mode, and does what so
many visits in a row do. Each connection that has moved too little in both directions has gone then;
the counters of the others are zero, and those are in fast mode that were and had the data transfer
rate. -/
theorem tick_all {n : ℕ} {log : List (Process.LogEntry cfg L)} {ps : Process cfg L}
    (h : Process.RunFrom (Process.start cfg L n) log (.ok ps)) {conns : List ℕ}
    (hnodup : conns.Nodup) (hconns : conns.toFinset = ps.getAllConnections) (ios : ℕ → Io) :
    (∀ b, b ∈ conns ↔ (ps.proxy.conns b).isSome = true) ∧
    (∀ f, ps.monitorDataRates ios conns = .error f → (∃ f', f = .fault f') ∧
      ∃ b ∈ conns, ∃ c, ps.proxy.conns b = some c ∧ c.TooSlow ∧ ¬ (ios b).DiskOk) ∧
    ∀ ps', ps.monitorDataRates ios conns = .ok ps' →
      (∃ log', Process.RunFrom (Process.start cfg L n) (log ++ log') (.ok ps') ∧
        log'.map (·.ev) = conns.map fun b => .fire b .monitor (ios b)) ∧
      (∀ b, ps.proxy.conns b = none → ps'.proxy.conns b = none) ∧
      ∀ b c, ps.proxy.conns b = some c →
        (ps'.proxy.conns b = none ↔
          c.client.writeCount < cfg.minDown ∧ c.client.readCount < cfg.minDown) ∧
        ∀ c', ps'.proxy.conns b = some c' → c'.client.readCount = 0 ∧ c'.client.writeCount = 0 ∧
          (c'.fastMode = true ↔
            c.fastMode = true ∧ cfg.minDtr ≤ c.client.readCount + c.client.writeCount) := by
  obtain ⟨hs, -⟩ := h.passes (Process.sound_start n) ps rfl
  have hmem : ∀ b, b ∈ conns ↔ (ps.proxy.conns b).isSome = true := fun b => by
    rw [← List.mem_toFinset, hconns, hs.mem_getAllConnections]
  refine ⟨hmem, fun f hf => Process.monitorDataRates_error hs hnodup (fun b => (hmem b).mp) hf,
    fun ps' hps' => ⟨Process.monitorDataRates_runs h hs hps', ?_⟩⟩
  obtain ⟨hs', hdone, hframe⟩ := (Process.does_monitor.local ios).foldlM_ok hs hnodup hps'
  have hgone : ∀ b, ps'.status b = .deleted ↔ ps'.proxy.conns b = none := fun b => by
    unfold Process.status
    cases ps'.proxy.conns b <;> simp
  refine ⟨fun b hnone => ?_, fun b c hc => ?_⟩
  · rw [← hgone, hframe b fun hb => by simpa [hnone] using (hmem b).mp hb, Process.status, hnone]
    rfl
  · have hb : b ∈ conns := (hmem b).mpr (by rw [hc]; rfl)
    obtain ⟨-, hall⟩ := hdone b hb
    obtain ⟨s, hrep⟩ := hs.owned.rep b c hc
    obtain ⟨calls, out, hstep, hout⟩ := hall s (by rw [Process.status_live hc]; exact hrep)
    obtain ⟨hdel, hlive⟩ := monitor_leaves hrep hstep hout
    exact ⟨(hgone b).symm.trans hdel, fun c' hc' => hlive c' (Process.status_live hc')⟩

/-- The next tick keeps the first in fast mode, puts the second into slow mode and deletes the
third. -/
theorem tick_all_three :
    ∃ (log : List (Process.LogEntry .lenient .bodiless)) (ps ps' : Process .lenient .bodiless),
      Process.RunFrom (Process.start .lenient .bodiless 1) log (.ok ps) ∧
        ps.monitorDataRates (fun _ => {}) [2, 0, 1] = .ok ps' ∧ ps'.proxy.conns 2 = none ∧
        (∀ c, ps'.proxy.conns 1 = some c → c.fastMode = false) ∧
        ∀ c, ps'.proxy.conns 0 = some c → c.fastMode = true := by
  obtain ⟨log, r, hrun, hr⟩ := Process.exists_run (L := .bodiless) 1 threeConnections
    (fun _ (r : Except Process.Failure (Process .lenient _)) => Process.isOkWith r fun ps =>
      decide ([2, 0, 1].toFinset = ps.getAllConnections) &&
        (Process.isOkWith (ps.monitorDataRates (fun _ => {}) [2, 0, 1]) fun _ => true) &&
        (ps.proxy.conns 2).any (fun c => c.client.writeCount < 10 && c.client.readCount < 10) &&
        (ps.proxy.conns 1).any (fun c => c.client.readCount + c.client.writeCount < 20) &&
        (ps.proxy.conns 0).any fun c =>
          c.fastMode && 20 ≤ c.client.readCount + c.client.writeCount)
    (by decide +kernel)
  obtain ⟨ps, rfl, hps⟩ := Process.isOkWith_iff.mp hr
  simp only [Bool.and_eq_true, decide_eq_true_eq] at hps
  obtain ⟨⟨⟨⟨hconns, hok⟩, htwo⟩, hone⟩, hzero⟩ := hps
  obtain ⟨ps', hps', -⟩ := Process.isOkWith_iff.mp hok
  obtain ⟨c₂, hc₂, hlow⟩ := (Option.any_eq_true _ _).mp htwo
  obtain ⟨c₁, hc₁, hslow⟩ := (Option.any_eq_true _ _).mp hone
  obtain ⟨c₀, hc₀, hfast⟩ := (Option.any_eq_true _ _).mp hzero
  simp only [Bool.and_eq_true, decide_eq_true_eq] at hlow hslow hfast
  obtain ⟨-, hall⟩ := ((tick_all hrun (by decide) hconns fun _ => {}).2.2 ps' hps').2
  refine ⟨log, ps, ps', hrun, hps', ((hall 2 c₂ hc₂).1).mpr hlow, fun c hc => ?_, fun c hc => ?_⟩
  · have hiff := ((hall 1 c₁ hc₁).2 c hc).2.2
    rw [← Bool.not_eq_true, hiff]
    exact fun h => absurd h.2 (not_le.mpr hslow)
  · exact (((hall 0 c₀ hc₀).2 c hc).2.2).mpr hfast

/-- The same session either way, or gone either way. -/
theorem alike_of_represents {o₁ o₂ : Option (Connection cfg L)} {out : Outcome cfg L}
    (h₁ : out.Represents (o₁.elim .deleted .live)) (h₂ : out.Represents (o₂.elim .deleted .live)) :
    (o₁ = none ↔ o₂ = none) ∧
      ∀ c₁ c₂, o₁ = some c₁ → o₂ = some c₂ → ∃ s, Rep s c₁ ∧ Rep s c₂ := by
  cases out with
  | crashed f => cases o₁ <;> exact h₁.elim
  | deleted =>
    cases o₁ with
    | some c₁ => exact h₁.elim
    | none =>
      cases o₂ with
      | some c₂ => exact h₂.elim
      | none => exact ⟨Iff.rfl, fun c₁ c₂ h => nomatch h⟩
  | live s =>
    cases o₁ with
    | none => exact h₁.elim
    | some c₁ =>
      cases o₂ with
      | none => exact h₂.elim
      | some c₂ =>
        refine ⟨iff_of_false (by simp) (by simp), fun c₁' c₂' heq₁ heq₂ => ?_⟩
        obtain rfl := Option.some.inj heq₁
        obtain rfl := Option.some.inj heq₂
        exact ⟨s, h₁, h₂⟩

/-- **The order of the set does not matter.** A tick fails in both orders or in none, and what it
leaves of a connection is in the same session either way. -/
theorem tick_order {n : ℕ} {log : List (Process.LogEntry cfg L)} {ps : Process cfg L}
    (h : Process.RunFrom (Process.start cfg L n) log (.ok ps)) {conns conns' : List ℕ}
    (hnodup : conns.Nodup) (hnodup' : conns'.Nodup)
    (hconns : conns.toFinset = ps.getAllConnections)
    (hconns' : conns'.toFinset = ps.getAllConnections) (ios : ℕ → Io) :
    ((∃ ps₁, ps.monitorDataRates ios conns = .ok ps₁) ↔
      ∃ ps₂, ps.monitorDataRates ios conns' = .ok ps₂) ∧
    ∀ ps₁ ps₂, ps.monitorDataRates ios conns = .ok ps₁ →
      ps.monitorDataRates ios conns' = .ok ps₂ →
      ∀ b, (ps₁.proxy.conns b = none ↔ ps₂.proxy.conns b = none) ∧
        ∀ c₁ c₂, ps₁.proxy.conns b = some c₁ → ps₂.proxy.conns b = some c₂ →
          ∃ s, Rep s c₁ ∧ Rep s c₂ := by
  obtain ⟨hs, -⟩ := h.passes (Process.sound_start n) ps rfl
  have hperm : conns.Perm conns' :=
    List.perm_of_nodup_nodup_toFinset_eq hnodup hnodup' (hconns.trans hconns'.symm)
  -- who is not visited is not there
  have hgone : ∀ b ∉ conns, ps.status b = .deleted := by
    intro b hb
    rw [← List.mem_toFinset, hconns, hs.mem_getAllConnections,
      Option.not_isSome_iff_eq_none] at hb
    rw [Process.status, hb]
    rfl
  obtain ⟨hok, hsame⟩ := (Process.does_monitor.local ios).foldlM_perm hs hnodup hperm
    (E := fun st st' => ∃ out, Outcome.Represents out st ∧ out.Represents st')
    (fun b hb => ⟨.deleted, by rw [hgone b hb]; exact ⟨trivial, trivial⟩⟩)
    (fun hx hy => by
      obtain ⟨⟨s, hrep⟩, hx⟩ := hx
      obtain ⟨calls, out, hstep, hout⟩ := hx s hrep
      obtain ⟨calls', out', hstep', hout'⟩ := hy.2 s hrep
      obtain ⟨-, rfl⟩ := hstep.unique hstep'
      exact ⟨out, hout, hout'⟩)
  refine ⟨hok, fun ps₁ ps₂ h₁ h₂ b => ?_⟩
  obtain ⟨out, hout₁, hout₂⟩ := hsame h₁ h₂ b
  exact alike_of_represents hout₁ hout₂

/-- The three connections again, and two orders. -/
theorem tick_order_three :
    ∃ (log : List (Process.LogEntry .lenient .bodiless)) (ps ps₂ : Process .lenient .bodiless),
      Process.RunFrom (Process.start .lenient .bodiless 1) log (.ok ps) ∧
        ps.getAllConnections = {0, 1, 2} ∧
        ps.monitorDataRates (fun _ => {}) [1, 2, 0] = .ok ps₂ := by
  obtain ⟨log, r, hrun, hr⟩ := Process.exists_run (L := .bodiless) 1 threeConnections
    (fun _ (r : Except Process.Failure (Process .lenient _)) => Process.isOkWith r fun ps =>
      decide ([2, 0, 1].toFinset = ps.getAllConnections) &&
        Process.isOkWith (ps.monitorDataRates (fun _ => {}) [2, 0, 1]) fun _ => true)
    (by decide +kernel)
  obtain ⟨ps, rfl, hps⟩ := Process.isOkWith_iff.mp hr
  simp only [Bool.and_eq_true, decide_eq_true_eq] at hps
  obtain ⟨hconns, hok⟩ := hps
  obtain ⟨ps₁, hps₁, -⟩ := Process.isOkWith_iff.mp hok
  obtain ⟨ps₂, hps₂⟩ := (tick_order hrun (by decide) (by decide : [1, 2, 0].Nodup) hconns
    (Eq.trans (by decide) hconns) fun _ => {}).1.mp ⟨ps₁, hps₁⟩
  exact ⟨log, ps, ps₂, hrun, hconns.symm.trans (by decide), hps₂⟩

/-! ### The signal -/

namespace Process

/-- The list has an event of connection `b` that is pending. -/
def Recorded (ps : Process cfg L) (evtList : List EventId) (b : ℕ) : Prop :=
  ∃ evt ∈ evtList, evt.associatedConn = some b ∧ ps.pending evt = true

section Signal

variable {ps ps' : Process cfg L} {b : ℕ} {c : Connection cfg L} {io : Io} {evt : EventId}
  {evtList : List EventId} {ios : EventId → Io}

/-- What `put_events_slow_mode` makes of a connection that it switches. -/
theorem Sound.slowSwitch_left (hs : ps.Sound) (hc : ps.proxy.conns b = some c)
    (hen : c.enabled .slowSwitch = true) (hr : ps.callback b c .slowSwitch io = .ok ps') :
    (∃ c', ps'.proxy.conns b = some c' ∧ c'.fastMode = false) ∧
      (∀ b', b' ≠ b → ps'.proxy.conns b' = ps.proxy.conns b') ∧
      ps'.table.serverOf = ps.table.serverOf := by
  obtain ⟨s, hrep⟩ := hs.owned.rep b c hc
  obtain ⟨out, hstep, hout⟩ := fire_step hrep hen io ps.proxy.globalBuffer ps.proxy.pool
  have hcalls := slowSwitch_calls hrep hen io ps.proxy.globalBuffer ps.proxy.pool
  obtain ⟨px', hsettle, rfl⟩ := callback_ok hr
  obtain ⟨-, -, -, hconn, hothers⟩ := Proxy.settle_ok hsettle
  refine ⟨?_, hothers, ?_⟩
  · have hslow : ∃ s', out = .live s' ∧ s'.phase.isFast = false := by
      generalize (c.fire .slowSwitch io _ _).calls = calls at hstep
      cases hstep with
      | signalSlow hslow => exact ⟨_, rfl, hslow⟩
      | signalSwitch h => exact ⟨_, rfl, h.switched.2⟩
      | signalFault h =>
        cases hst : (c.fire .slowSwitch io ps.proxy.globalBuffer ps.proxy.pool).status with
        | live c' =>
          rw [hst] at hout
          exact hout.elim
        | deleted =>
          rw [hst] at hout
          exact hout.elim
        | crashed f => cases hsettle.symm.trans (Proxy.settle_error_iff.mpr hst)
    obtain ⟨s', rfl, hslow⟩ := hslow
    cases hst : (c.fire .slowSwitch io ps.proxy.globalBuffer ps.proxy.pool).status with
    | live c' =>
      rw [hst] at hout
      have hrep' : Rep s' c' := hout
      exact ⟨c', (hconn c').mpr hst, hrep'.fastMode.trans hslow⟩
    | deleted =>
      rw [hst] at hout
      exact hout.elim
    | crashed f =>
      rw [hst] at hout
      exact hout.elim
  · rw [callbackTable_serverOf, hcalls]
    rfl

/-- Whether an event is pending is a matter of its connection. -/
theorem pending_congr (hconn : evt.associatedConn = some b)
    (hb : ps'.proxy.conns b = ps.proxy.conns b) (hserver : ps'.table.serverOf = ps.table.serverOf) :
    ps'.pending evt = ps.pending evt := by
  cases evt <;> cases hconn <;> simp only [pending, hb, hserver]

/-- **What the loop does**: it switches the connections of which it finds an event pending, and
leaves the others as they are. -/
theorem Sound.putEventsSlowMode_left (hs : ps.Sound)
    (h : ps.putEventsSlowMode ios evtList = .ok ps') (b : ℕ) :
    (ps'.proxy.conns b = none ↔ ps.proxy.conns b = none) ∧
      (¬ ps.Recorded evtList b → ps'.proxy.conns b = ps.proxy.conns b) ∧
      (ps.Recorded evtList b → ∃ c', ps'.proxy.conns b = some c' ∧ c'.fastMode = false) := by
  induction evtList generalizing ps with
  | nil =>
    obtain rfl := Except.ok.inj h
    exact ⟨Iff.rfl, fun _ => rfl, fun ⟨evt, hevt, _⟩ => absurd hevt List.not_mem_nil⟩
  | cons evt rest ih =>
    -- an event that is passed over is not one of those that count
    have hskip : (∀ b, evt.associatedConn = some b → ps.pending evt ≠ true) →
        (ps.Recorded (evt :: rest) b ↔ ps.Recorded rest b) := by
      intro hnot
      unfold Recorded
      simp only [List.mem_cons, exists_eq_or_imp]
      exact or_iff_right fun h => hnot b h.1 h.2
    unfold Process.putEventsSlowMode at h
    split at h
    case isFalse => cases h
    case isTrue =>
    split at h
    case h_2 hnone =>
      rw [hskip fun b hconn => by rw [hnone] at hconn; cases hconn]
      exact ih hs h
    case h_1 b₀ hconn =>
    split at h
    case h_2 => cases h
    case h_1 c hc =>
    split at h
    case isFalse hnot =>
      rw [hskip fun _ _ => hnot]
      exact ih hs h
    case isTrue hpending =>
    split at h
    case h_2 => cases h
    case h_1 ps₁ hr =>
    have hen := enabled_of_pending hconn hc hpending
    obtain ⟨⟨c₁, hc₁, hslow⟩, hothers, hserver⟩ := hs.slowSwitch_left hc hen hr
    obtain ⟨hnone, hkept, hswitched⟩ := ih (hs.slowSwitch hc hen hr).1.1 h
    rcases eq_or_ne b b₀ with rfl | hb
    · -- switched by now, whatever the rest of the list does
      refine ⟨?_, fun hnot => absurd ⟨evt, List.mem_cons_self, hconn, hpending⟩ hnot, fun _ => ?_⟩
      · rw [hnone, hc₁, hc]
        exact iff_of_false (by simp) (by simp)
      · by_cases hrec : ps₁.Recorded rest b
        · exact hswitched hrec
        · exact ⟨c₁, (hkept hrec).trans hc₁, hslow⟩
    · -- for the others the rest of the list is what it was
      have hrest : ps₁.Recorded rest b ↔ ps.Recorded (evt :: rest) b := by
        unfold Recorded
        simp only [List.mem_cons, exists_eq_or_imp]
        rw [or_iff_right fun h => hb (Option.some.inj (h.1.symm.trans hconn))]
        refine exists_congr fun evt' => and_congr_right fun _ => and_congr_right fun hconn' => ?_
        rw [pending_congr hconn' (hothers b hb) hserver]
      rw [hothers b hb] at hnone hkept
      rw [hrest] at hkept hswitched
      exact ⟨hnone, hkept, hswitched⟩

end Signal

end Process

/-- The events of two connections that are read, the first in both directions. -/
def recordedTwo : List EventId :=
  [.acceptNew, .monitorDataRates, .clientRead 0, .serverRead 0 0, .clientRead 1]

/-- **Whom the signal puts into slow mode.** The signal records the events that are registered. When
its timer fires, a second later, and goes through all of them, just those connections are put into
slow mode of which one of these events is pending again; the others are left as they are, those in
particular that have been accepted since. None is deleted.

The timer comes to its end (`hfire`) unless one of the recorded events has been freed, which is what
`deferred_switch` is about, or the disk does not take what is copied from a history or a queue. -/
theorem signal_switches {n : ℕ} {pre mid : List (Process.LogEntry cfg L)}
    {ps₀ ps₁ ps₂ ps₃ : Process cfg L} {evtList : List EventId} {ios : EventId → Io}
    (hpre : Process.RunFrom (Process.start cfg L n) pre (.ok ps₀))
    (hsig : ps₀.step (.sigusr1 evtList) = some (.ok ps₁))
    (hmid : Process.RunFrom ps₁ mid (.ok ps₂))
    (hfire : ps₂.step (.putEventsSlowMode ps₀.table.nextTimer evtList ios) = some (.ok ps₃))
    (b : ℕ) :
    (ps₃.proxy.conns b = none ↔ ps₂.proxy.conns b = none) ∧
      (ps₂.Recorded evtList b → ∃ c, ps₃.proxy.conns b = some c ∧ c.fastMode = false) ∧
      (¬ ps₂.Recorded evtList b → ps₃.proxy.conns b = ps₂.proxy.conns b) ∧
      (ps₀.proxy.accepted ≤ b → ps₃.proxy.conns b = ps₂.proxy.conns b) := by
  obtain ⟨hs₀, -⟩ := hpre.passes (Process.sound_start n) ps₀ rfl
  have hs₁ := (hs₀.step hsig).1
  have hs₂ := (hmid.passes hs₁ ps₂ rfl).1
  obtain ⟨-, hlist, -⟩ := Process.step_sigusr1 hsig
  obtain ⟨-, ⟨ps₄, hloop, hr⟩ | ⟨f, -, hr⟩⟩ := Process.step_putEventsSlowMode hfire
  · obtain rfl := Except.ok.inj hr
    obtain ⟨hnone, hkept, hswitched⟩ := hs₂.putEventsSlowMode_left hloop b
    refine ⟨hnone, hswitched, hkept, fun hle => hkept ?_⟩
    -- what the signal has recorded belongs to a connection of its time
    rintro ⟨evt, hevt, hconn, -⟩
    have hreg : evt ∈ ps₀.registered := hlist ▸ List.mem_toFinset.mpr hevt
    have hlive := hs₀.associatedConn_live (Finset.mem_filter.mp hreg).1 hconn
    exact absurd (hs₀.valid.client_lt ((hs₀.fits.client b).mpr hlive)) (not_lt.mpr hle)
  · cases hr

/-- Two connections are read at the signal, the first in both directions. When the timer fires, the
first is waited for in both directions, so it stays in fast mode; the second is switched; a third
has come since. -/
theorem signal_switches_one :
    ∃ (ps₀ ps₂ ps₃ : Process .small .bodiless) (evtList : List EventId)
      (c : Connection .small .bodiless),
      ps₂.step (.putEventsSlowMode ps₀.table.nextTimer evtList fun _ => {}) = some (.ok ps₃) ∧
        ps₂.proxy.conns 0 = some c ∧ c.fastMode = true ∧ ps₃.proxy.conns 0 = some c ∧
        (∃ c, ps₃.proxy.conns 1 = some c ∧ c.fastMode = false) ∧
        (ps₂.proxy.conns 2).isSome = true ∧ ps₃.proxy.conns 2 = ps₂.proxy.conns 2 := by
  obtain ⟨pre, r, hpre, hr⟩ := Process.exists_run (L := .bodiless) Config.small.maxHybridPool
    [.acceptNew {}, .acceptNew {},
      .fire 0 .clientReadable
        { clientReads := [.data (ascii "GET /")], serverWrites := [.wrote 4] }]
    (fun _ (r : Except Process.Failure (Process .small _)) => Process.isOkWith r fun ps₀ =>
      decide (ps₀.proxy.accepted = 2) && (ps₀.step (.sigusr1 recordedTwo)).any fun r₁ =>
        Process.isOkWith r₁ fun ps₁ => (ps₁.exec [
            .fire 0 .clientReadable { clientReads := [.data (ascii "a")] },
            .fire 0 (.serverReadable false) { serverReads := [.data (ascii "b")] },
            .acceptNew {}]).any fun mr =>
          Process.isOkWith mr.2 fun ps₂ =>
            (ps₂.proxy.conns 0).any (·.fastMode) && (ps₂.proxy.conns 2).isSome &&
              !ps₂.pending (.clientRead 0) && !ps₂.pending (.serverRead 0 0) &&
              ps₂.pending (.clientRead 1) &&
              (ps₂.step (.putEventsSlowMode ps₀.table.nextTimer recordedTwo fun _ => {})).any
                fun r₃ => Process.isOkWith r₃ fun _ => true)
    (by decide +kernel)
  obtain ⟨ps₀, rfl, hps₀⟩ := Process.isOkWith_iff.mp hr
  obtain ⟨hacc, hr⟩ := Bool.and_eq_true_iff.mp hps₀
  obtain ⟨r₁, hsig, hr⟩ := (Option.any_eq_true _ _).mp hr
  obtain ⟨ps₁, rfl, hr⟩ := Process.isOkWith_iff.mp hr
  obtain ⟨⟨mid, r₂⟩, hex, hr⟩ := (Option.any_eq_true _ _).mp hr
  obtain ⟨ps₂, rfl, hmid⟩ := Process.isOkWith_iff.mp hr
  simp only [Bool.and_eq_true, Bool.not_eq_true'] at hmid
  obtain ⟨⟨⟨⟨⟨hzero, htwo⟩, hclient⟩, hserver⟩, hone⟩, hfire⟩ := hmid
  obtain ⟨c, hc, hfast⟩ := (Option.any_eq_true _ _).mp hzero
  obtain ⟨r₃, hfire, hr⟩ := (Option.any_eq_true _ _).mp hfire
  obtain ⟨ps₃, rfl, -⟩ := Process.isOkWith_iff.mp hr
  have hall := signal_switches hpre hsig (Process.run_of_exec .start hex) hfire
  refine ⟨ps₀, ps₂, ps₃, recordedTwo, c, hfire, hc, hfast, ?_, ?_, htwo, ?_⟩
  · rw [(hall 0).2.2.1, hc]
    rintro ⟨evt, hevt, hconn, hpending⟩
    simp only [recordedTwo, List.mem_cons, List.not_mem_nil, or_false] at hevt
    rcases hevt with rfl | rfl | rfl | rfl | rfl
    · cases hconn
    · cases hconn
    · rw [hclient] at hpending
      cases hpending
    · rw [hserver] at hpending
      cases hpending
    · cases hconn
  · exact (hall 1).2.1 ⟨.clientRead 1, by simp [recordedTwo], rfl, hone⟩
  · exact (hall 2).2.2.2 (of_decide_eq_true hacc).le

/-! ### The end of `main` -/

namespace Process

section ClearUp

variable {ps ps' : Process cfg L} {ios : ℕ → Io} {conns : List ℕ}

/-- `main` comes to its end. -/
theorem Sound.clearUp_ok (hs : ps.Sound) (hnodup : conns.Nodup)
    (hlive : ∀ b ∈ conns, (ps.proxy.conns b).isSome = true) (ios : ℕ → Io) :
    ∃ ps', ps.clearUp ios conns = .ok ps' := by
  refine ((does_deletion.local ios).foldlM_ok_iff hs hnodup).mpr fun b hb hfails => ?_
  obtain ⟨c, hc⟩ := Option.isSome_iff_exists.mp (hlive b hb)
  obtain ⟨s, hrep⟩ := hs.owned.rep b c hc
  obtain ⟨calls, f, -, hout⟩ := hfails s (by rw [status_live hc]; exact hrep)
  cases hout

/-- What `main` deletes loses a descriptor just if it has left fast mode. -/
theorem Sound.clearUp_passes (hs : ps.Sound) (hnodup : conns.Nodup)
    (h : ps.clearUp ios conns = .ok ps') :
    ps'.Sound ∧ Table.Passes ps.proxy.accepted ps.proxy.nextId ps'.proxy.accepted ps'.proxy.nextId
      ps.table ps'.table (∀ b ∈ conns, ∀ c, ps.proxy.conns b = some c → c.fastMode = true) := by
  induction conns generalizing ps with
  | nil =>
    obtain rfl := Except.ok.inj h
    exact ⟨hs, hs.valid.refl.congr (iff_of_true trivial fun b hb => absurd hb List.not_mem_nil)⟩
  | cons b conns ih =>
    obtain ⟨hb, hnodup⟩ := List.nodup_cons.mp hnodup
    obtain ⟨ps₁, hvisit, hrest⟩ := foldlM_cons_ok.mp h
    have hframe : ∀ b', b' ≠ b → ps₁.status b' = ps.status b' := fun b' hne =>
      (does_deletion.local ios).frame hs hvisit hne
    obtain ⟨c, px', hc, hsettle, rfl⟩ := visit_ok hvisit
    obtain ⟨s, hrep⟩ := hs.owned.rep b c hc
    obtain ⟨out, ⟨hcalls, -⟩, -⟩ :=
      does_deletion.step hrep (ios b) ps.proxy.globalBuffer ps.proxy.pool
    obtain ⟨hs₁, hpass₁⟩ := hs.settle hc (does_deletion.orderly hrep _ _ _) hsettle
    obtain ⟨hs', hpass'⟩ := ih hs₁ hnodup hrest
    refine ⟨hs', (hpass₁.trans hpass').congr ?_⟩
    rw [List.forall_mem_cons]
    refine and_congr ?_ (forall₂_congr fun b' hb' => ?_)
    · -- the calls of a deletion end with the client
      rw [hcalls]
      have hpage : ∀ bs, Call.page503 bs ∉
          (if s.phase.hasServer then [Call.closeServer] else []) ++ [.closeClient] := by
        intro bs
        split <;> simp
      have hclose : Call.closeClient ∈
          (if s.phase.hasServer then [Call.closeServer] else []) ++ [.closeClient] :=
        List.mem_append_right _ (List.mem_singleton_self _)
      constructor
      · rintro ⟨-, hfast⟩ c' hc'
        obtain rfl := Option.some.inj (hc.symm.trans hc')
        exact hfast hclose
      · exact fun hfast => ⟨hpage, fun _ => hfast c hc⟩
    · -- the other connections are what they were
      have hne : b' ≠ b := fun heq => hb (heq ▸ hb')
      obtain ⟨-, -, -, -, hothers⟩ := Proxy.settle_ok hsettle
      show (∀ c', px'.conns b' = some c' → _) ↔ _
      rw [hothers b' hne]

/-- Without connections a descriptor is accounted for by the start, the pool or a timer. -/
theorem accounted_of_cleared (hgone : ∀ b, ps.proxy.conns b = none) (fd : Fd) :
    ps.Accounted fd ↔
      ps.Closing fd ∨ (∃ f, fd = .startup f) ∨ ∃ x ∈ ps.proxy.pool, fd = .hist x.id := by
  unfold Accounted
  refine or_congr_right ?_
  cases fd with
  | startup f => simp
  | hist i =>
    constructor
    · rintro (hi | ⟨b, c, hc, -⟩)
      · obtain ⟨x, hx, rfl⟩ := List.mem_map.mp hi
        exact .inr ⟨x, hx, rfl⟩
      · cases (hgone b).symm.trans hc
    · rintro (⟨f, hf⟩ | ⟨x, hx, heq⟩)
      · cases hf
      · exact .inl (List.mem_map.mpr ⟨x, hx, (Fd.hist.inj heq).symm⟩)
  | _ => simp [hgone]

end ClearUp

end Process

/-- **What `main` leaves.** When the event loop has been broken, in any state and with any order of
the set, `main` deletes every connection. Then the descriptors of the start, those of the Hybridbufs
in the pool and the sockets whose timer has not fired are open in any case, and nothing else just if
no descriptor has been lost before and every connection was still in fast mode. -/
theorem cleared_up {n : ℕ} {log : List (Process.LogEntry cfg L)} {ps : Process cfg L}
    (h : Process.RunFrom (Process.start cfg L n) log (.ok ps)) {conns : List ℕ}
    (hnodup : conns.Nodup) (hconns : conns.toFinset = ps.getAllConnections) (ios : ℕ → Io) :
    ∃ ps', ps.clearUp ios conns = .ok ps' ∧ (∀ b, ps'.proxy.conns b = none) ∧
      (∀ fd, (ps'.Closing fd ∨ (∃ f, fd = .startup f) ∨ ∃ x ∈ ps'.proxy.pool, fd = .hist x.id) →
        fd ∈ ps'.table.fds) ∧
      ((∀ fd ∈ ps'.table.fds,
          ps'.Closing fd ∨ (∃ f, fd = .startup f) ∨ ∃ x ∈ ps'.proxy.pool, fd = .hist x.id) ↔
        (∀ x ∈ log, x.leaks = false) ∧ ∀ b c, ps.proxy.conns b = some c → c.fastMode = true) := by
  obtain ⟨hs, hpass⟩ := h.passes (Process.sound_start n) ps rfl
  have hmem : ∀ b, b ∈ conns ↔ (ps.proxy.conns b).isSome = true := fun b => by
    rw [← List.mem_toFinset, hconns, hs.mem_getAllConnections]
  obtain ⟨ps', hps'⟩ := hs.clearUp_ok hnodup (fun b => (hmem b).mp) ios
  obtain ⟨hs', hpass'⟩ := hs.clearUp_passes hnodup hps'
  have hgone : ∀ b, ps'.proxy.conns b = none := by
    intro b
    obtain ⟨-, hdone, hframe⟩ := (Process.does_deletion.local ios).foldlM_ok hs hnodup hps'
    suffices hst : ps'.status b = .deleted by
      unfold Process.status at hst
      cases hb : ps'.proxy.conns b with
      | none => rfl
      | some c =>
        rw [hb] at hst
        cases hst
    by_cases hb : b ∈ conns
    · obtain ⟨⟨s, hrep⟩, hall⟩ := hdone b hb
      obtain ⟨calls, out, ⟨-, rfl⟩, hout⟩ := hall s hrep
      cases hst : ps'.status b with
      | deleted => rfl
      | live c =>
        rw [hst] at hout
        exact hout.elim
      | crashed f =>
        rw [hst] at hout
        exact hout.elim
    · rw [hframe b hb, Process.status,
        Option.not_isSome_iff_eq_none.mp fun hlive => hb ((hmem b).mpr hlive)]
      rfl
  refine ⟨ps', hps', hgone, ?_⟩
  simp only [← Process.accounted_of_cleared hgone]
  refine ⟨fun fd hfd => ?_, ?_⟩
  -- what is accounted for is held by an object, and so it is open
  · exact hs'.valid.sound.held_subset ((hs'.accounted_iff fd).mp hfd)
  have hopen : (∀ fd ∈ ps'.table.fds, ps'.Accounted fd) ↔ ps'.table.lost = ∅ := by
    rw [Set.eq_empty_iff_forall_notMem]
    constructor
    · rintro hall (f | e) hlost
      · exact hlost.2 ((hs'.accounted_iff f).mp (hall f hlost.1))
      · exact hs'.valid.events e hlost
    · intro hnone fd hfd
      rw [hs'.accounted_iff]
      by_contra hnot
      exact hnone (.fd fd) ⟨hfd, hnot⟩
  have hstart : (Process.start cfg L n).table.lost = ∅ := Table.lost_start n
  have hiff := (hpass.trans hpass').lossless_iff
  rw [hstart, Set.subset_empty_iff] at hiff
  rw [hopen, hiff]
  refine and_congr_right fun _ => ⟨fun hfast b c hc => ?_, fun hfast b _ => hfast b⟩
  exact hfast b ((hmem b).mpr (by rw [hc]; rfl)) c hc

/-- The loop is broken while three clients are served in fast mode. -/
theorem cleared_up_three :
    ∃ (log : List (Process.LogEntry .lenient .bodiless)) (ps ps' : Process .lenient .bodiless),
      Process.RunFrom (Process.start .lenient .bodiless 1) log (.ok ps) ∧
        ps.getAllConnections = {0, 1, 2} ∧ ps.clearUp (fun _ => {}) [1, 2, 0] = .ok ps' ∧
        ∀ fd, fd ∈ ps'.table.fds ↔
          ps'.Closing fd ∨ (∃ f, fd = .startup f) ∨ ∃ x ∈ ps'.proxy.pool, fd = .hist x.id := by
  obtain ⟨log, r, hrun, hr⟩ := Process.exists_run (L := .bodiless) 1 threeConnections
    (fun log (r : Except Process.Failure (Process .lenient _)) => Process.isOkWith r fun ps =>
      decide ([1, 2, 0].toFinset = ps.getAllConnections) && log.all (!·.leaks) &&
        [1, 2, 0].all fun b => (ps.proxy.conns b).all (·.fastMode))
    (by decide +kernel)
  obtain ⟨ps, rfl, hps⟩ := Process.isOkWith_iff.mp hr
  simp only [Bool.and_eq_true, decide_eq_true_eq, List.all_eq_true, Bool.not_eq_true'] at hps
  obtain ⟨⟨hconns, hkept⟩, hfast⟩ := hps
  obtain ⟨ps', hps', -, hopen, hiff⟩ := cleared_up hrun (by decide) hconns fun _ => {}
  refine ⟨log, ps, ps', hrun, hconns.symm.trans (by decide), hps', fun fd =>
    ⟨hiff.mpr ⟨hkept, ?_⟩ fd, hopen fd⟩⟩
  intro b c hc
  obtain ⟨hs, -⟩ := hrun.passes (Process.sound_start 1) ps rfl
  have hb : b ∈ ps.getAllConnections := hs.mem_getAllConnections.mpr (by rw [hc]; rfl)
  rw [← hconns, List.mem_toFinset] at hb
  have hall := hfast b hb
  rw [hc] at hall
  exact hall

end LSProxy
