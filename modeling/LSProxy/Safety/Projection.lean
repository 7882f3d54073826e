import LSProxy.Lib.Simulation
import LSProxy.Safety.Descriptors

/-!
# The connections of the process

The process has what its connections do not know of: descriptors, events, timers, signals. Every
event of the process is matched by a run of the connections: `accept_new` and a callback by
themselves, a signal and a timer of `close_socket_gracefully` by nothing, `put_events_slow_mode` by
one `set_slow_mode` for each event that it finds pending. So what is known of the connections holds
in the process.

* `Process.LogEntry.Expands` — the events of the connections that an event of the process stands
  for;
* `Process.simulated` — the connections simulate the process;
* `Process.RunFrom.proxy` — the execution of the connections behind an execution of the process;
* `runs_in_process` — every connection of the process is in a run of its own.
-/

namespace LSProxy

open Session Simulation

variable {cfg : Config} {L : Llhttp}

/-- A step of the connections that does not fault, as a transition. -/
def Proxy.Goes (px : Proxy cfg L) (x : Proxy.LogEntry) (px' : Proxy cfg L) : Prop :=
  px.step x.ev = some (x.who, x.calls, .ok px')

theorem Proxy.runs_goes {px₀ px : Proxy cfg L} {log : List Proxy.LogEntry}
    (h : Runs Proxy.Goes px₀ log px) : Proxy.RunFrom px₀ log (.ok px) := by
  induction h with
  | start => exact .start
  | step _ hstep ih => exact ih.step hstep

namespace Process

/-- A step of the process that does not fail, as a transition. -/
def Goes (ps : Process cfg L) (x : LogEntry cfg L) (ps' : Process cfg L) : Prop :=
  x.before = ps ∧ ps.step x.ev = some (.ok ps')

theorem runs_goes {ps₀ ps : Process cfg L} {log : List (LogEntry cfg L)}
    (h : RunFrom ps₀ log (.ok ps)) : Runs Goes ps₀ log ps := by
  generalize hr : (Except.ok ps : Except Failure (Process cfg L)) = r at h
  induction h generalizing ps with
  | start =>
    obtain rfl := Except.ok.inj hr
    exact .start
  | step _ hstep ih =>
    subst hr
    exact (ih rfl).step ⟨rfl, hstep⟩

/-- The events of the connections that an event of the process stands for. -/
inductive LogEntry.Expands : LogEntry cfg L → List Proxy.LogEntry → Prop
  | acceptNew {ps : Process cfg L} {io : Io} :
      Expands ⟨ps, .acceptNew io⟩ [⟨ps.proxy.accepted, .acceptNew io, (ps.proxy.acceptNew io).1⟩]
  | fire {ps : Process cfg L} {b : ℕ} {cb : Callback} {io : Io} (hcb : cb ≠ .slowSwitch) :
      Expands ⟨ps, .fire b cb io⟩
        [⟨b, .fire b cb io, (⟨ps, .fire b cb io⟩ : LogEntry cfg L).calls⟩]
  | sigusr1 {ps : Process cfg L} {evtList : List EventId} : Expands ⟨ps, .sigusr1 evtList⟩ []
  | putEventsSlowMode {ps : Process cfg L} {k : ℕ} {evtList : List EventId} {ios : EventId → Io}
      {xs : List Proxy.LogEntry} (h : ∀ x ∈ xs, x.calls = [] ∧ ∃ evt ∈ evtList,
        evt.associatedConn = some x.who ∧ x.ev = .fire x.who .slowSwitch (ios evt)) :
      Expands ⟨ps, .putEventsSlowMode k evtList ios⟩ xs
  | closeAfterTimeout {ps : Process cfg L} {k : ℕ} {fd : Fd} :
      Expands ⟨ps, .closeAfterTimeout k fd⟩ []

section Simulated

variable {ps ps' : Process cfg L}

/-- A callback of the process is one of the connection. -/
theorem goes_of_callback {b : ℕ} {c : Connection cfg L} {cb : Callback} {io : Io}
    (hc : ps.proxy.conns b = some c) (hen : c.enabled cb = true)
    (hr : ps.callback b c cb io = .ok ps') :
    ps.proxy.Goes ⟨b, .fire b cb io, (c.fire cb io ps.proxy.globalBuffer ps.proxy.pool).calls⟩
      ps'.proxy := by
  obtain ⟨px', hsettle, rfl⟩ := callback_ok hr
  unfold Proxy.Goes Proxy.step
  simp only [hc, hen, if_true, hsettle]

/-- The loop of `put_events_slow_mode` is a run of `set_slow_mode`. -/
theorem Sound.putEventsSlowMode_runs {ios : EventId → Io} {evtList : List EventId} (hs : ps.Sound)
    (h : ps.putEventsSlowMode ios evtList = .ok ps') :
    ∃ xs, Runs Proxy.Goes ps.proxy xs ps'.proxy ∧ ∀ x ∈ xs, x.calls = [] ∧ ∃ evt ∈ evtList,
      evt.associatedConn = some x.who ∧ x.ev = .fire x.who .slowSwitch (ios evt) := by
  induction evtList generalizing ps with
  | nil =>
    obtain rfl := Except.ok.inj h
    exact ⟨[], .start, fun x hx => absurd hx List.not_mem_nil⟩
  | cons evt rest ih =>
    -- an event that is passed over, or whose connection is already in slow mode, adds nothing
    have hskip : ∀ {xs : List Proxy.LogEntry}, (∀ x ∈ xs, x.calls = [] ∧ ∃ evt ∈ rest,
        evt.associatedConn = some x.who ∧ x.ev = .fire x.who .slowSwitch (ios evt)) →
        ∀ x ∈ xs, x.calls = [] ∧ ∃ evt' ∈ evt :: rest,
          evt'.associatedConn = some x.who ∧ x.ev = .fire x.who .slowSwitch (ios evt') := by
      intro xs hxs x hx
      obtain ⟨hcalls, evt', hmem, hev⟩ := hxs x hx
      exact ⟨hcalls, evt', List.mem_cons_of_mem _ hmem, hev⟩
    unfold Process.putEventsSlowMode at h
    split at h
    case isFalse => cases h
    case isTrue =>
    split at h
    case h_2 =>
      obtain ⟨xs, hrun, hxs⟩ := ih hs h
      exact ⟨xs, hrun, hskip hxs⟩
    case h_1 b hconn =>
    split at h
    case h_2 => cases h
    case h_1 c hc =>
    split at h
    case isFalse =>
      obtain ⟨xs, hrun, hxs⟩ := ih hs h
      exact ⟨xs, hrun, hskip hxs⟩
    case isTrue hpending =>
    split at h
    case h_2 => cases h
    case h_1 ps₁ hr =>
    -- the event is pending, so the switch is one that the connection may make
    have hen := enabled_of_pending hconn hc hpending
    obtain ⟨s, hrep⟩ := hs.owned.rep b c hc
    have hgo := goes_of_callback hc hen hr
    rw [slowSwitch_calls hrep hen] at hgo
    obtain ⟨xs, hrun, hxs⟩ := ih (hs.slowSwitch hc hen hr).1.1 h
    refine ⟨_, .cons hgo hrun, List.forall_mem_cons.mpr ⟨⟨rfl, ?_⟩, hskip hxs⟩⟩
    exact ⟨evt, List.mem_cons_self, hconn, rfl⟩

/-- **The connections simulate the process.** -/
theorem simulated : Simulates (@Goes cfg L) Proxy.Goes LogEntry.Expands
    fun ps px => ps.Sound ∧ ps.proxy = px := by
  rintro ps px ⟨ps₁, ev⟩ ps' ⟨hs, rfl⟩ ⟨hbefore, hstep⟩
  obtain rfl : ps₁ = ps := hbefore
  have hstep : ps₁.step ev = some (.ok ps') := hstep
  have hs' := (hs.step hstep).1
  cases ev with
  | acceptNew io =>
    obtain rfl := Except.ok.inj (Option.some.inj hstep)
    exact ⟨_, _, .acceptNew, .one rfl, hs', rfl⟩
  | fire b cb io =>
    obtain ⟨c, hc, hen, hcb, hr⟩ := step_fire hstep
    have hgo := goes_of_callback hc hen hr
    rw [← LogEntry.calls_fire hc] at hgo
    exact ⟨_, _, .fire hcb, .one hgo, hs', rfl⟩
  -- a signal records events and touches no connection
  | sigusr1 evtList =>
    obtain ⟨-, -, rfl⟩ := step_sigusr1 hstep
    exact ⟨_, _, .sigusr1, .start, hs', rfl⟩
  | putEventsSlowMode k evtList ios =>
    obtain ⟨-, ⟨ps₂, hloop, hr⟩ | ⟨f, -, hr⟩⟩ := step_putEventsSlowMode hstep
    · obtain rfl := Except.ok.inj hr
      obtain ⟨xs, hrun, hxs⟩ := hs.putEventsSlowMode_runs hloop
      exact ⟨xs, _, .putEventsSlowMode hxs, hrun, hs', rfl⟩
    · cases hr
  -- the socket is that of a client or a server that is gone
  | closeAfterTimeout k fd =>
    obtain ⟨-, rfl⟩ := step_closeAfterTimeout hstep
    exact ⟨_, _, .closeAfterTimeout, .start, hs', rfl⟩

end Simulated

/-- **The execution of the connections** behind an execution of the process. -/
theorem RunFrom.proxy {n : ℕ} {log : List (LogEntry cfg L)} {ps : Process cfg L}
    (h : RunFrom (Process.start cfg L n) log (.ok ps)) :
    ∃ xss, List.Forall₂ LogEntry.Expands log xss ∧
      Proxy.RunFrom (Proxy.start cfg L n) xss.flatten (.ok ps.proxy) := by
  obtain ⟨xss, px, hword, hrun, -, rfl⟩ :=
    simulated.runs (runs_goes h) ⟨sound_start n, rfl⟩
  exact ⟨xss, hword, Proxy.runs_goes hrun⟩

/-! ### The events of one connection -/

/-- The event is a callback of connection `b`: which one, and the results of its system calls. -/
def LogEntry.firedBy (b : ℕ) (x : LogEntry cfg L) : Option (Callback × Io) :=
  match x.ev with
  | .fire b' cb io => if b' = b then some (cb, io) else none
  | _ => none

/-- The event lets the connection `b` in. -/
def LogEntry.admits (b : ℕ) (x : LogEntry cfg L) : Bool :=
  match x.ev with
  | .acceptNew _ =>
    x.before.proxy.accepted == b && decide (x.before.proxy.connectionCount < cfg.maxConnection)
  | _ => false

/-- A callback, unless it is `set_slow_mode`, which no event of the process is by itself. -/
def given : Proxy.Event → Option (Callback × Io)
  | .fire _ cb io => if cb = .slowSwitch then none else some (cb, io)
  | _ => none

section FiredBy

variable {log : List (LogEntry cfg L)} {xss : List (List Proxy.LogEntry)} {b : ℕ}

/-- The callbacks of a connection are those the process has called. -/
theorem eventsBy_expanded (h : List.Forall₂ LogEntry.Expands log xss) :
    (Proxy.eventsBy b xss.flatten).filterMap given = log.filterMap (·.firedBy b) := by
  induction h with
  | nil => rfl
  | @cons x xs log xss hx _ ih =>
    have happend : Proxy.eventsBy b (xs :: xss).flatten =
        Proxy.eventsBy b xs ++ Proxy.eventsBy b xss.flatten := by
      simp [Proxy.eventsBy]
    rw [happend, List.filterMap_append, ih, ← List.singleton_append, List.filterMap_append]
    congr 1
    cases hx with
    | @acceptNew ps io =>
      by_cases hb : ps.proxy.accepted = b <;> simp [Proxy.eventsBy, hb, given, LogEntry.firedBy]
    | @fire ps b' cb io hcb =>
      by_cases hb : b' = b <;> simp [Proxy.eventsBy, hb, given, LogEntry.firedBy, hcb]
    | sigusr1 => rfl
    | closeAfterTimeout => rfl
    -- its switches are not events of the process by themselves
    | putEventsSlowMode hxs =>
      rw [List.filterMap_eq_nil_iff.mpr]
      · rfl
      · intro ev hev
        obtain ⟨y, hy, rfl⟩ := List.mem_map.mp hev
        obtain ⟨-, evt, -, -, heq⟩ := hxs y (List.mem_filter.mp hy).1
        rw [heq]
        rfl

/-- What is done on the sockets of a connection is done by its callbacks, once it has been let
in. -/
theorem callsBy_expanded (h : List.Forall₂ LogEntry.Expands log xss)
    (hquiet : ∀ y ∈ xss.flatten, y.who = b → ∀ io, y.ev = .acceptNew io → y.calls = []) :
    Proxy.callsBy b xss.flatten = (log.filter (·.firedBy b |>.isSome)).flatMap (·.calls) := by
  induction h with
  | nil => rfl
  | @cons x xs log xss hx _ ih =>
    have happend : Proxy.callsBy b (xs :: xss).flatten =
        Proxy.callsBy b xs ++ Proxy.callsBy b xss.flatten := by
      simp [Proxy.callsBy]
    rw [happend, ih fun y hy => hquiet y (List.mem_append_right _ hy), ← List.singleton_append,
      List.filter_append, List.flatMap_append]
    congr 1
    have hquiet : ∀ y ∈ xs, y.who = b → ∀ io, y.ev = .acceptNew io → y.calls = [] :=
      fun y hy => hquiet y (List.mem_append_left _ hy)
    cases hx with
    | @acceptNew ps io =>
      by_cases hb : ps.proxy.accepted = b
      · -- letting a client in does nothing on its socket, refusing it does
        have hnil := hquiet _ (List.mem_singleton_self _) hb io rfl
        simp only at hnil
        simp [Proxy.callsBy, hb, LogEntry.firedBy, hnil]
      · simp [Proxy.callsBy, hb, LogEntry.firedBy]
    | @fire ps b' cb io hcb =>
      by_cases hb : b' = b <;> simp [Proxy.callsBy, hb, LogEntry.firedBy]
    | sigusr1 => rfl
    | closeAfterTimeout => rfl
    -- a switch does nothing on the sockets
    | putEventsSlowMode hxs =>
      rw [Proxy.callsBy, List.flatMap_eq_nil_iff.mpr]
      · rfl
      · exact fun y hy => (hxs y (List.mem_filter.mp hy).1).1

/-- The callbacks that the process has called, of those of a run. -/
theorem given_events (b : ℕ) (tr : List (Entry cfg L)) :
    (tr.map fun e => Proxy.Event.fire b e.cb e.io).filterMap given =
      (tr.filter (·.cb ≠ .slowSwitch)).map fun e => (e.cb, e.io) := by
  induction tr with
  | nil => rfl
  | cons e tr ih => by_cases hcb : e.cb = .slowSwitch <;> simp [given, hcb, ih]

/-- Letting a connection in does nothing on its sockets, and is done once. -/
theorem quiet_of_events {plog : List Proxy.LogEntry} {io : Io} {tr : List (Entry cfg L)}
    (hadm : Proxy.Admitted b plog)
    (hev : Proxy.eventsBy b plog = .acceptNew io :: tr.map fun e => .fire b e.cb e.io) :
    ∀ y ∈ plog, y.who = b → ∀ io, y.ev = .acceptNew io → y.calls = [] := by
  obtain ⟨y₀, ys, hfilter, -, hys⟩ := List.map_eq_cons_iff.mp hev
  -- an acceptance among the events of `b` is the first of them
  have hfirst : ∀ y ∈ plog, y.who = b → ∀ io, y.ev = .acceptNew io → y = y₀ := by
    intro y hy hb io hacc
    have hmem : y ∈ y₀ :: ys := by
      rw [← hfilter]
      exact List.mem_filter.mpr ⟨hy, by simpa using hb⟩
    rcases List.mem_cons.mp hmem with heq | hmem
    · exact heq
    · have hfire : y.ev ∈ tr.map fun e => Proxy.Event.fire b e.cb e.io :=
        hys ▸ List.mem_map_of_mem hmem
      rw [hacc] at hfire
      obtain ⟨e, -, he⟩ := List.mem_map.mp hfire
      cases he
  obtain ⟨io', hmem⟩ := hadm
  intro y hy hb io hacc
  rw [hfirst y hy hb io hacc, ← hfirst _ hmem rfl io' rfl]

/-- The event of the connections that lets connection `b` in. -/
theorem admitted_expanded (h : List.Forall₂ LogEntry.Expands log xss)
    (hadm : ∃ x ∈ log, x.admits b = true) : Proxy.Admitted b xss.flatten := by
  obtain ⟨x, hx, hb⟩ := hadm
  induction h with
  | nil => cases hx
  | @cons x₁ xs log xss hx₁ _ ih =>
    rcases List.mem_cons.mp hx with rfl | hx
    · cases hx₁ with
      | @acceptNew ps io =>
        simp only [LogEntry.admits, Bool.and_eq_true, beq_iff_eq, decide_eq_true_eq] at hb
        refine ⟨io, ?_⟩
        simp [hb.1, Proxy.acceptNew, not_le.mpr hb.2]
      | _ => cases hb
    · obtain ⟨io, hmem⟩ := ih hx
      exact ⟨io, List.mem_append_right _ hmem⟩

end FiredBy

end Process

/-- **Every connection is in a run of its own.** In every execution of the process, with its ticks,
signals and timers, a connection that has been let in goes through a run of its own: the callbacks
of the process are those of the run, except that the run also has the switches of
`put_events_slow_mode`, what is done on the sockets is the same, and the connection is live in the
process just if it is live at the end of the run. -/
theorem runs_in_process {n : ℕ} {log : List (Process.LogEntry cfg L)} {ps : Process cfg L}
    (h : Process.RunFrom (Process.start cfg L n) log (.ok ps)) {b : ℕ}
    (hadm : ∃ x ∈ log, x.admits b = true) :
    ∃ (tr : List (Entry cfg L)) (st : Status cfg L), Run tr st ∧
      (tr.filter (·.cb ≠ .slowSwitch)).map (fun e => (e.cb, e.io)) = log.filterMap (·.firedBy b) ∧
      callsOf tr = (log.filter (·.firedBy b |>.isSome)).flatMap (·.calls) ∧
      ∀ c, ps.proxy.conns b = some c ↔ st = .live c := by
  obtain ⟨xss, hword, hrun⟩ := h.proxy
  have hadm := Process.admitted_expanded hword hadm
  obtain ⟨io, tr, st, htr, hev, hcalls, hlive⟩ := hrun.projects.run b hadm
  refine ⟨tr, st, htr, ?_, ?_, hlive ps.proxy rfl⟩
  · rw [← Process.eventsBy_expanded hword, hev, List.filterMap_cons_none rfl,
      Process.given_events]
  · rw [← hcalls, Process.callsBy_expanded hword (Process.quiet_of_events hadm hev)]

/-- The signal puts the only connection into slow mode. -/
theorem runs_in_process_switched :
    ∃ (log : List (Process.LogEntry .small .bodiless)) (tr : List (Entry .small .bodiless))
      (c : Connection .small .bodiless),
      log.length = 3 ∧ log.filterMap (·.firedBy 0) = [] ∧ Run tr (.live c) ∧
        tr.filter (·.cb ≠ .slowSwitch) = [] ∧ c.fastMode = false := by
  obtain ⟨log, r, hrun, hr⟩ := Process.exists_run (L := .bodiless) Config.small.maxHybridPool
    [.acceptNew {},
      .sigusr1 [.acceptNew, .monitorDataRates, .clientRead 0],
      .putEventsSlowMode 0 [.acceptNew, .monitorDataRates, .clientRead 0] (fun _ => {})]
    (fun log (r : Except Process.Failure (Process .small _)) => Process.isOkWith r fun ps =>
      log.length == 3 && log.any (·.admits 0) && (log.filterMap (·.firedBy 0)).isEmpty &&
        (ps.proxy.conns 0).any (!·.fastMode))
    (by decide +kernel)
  obtain ⟨ps, rfl, hps⟩ := Process.isOkWith_iff.mp hr
  simp only [Bool.and_eq_true, beq_iff_eq, List.isEmpty_iff] at hps
  obtain ⟨⟨⟨hlen, hadm⟩, hnone⟩, hslow⟩ := hps
  obtain ⟨c, hc, hslow⟩ := (Option.any_eq_true _ _).mp hslow
  obtain ⟨tr, st, htr, hev, -, hlive⟩ := runs_in_process hrun (List.any_eq_true.mp hadm)
  obtain rfl := (hlive c).mp hc
  rw [hnone, List.map_eq_nil_iff] at hev
  exact ⟨log, tr, c, hlen, hnone, htr, hev, by simpa using hslow⟩

end LSProxy
