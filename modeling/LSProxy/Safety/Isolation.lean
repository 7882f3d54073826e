import LSProxy.Model.Proxy
import LSProxy.Session.Runs

/-!
# Isolation between connections

The connections share a scratch buffer and recycle their history buffers, whose memory is never
zeroed. None of it shows on the sockets: a step of a session mentions neither, so what a connection
does among the others is what it does alone.

* `Proxy.Projects` — in an execution of the process the events of each connection are a run of that
  connection;
* `Run.alone` — a run of a connection is an execution of the process with no other connection and
  an empty pool, which does the same on the sockets;
* `Proxy.Owned` — a history buffer is in the pool, or belongs to one client;
* `isolation` — the three together.
-/

namespace LSProxy

open Session

variable {cfg : Config} {L : Llhttp}

/-! ### A connection among others -/

/-- Some event of a connection is always pending. -/
theorem Rep.hasEvent {s : Session cfg L} {c : Connection cfg L} (hrep : Rep s c) :
    c.hasEvent = true := by
  cases hrep <;> simp [Connection.hasEvent, slowClient]
  next cw sw _ _ => cases sw <;> simp

/-- A step is taken only by a callback whose event is pending. -/
theorem Session.Step.enabled {s : Session cfg L} {c : Connection cfg L} {cb : Callback} {io : Io}
    {calls : List Call} {out : Outcome cfg L} (h : Step s cb io calls out) (hrep : Rep s c) :
    c.enabled cb = true := by
  cases h with
  | monitorDrop | monitorKeep | monitorSwitch | monitorFault => exact hrep.hasEvent
  | signalSlow | signalSwitch | signalFault => exact hrep.hasEvent
  | _ =>
    cases hrep
    rfl

namespace Proxy

/-- The events of each connection of an execution are a run of that connection. -/
structure Projects (log : List LogEntry) (r : Except Fault (Proxy cfg L)) : Prop where
  run : ∀ b, Admitted b log → ∃ io, ∃ tr : List (Entry cfg L), ∃ st, Run tr st ∧
    eventsBy b log = .acceptNew io :: tr.map (fun e => .fire b e.cb e.io) ∧
    callsBy b log = callsOf tr ∧ ∀ px, r = .ok px → ∀ c, px.conns b = some c ↔ st = .live c
  maxConnection_pos : ∀ b, Admitted b log → 0 < cfg.maxConnection
  who_lt : ∀ px, r = .ok px → ∀ x ∈ log, x.who < px.accepted
  admitted : ∀ px, r = .ok px → ∀ b c, px.conns b = some c → Admitted b log

theorem Admitted.of_concat {b : ℕ} {log : List LogEntry} {e : LogEntry}
    (h : Admitted b (log ++ [e])) : Admitted b log ∨ ∃ io, e = ⟨b, .acceptNew io, []⟩ := by
  obtain ⟨io, hmem⟩ := h
  rcases List.mem_append.mp hmem with hmem | hmem
  · exact .inl ⟨io, hmem⟩
  · exact .inr ⟨io, (List.mem_singleton.mp hmem).symm⟩

theorem Admitted.concat {b : ℕ} {log : List LogEntry} (h : Admitted b log) (e : LogEntry) :
    Admitted b (log ++ [e]) := by
  obtain ⟨io, hmem⟩ := h
  exact ⟨io, List.mem_append_left _ hmem⟩

/-- An event of another connection leaves the run of a connection alone. -/
theorem Projects.frame {log : List LogEntry} {px : Proxy cfg L} {r : Except Fault (Proxy cfg L)}
    (hI : Projects log (.ok px)) {e : LogEntry} {b : ℕ} (hb : Admitted b log) (hne : e.who ≠ b)
    (hconns : ∀ px', r = .ok px' → px'.conns b = px.conns b) :
    ∃ io, ∃ tr : List (Entry cfg L), ∃ st, Run tr st ∧
      eventsBy b (log ++ [e]) = .acceptNew io :: tr.map (fun e => .fire b e.cb e.io) ∧
      callsBy b (log ++ [e]) = callsOf tr ∧
      ∀ px', r = .ok px' → ∀ c, px'.conns b = some c ↔ st = .live c := by
  obtain ⟨io, tr, st, hrun, hev, hcalls, hlive⟩ := hI.run b hb
  refine ⟨io, tr, st, hrun, ?_, ?_, fun px' hr c => ?_⟩
  · rw [eventsBy_concat, if_neg hne, List.append_nil, hev]
  · rw [callsBy_concat, if_neg hne, List.append_nil, hcalls]
  · rw [hconns px' hr]
    exact hlive px rfl c

/-- Whose events are all earlier: a newcomer has none. -/
theorem filter_who_eq_nil {log : List LogEntry} {b : ℕ} (h : ∀ x ∈ log, x.who < b) :
    log.filter (·.who = b) = [] :=
  List.filter_eq_nil_iff.mpr fun x hx => by simpa using (h x hx).ne

/-- No earlier event has a name that is still to be given. -/
theorem who_lt_concat {log : List LogEntry} {e : LogEntry} {n n' : ℕ} (h : ∀ x ∈ log, x.who < n)
    (hle : n ≤ n') (he : e.who < n') : ∀ x ∈ log ++ [e], x.who < n' := by
  intro x hx
  rcases List.mem_append.mp hx with hx | hx
  · exact (h x hx).trans_le hle
  · rw [List.mem_singleton.mp hx]
    exact he

/-- The name the next socket is given is not that of a connection admitted before. -/
theorem Projects.accepted_ne {log : List LogEntry} {px : Proxy cfg L}
    (hI : Projects log (.ok px)) {b : ℕ} (hb : Admitted b log) : px.accepted ≠ b := by
  obtain ⟨io, hmem⟩ := hb
  rintro rfl
  exact absurd (hI.who_lt px rfl _ hmem) (lt_irrefl _)

/-- A socket that is turned away uses up a name. -/
theorem Projects.turnAway {log : List LogEntry} {px : Proxy cfg L} (hI : Projects log (.ok px))
    (io : Io) (hmax : cfg.maxConnection ≤ px.connectionCount) :
    Projects (log ++ [⟨px.accepted, .acceptNew io, (px.acceptNew io).1⟩])
      (.ok (px.acceptNew io).2) := by
  simp only [Proxy.acceptNew, if_pos hmax]
  -- an admission makes no calls, and this event does
  have hadm : ∀ {calls : List Call} {b : ℕ}, calls ≠ [] →
      Admitted b (log ++ [⟨px.accepted, .acceptNew io, calls⟩]) → Admitted b log := by
    intro calls b hne hb
    rcases hb.of_concat with hb | ⟨io', he⟩
    · exact hb
    · exact absurd (LogEntry.mk.inj he).2.2 hne
  refine ⟨fun b hb => ?_, fun b hb => hI.maxConnection_pos b (hadm (by simp) hb), ?_, ?_⟩
  · have hb := hadm (by simp) hb
    exact hI.frame hb (hI.accepted_ne hb) fun px' hr => by rw [← Except.ok.inj hr]
  · rintro px' hr
    rw [← Except.ok.inj hr]
    exact who_lt_concat (hI.who_lt px rfl) (Nat.le_succ _) (Nat.lt_succ_self _)
  · rintro px' hr b c hc
    rw [← Except.ok.inj hr] at hc
    exact (hI.admitted px rfl b c hc).concat _

/-- A socket that is let in begins a run of its own. -/
theorem Projects.letIn {log : List LogEntry} {px : Proxy cfg L} (hI : Projects log (.ok px))
    (io : Io) (hmax : ¬ cfg.maxConnection ≤ px.connectionCount) :
    Projects (log ++ [⟨px.accepted, .acceptNew io, (px.acceptNew io).1⟩])
      (.ok (px.acceptNew io).2) := by
  simp only [Proxy.acceptNew, if_neg hmax]
  refine ⟨fun b hb => ?_, fun _ _ => by omega, ?_, ?_⟩
  · rcases hb.of_concat with hb | ⟨io', he⟩
    · refine hI.frame hb (hI.accepted_ne hb) fun px' hr => ?_
      rw [← Except.ok.inj hr]
      exact Function.update_of_ne (hI.accepted_ne hb).symm _ _
    · -- the newcomer has no earlier events
      obtain ⟨rfl, -, -⟩ := LogEntry.mk.inj he
      have hnil := filter_who_eq_nil (hI.who_lt px rfl)
      refine ⟨io, [], _, ⟨px.pool, px.nextId, .start⟩, ?_, ?_, fun px' hr c => ?_⟩
      · rw [eventsBy_concat, if_pos rfl, eventsBy, hnil]
        rfl
      · rw [callsBy_concat, if_pos rfl, callsBy, hnil]
        rfl
      · rw [← Except.ok.inj hr]
        simp
  · rintro px' hr
    rw [← Except.ok.inj hr]
    exact who_lt_concat (hI.who_lt px rfl) (Nat.le_succ _) (Nat.lt_succ_self _)
  · rintro px' hr b c hc
    rw [← Except.ok.inj hr] at hc
    by_cases hb : b = px.accepted
    · exact ⟨io, by simp [hb]⟩
    · simp only [Function.update_of_ne hb] at hc
      exact (hI.admitted px rfl b c hc).concat _

theorem Projects.acceptNew {log : List LogEntry} {px : Proxy cfg L}
    (hI : Projects log (.ok px)) (io : Io) :
    Projects (log ++ [⟨px.accepted, .acceptNew io, (px.acceptNew io).1⟩])
      (.ok (px.acceptNew io).2) := by
  by_cases hmax : cfg.maxConnection ≤ px.connectionCount
  · exact hI.turnAway io hmax
  · exact hI.letIn io hmax

/-- What an event of connection `b` leaves. -/
theorem settle_ok {px px' : Proxy cfg L} {b : ℕ} {e : Effect cfg L}
    (h : px.settle b e = .ok px') :
    px'.accepted = px.accepted ∧ px'.nextId = px.nextId ∧ px'.pool = e.pool ∧
      (∀ c, px'.conns b = some c ↔ e.status = .live c) ∧
      ∀ b', b' ≠ b → px'.conns b' = px.conns b' := by
  unfold settle at h
  split at h
  · next c hst =>
    rw [← Except.ok.inj h]
    exact ⟨rfl, rfl, rfl, by simp [hst], fun b' hne => Function.update_of_ne hne _ _⟩
  · next hst =>
    rw [← Except.ok.inj h]
    exact ⟨rfl, rfl, rfl, by simp [hst], fun b' hne => Function.update_of_ne hne _ _⟩
  · exact absurd h (by simp)

theorem settle_deleted {px px' : Proxy cfg L} {b : ℕ} {e : Effect cfg L}
    (h : px.settle b e = .ok px') (hst : e.status = .deleted) : px'.conns b = none := by
  rw [settle, hst] at h
  rw [← Except.ok.inj h]
  exact Function.update_self ..

/-- The process goes down just with the connection that crashes. -/
theorem settle_error_iff {px : Proxy cfg L} {b : ℕ} {e : Effect cfg L} {f : Fault} :
    px.settle b e = .error f ↔ e.status = .crashed f := by
  unfold settle
  cases e.status <;> simp

theorem Projects.fire {log : List LogEntry} {px : Proxy cfg L} {b : ℕ} {c : Connection cfg L}
    {cb : Callback} (hI : Projects log (.ok px)) (hc : px.conns b = some c)
    (hen : c.enabled cb = true) (io : Io) :
    Projects (log ++ [⟨b, .fire b cb io, (c.fire cb io px.globalBuffer px.pool).calls⟩])
      (px.settle b (c.fire cb io px.globalBuffer px.pool)) := by
  have hadm : ∀ {b' : ℕ} {calls : List Call},
      Admitted b' (log ++ [⟨b, .fire b cb io, calls⟩]) → Admitted b' log := by
    intro b' calls hb'
    rcases hb'.of_concat with hb' | ⟨io', he⟩
    · exact hb'
    · exact absurd (LogEntry.mk.inj he).2.1 (by simp)
  refine ⟨fun b' hb' => ?_, fun b' hb' => hI.maxConnection_pos b' (hadm hb'), ?_, ?_⟩
  · by_cases hne : b = b'
    · subst hne
      obtain ⟨io₀, tr, st, hrun, hev, hcalls, hlive⟩ := hI.run b (hadm hb')
      obtain rfl := (hlive px rfl c).mp hc
      obtain ⟨pool, id, hrun⟩ := hrun
      refine ⟨io₀, _, _, ⟨pool, id, hrun.fire io px.globalBuffer px.pool hen⟩, ?_, ?_, ?_⟩
      · rw [eventsBy_concat, if_pos rfl, hev]
        simp
      · rw [callsBy_concat, if_pos rfl, hcalls, callsOf_append, callsOf_singleton]
      · exact fun px' hr => (settle_ok hr).2.2.2.1
    · exact hI.frame (hadm hb') hne fun px' hr => (settle_ok hr).2.2.2.2 b' (Ne.symm hne)
  · rintro px' hr
    obtain ⟨io₀, hmem⟩ := hI.admitted px rfl b c hc
    have hb : b < px.accepted := hI.who_lt px rfl _ hmem
    rw [(settle_ok hr).1]
    exact who_lt_concat (hI.who_lt px rfl) le_rfl hb
  · rintro px' hr b' c' hc'
    by_cases hne : b' = b
    · subst hne
      exact (hI.admitted px rfl b' c hc).concat _
    · rw [(settle_ok hr).2.2.2.2 b' hne] at hc'
      exact (hI.admitted px rfl b' c' hc').concat _

/-- What an event of the process is. -/
theorem step_cases {px : Proxy cfg L} {ev : Event} {who : ℕ} {calls : List Call}
    {r : Except Fault (Proxy cfg L)} (h : px.step ev = some (who, calls, r)) :
    (∃ io, ev = .acceptNew io ∧ who = px.accepted ∧ calls = (px.acceptNew io).1 ∧
      r = .ok (px.acceptNew io).2) ∨
    ∃ b c cb io, ev = .fire b cb io ∧ px.conns b = some c ∧ c.enabled cb = true ∧ who = b ∧
      calls = (c.fire cb io px.globalBuffer px.pool).calls ∧
      r = px.settle b (c.fire cb io px.globalBuffer px.pool) := by
  cases ev with
  | acceptNew io =>
    simp only [step, Option.some.injEq, Prod.mk.injEq] at h
    exact .inl ⟨io, rfl, h.1.symm, h.2.1.symm, h.2.2.symm⟩
  | fire b cb io =>
    unfold step at h
    simp only at h
    split at h
    · next c hc =>
      split at h
      · next hen =>
        simp only [Option.some.injEq, Prod.mk.injEq] at h
        exact .inr ⟨b, c, cb, io, rfl, hc, hen, h.1.symm, h.2.1.symm, h.2.2.symm⟩
      · exact absurd h (by simp)
    · exact absurd h (by simp)

/-- The events of each connection of an execution are a run of that connection. -/
theorem RunFrom.projects {n : ℕ} {log : List LogEntry} {r : Except Fault (Proxy cfg L)}
    (h : RunFrom (Proxy.start cfg L n) log r) : Projects log r := by
  induction h with
  | start =>
    refine ⟨?_, ?_, ?_, ?_⟩
    · rintro b ⟨io, hmem⟩
      exact absurd hmem (by simp)
    · rintro b ⟨io, hmem⟩
      exact absurd hmem (by simp)
    · exact fun px hr x hx => absurd hx (by simp)
    · rintro px hr b c hc
      rw [← Except.ok.inj hr] at hc
      exact absurd hc (by simp [Proxy.start])
  | @step log px ev who calls r _ hstep ih =>
    rcases step_cases hstep with
      ⟨io, rfl, rfl, rfl, rfl⟩ | ⟨b, c, cb, io, rfl, hc, hen, rfl, rfl, rfl⟩
    · exact ih.acceptNew io
    · exact ih.fire hc hen io

end Proxy

/-! ### A connection alone -/

/-- The process with no other connection, started with an empty pool, has done the same on the
sockets of its connection, which is in the same session. -/
def RunsAlone (io₀ : Io) (tr : List (Entry cfg L)) (out : Outcome cfg L) : Prop :=
  ∃ log r, Proxy.RunFrom (Proxy.start cfg L 0) log r ∧
    log.map (·.ev) = .acceptNew io₀ :: tr.map (fun e => .fire 0 e.cb e.io) ∧
    Proxy.callsBy 0 log = callsOf tr ∧
    ∀ s, out = .live s → ∃ px c, r = .ok px ∧ px.conns 0 = some c ∧ Rep s c

theorem runsAlone_init (hmax : 0 < cfg.maxConnection) (io₀ : Io) :
    RunsAlone io₀ [] (.live (Session.initial cfg L)) := by
  have hstep : (Proxy.start cfg L 0).step (.acceptNew io₀) = some (0, [],
      .ok ((Proxy.start cfg L 0).acceptNew io₀).2) := by
    simp [Proxy.step, Proxy.acceptNew, Proxy.start, hmax.ne']
  refine ⟨_, _, .step .start hstep, rfl, rfl, fun s hs => ?_⟩
  obtain rfl := Outcome.live.inj hs
  refine ⟨_, (Connection.acceptNew L [] 0).1, rfl, ?_, represents_acceptNew [] 0⟩
  simp [Proxy.acceptNew, Proxy.start, hmax.ne']

theorem RunsAlone.step {io₀ : Io} {tr : List (Entry cfg L)} {s : Session cfg L}
    {c : Connection cfg L} {cb : Callback} {io : Io} {calls : List Call} {out : Outcome cfg L}
    (h : RunsAlone io₀ tr (.live s)) (hstep : Step s cb io calls out) :
    RunsAlone io₀ (tr ++ [⟨c, cb, io, calls⟩]) out := by
  obtain ⟨log, r, hrun, hev, hcalls, hlive⟩ := h
  obtain ⟨px, c', rfl, hc', hrep'⟩ := hlive s rfl
  have hen := hstep.enabled hrep'
  obtain ⟨out', hstep', hout'⟩ := fire_step hrep' hen io px.globalBuffer px.pool
  -- the session decides what is done
  obtain ⟨rfl, rfl⟩ := hstep.unique hstep'
  have hfire : px.step (.fire 0 cb io) = some (0, (c'.fire cb io px.globalBuffer px.pool).calls,
      px.settle 0 (c'.fire cb io px.globalBuffer px.pool)) := by
    simp [Proxy.step, hc', hen]
  refine ⟨_, _, .step hrun hfire, by simp [hev], ?_, ?_⟩
  · rw [Proxy.callsBy_concat, if_pos rfl, hcalls, callsOf_append, callsOf_singleton]
  · rintro s' rfl
    cases hst : (c'.fire cb io px.globalBuffer px.pool).status with
    | live c'' =>
      rw [hst] at hout'
      obtain ⟨px', hr⟩ : ∃ px', px.settle 0 (c'.fire cb io px.globalBuffer px.pool) = .ok px' :=
        ⟨_, by rw [Proxy.settle, hst]⟩
      exact ⟨px', c'', hr, ((Proxy.settle_ok hr).2.2.2.1 c'').mpr hst, hout'⟩
    | deleted =>
      rw [hst] at hout'
      exact hout'.elim
    | crashed f =>
      rw [hst] at hout'
      exact hout'.elim

/-- **A run of a connection can be had alone**: without other connections, from an empty pool and
with the same results of the system calls, the process does the same on its sockets. -/
theorem Run.alone {tr : List (Entry cfg L)} {st : Status cfg L} (h : Run tr st)
    (hmax : 0 < cfg.maxConnection) (io₀ : Io) :
    ∃ log r, Proxy.RunFrom (Proxy.start cfg L 0) log r ∧
      log.map (·.ev) = .acceptNew io₀ :: tr.map (fun e => .fire 0 e.cb e.io) ∧
      Proxy.callsBy 0 log = callsOf tr := by
  obtain ⟨out, -, log, r, hrun, hev, hcalls, -⟩ := h.invariant
    (I := fun tr out => RunsAlone io₀ tr out) (runsAlone_init hmax io₀)
    (fun hI _ hstep => hI.step hstep)
  exact ⟨log, r, hrun, hev, hcalls⟩

/-! ### Whose history is it -/

/-- The history buffer of a connection, by identity. -/
def Connection.histIds (c : Connection cfg L) : List ℕ :=
  (c.client.requestHistory.map (·.id)).toList

/-- An event makes no history buffer appear: those of the pool and of the connection were there
before. -/
theorem fire_histIds {s : Session cfg L} {c : Connection cfg L} {cb : Callback} (hrep : Rep s c)
    (hen : c.enabled cb = true) (io : Io) (g : Scratch cfg.sockIoBufSize)
    (pool : List (Hist cfg)) :
    (∀ c', (c.fire cb io g pool).status = .live c' →
      ((c.fire cb io g pool).pool.map (·.id) ++ c'.histIds).Sublist
        (pool.map (·.id) ++ c.histIds)) ∧
    ((c.fire cb io g pool).status = .deleted →
      ((c.fire cb io g pool).pool.map (·.id)).Sublist (pool.map (·.id) ++ c.histIds)) := by
  obtain ⟨calls, out, -, ha⟩ := callback_refines hrep hen g pool [] io
  unfold Connection.fire
  unfold Agrees at ha
  split at ha
  · next w hrun =>
    rw [hrun]
    refine ⟨?_, fun h => absurd h (by simp [Effect.of])⟩
    rintro c' hst
    obtain rfl := Status.live.inj hst
    exact ha.2.2
  · next w hrun =>
    rw [hrun]
    refine ⟨fun c' h => absurd h (by simp [Effect.of]), fun _ => ?_⟩
    exact (List.sublist_append_left _ _).trans ha.2
  · next hrun =>
    rw [hrun]
    exact ⟨fun c' h => absurd h (by simp [Effect.of]), fun h => absurd h (by simp [Effect.of])⟩
  · exact ha.elim

namespace Proxy

/-- Every history buffer is in the pool once, or belongs to one client. -/
structure Owned (px : Proxy cfg L) : Prop where
  rep : ∀ b c, px.conns b = some c → ∃ s, Rep s c
  pool_nodup : (px.pool.map (·.id)).Nodup
  not_pooled : ∀ b c, px.conns b = some c → ∀ i ∈ c.histIds, i ∉ px.pool.map (·.id)
  apart : ∀ b b' c c', px.conns b = some c → px.conns b' = some c' → b ≠ b' →
    ∀ i ∈ c.histIds, i ∉ c'.histIds
  pool_lt : ∀ i ∈ px.pool.map (·.id), i < px.nextId
  held_lt : ∀ b c, px.conns b = some c → ∀ i ∈ c.histIds, i < px.nextId

theorem owned_start (n : ℕ) : (start cfg L n).Owned := by
  have hids : (start cfg L n).pool.map (·.id) = List.range n := by
    simp [start, Function.comp_def]
  refine ⟨?_, ?_, ?_, ?_, ?_, ?_⟩
  · exact fun b c hc => absurd hc (by simp [start])
  · rw [hids]
    exact List.nodup_range
  · exact fun b c hc => absurd hc (by simp [start])
  · exact fun b b' c c' hc => absurd hc (by simp [start])
  · rw [hids]
    exact fun i hi => List.mem_range.mp hi
  · exact fun b c hc => absurd hc (by simp [start])

/-- The identities of the pool and of the history a new client is given. -/
theorem acceptNew_ids (pool : List (Hist cfg)) (id : ℕ) :
    (∃ i, (Connection.acceptNew L pool id).1.histIds = [i] ∧
      pool.map (·.id) = i :: (Connection.acceptNew L pool id).2.map (·.id)) ∨
    (pool = [] ∧ (Connection.acceptNew L pool id).1.histIds = [id] ∧
      (Connection.acceptNew L pool id).2 = []) := by
  cases pool with
  | nil => exact .inr ⟨rfl, rfl, rfl⟩
  | cons h pool => exact .inl ⟨h.id, rfl, rfl⟩

/-- An event of connection `b` keeps the buffers apart, if it keeps those of the pool and of `b`
apart from each other and takes none from the other connections. -/
theorem Owned.of_frame {px px' : Proxy cfg L} (h : px.Owned) (b : ℕ)
    (hframe : ∀ b', b' ≠ b → px'.conns b' = px.conns b') (hnext : px.nextId ≤ px'.nextId)
    (hnodup : (px'.pool.map (·.id)).Nodup) (hlt : ∀ i ∈ px'.pool.map (·.id), i < px'.nextId)
    (hpool : ∀ b' c', b' ≠ b → px.conns b' = some c' → ∀ i ∈ c'.histIds,
      i ∉ px'.pool.map (·.id))
    (hconn : ∀ c, px'.conns b = some c → (∃ s, Rep s c) ∧
      (∀ i ∈ c.histIds, i ∉ px'.pool.map (·.id) ∧ i < px'.nextId) ∧
      ∀ b' c', b' ≠ b → px.conns b' = some c' → ∀ i ∈ c.histIds, i ∉ c'.histIds) :
    px'.Owned := by
  refine ⟨fun b' c' hc' => ?_, hnodup, fun b' c' hc' i hi => ?_,
    fun b₁ b₂ c₁ c₂ h₁ h₂ hne i hi => ?_, hlt, fun b' c' hc' i hi => ?_⟩
  · by_cases hb : b' = b
    · exact (hconn c' (hb ▸ hc')).1
    · exact h.rep b' c' (hframe b' hb ▸ hc')
  · by_cases hb : b' = b
    · exact ((hconn c' (hb ▸ hc')).2.1 i hi).1
    · exact hpool b' c' hb (hframe b' hb ▸ hc') i hi
  · -- two connections, at most one of them `b`
    by_cases hb₁ : b₁ = b
    · subst hb₁
      exact (hconn c₁ h₁).2.2 b₂ c₂ hne.symm (hframe b₂ hne.symm ▸ h₂) i hi
    · by_cases hb₂ : b₂ = b
      · subst hb₂
        exact fun hmem => (hconn c₂ h₂).2.2 b₁ c₁ hne (hframe b₁ hne ▸ h₁) i hmem hi
      · exact h.apart b₁ b₂ c₁ c₂ (hframe b₁ hb₁ ▸ h₁) (hframe b₂ hb₂ ▸ h₂) hne i hi
  · by_cases hb : b' = b
    · exact ((hconn c' (hb ▸ hc')).2.1 i hi).2
    · exact (h.held_lt b' c' (hframe b' hb ▸ hc') i hi).trans_le hnext

theorem Owned.acceptNew {px : Proxy cfg L} (h : px.Owned) (io : Io) :
    (px.acceptNew io).2.Owned := by
  unfold Proxy.acceptNew
  split
  · exact ⟨h.rep, h.pool_nodup, h.not_pooled, h.apart, h.pool_lt, h.held_lt⟩
  · -- the pool shrinks, and the newcomer takes what it gave or a new buffer
    have hsub : ((Connection.acceptNew L px.pool px.nextId).2.map (·.id)).Sublist
        (px.pool.map (·.id)) := by
      rcases acceptNew_ids (L := L) px.pool px.nextId with ⟨j, -, hpool⟩ | ⟨-, -, hpool⟩
      · rw [hpool]
        exact List.sublist_cons_self _ _
      · rw [hpool]
        exact List.nil_sublist _
    refine h.of_frame px.accepted (fun b hb => Function.update_of_ne hb _ _) (Nat.le_succ _)
      (h.pool_nodup.sublist hsub) (fun i hi => Nat.lt_succ_of_lt (h.pool_lt i (hsub.subset hi)))
      (fun b c _ hc i hi hmem => h.not_pooled b c hc i hi (hsub.subset hmem)) fun c hc => ?_
    obtain rfl : _ = c := by simpa using hc
    refine ⟨⟨_, represents_acceptNew px.pool px.nextId⟩, ?_⟩
    rcases acceptNew_ids (L := L) px.pool px.nextId with ⟨j, hj, hpool⟩ | ⟨-, hj, hpool⟩
    · -- the newcomer takes the first buffer of the pool
      have hnodup := h.pool_nodup
      rw [hpool, List.nodup_cons] at hnodup
      have hmem : j ∈ px.pool.map (·.id) := by
        rw [hpool]
        exact List.mem_cons_self
      refine ⟨fun i hi => ?_, fun b c _ hc i hi hheld => ?_⟩
      · rw [hj, List.mem_singleton] at hi
        exact ⟨hi ▸ hnodup.1, hi ▸ Nat.lt_succ_of_lt (h.pool_lt j hmem)⟩
      · rw [hj, List.mem_singleton] at hi
        exact h.not_pooled b c hc i hheld (hi ▸ hmem)
    · -- or one that is new
      refine ⟨fun i hi => ?_, fun b c _ hc i hi hheld => ?_⟩
      · rw [hj, List.mem_singleton] at hi
        exact ⟨by simp [hpool], hi ▸ Nat.lt_succ_self _⟩
      · rw [hj, List.mem_singleton] at hi
        exact absurd (h.held_lt b c hc i hheld) (hi ▸ lt_irrefl _)

/-- What was done to connection `b` keeps the buffers apart, if those it leaves in the pool and with
the connection are among those it found there. -/
theorem Owned.settle {px px' : Proxy cfg L} (h : px.Owned) {b : ℕ} {c : Connection cfg L}
    {e : Effect cfg L} (hc : px.conns b = some c) (hr : px.settle b e = .ok px')
    (hrep : ∀ c', e.status = .live c' → ∃ s, Rep s c')
    (hlive : ∀ c', e.status = .live c' →
      (e.pool.map (·.id) ++ c'.histIds).Sublist (px.pool.map (·.id) ++ c.histIds))
    (hdel : e.status = .deleted →
      (e.pool.map (·.id)).Sublist (px.pool.map (·.id) ++ c.histIds)) : px'.Owned := by
  obtain ⟨-, hnext, hpool, hconn, hframe⟩ := settle_ok hr
  -- what is in the pool or with the connection was there before
  have hold : (px.pool.map (·.id) ++ c.histIds).Nodup := by
    refine h.pool_nodup.append ?_ fun i hi hi' => h.not_pooled b c hc i hi' hi
    unfold Connection.histIds
    cases c.client.requestHistory <;> simp
  have hlt : ∀ i ∈ px.pool.map (·.id) ++ c.histIds, i < px'.nextId := by
    intro i hi
    rw [hnext]
    rcases List.mem_append.mp hi with hi | hi
    · exact h.pool_lt i hi
    · exact h.held_lt b c hc i hi
  have hother : ∀ b' c', b' ≠ b → px.conns b' = some c' → ∀ i ∈ c'.histIds,
      i ∉ px.pool.map (·.id) ++ c.histIds := by
    intro b' c' hne hc' i hi hmem
    rcases List.mem_append.mp hmem with hmem | hmem
    · exact h.not_pooled b' c' hc' i hi hmem
    · exact h.apart b' b c' c hc' hc hne i hi hmem
  have hsub : (px'.pool.map (·.id)).Sublist (px.pool.map (·.id) ++ c.histIds) := by
    rw [hpool]
    cases hst : e.status with
    | live c' => exact (List.sublist_append_left _ _).trans (hlive c' hst)
    | deleted => exact hdel hst
    | crashed f => exact absurd hr (by rw [Proxy.settle, hst]; simp)
  refine h.of_frame b hframe hnext.ge (hold.sublist hsub) (fun i hi => hlt i (hsub.subset hi))
    (fun b' c' hne hc' i hi hmem => hother b' c' hne hc' i hi (hsub.subset hmem)) fun c' hc' => ?_
  have hst := (hconn c').mp hc'
  have hids := hlive c' hst
  rw [← hpool] at hids
  have hmine : ∀ i ∈ c'.histIds, i ∈ px.pool.map (·.id) ++ c.histIds := fun i hi =>
    hids.subset (List.mem_append_right _ hi)
  refine ⟨hrep c' hst, fun i hi => ⟨fun hmem => ?_, hlt i (hmine i hi)⟩,
    fun b' c'' hne hc'' i hi hmem => hother b' c'' hne hc'' i hmem (hmine i hi)⟩
  exact List.disjoint_of_nodup_append (hold.sublist hids) hmem hi

theorem Owned.fire {px px' : Proxy cfg L} (h : px.Owned) {b : ℕ} {c : Connection cfg L}
    {cb : Callback} {io : Io} (hc : px.conns b = some c) (hen : c.enabled cb = true)
    (hr : px.settle b (c.fire cb io px.globalBuffer px.pool) = .ok px') : px'.Owned := by
  obtain ⟨s, hrep⟩ := h.rep b c hc
  obtain ⟨hlive, hdel⟩ := fire_histIds hrep hen io px.globalBuffer px.pool
  obtain ⟨out, -, hout⟩ := fire_step hrep hen io px.globalBuffer px.pool
  refine h.settle hc hr (fun c' hst => ?_) hlive hdel
  rw [hst] at hout
  obtain ⟨s', -, hrep'⟩ := hout.live
  exact ⟨s', hrep'⟩

theorem RunFrom.owned {n : ℕ} {log : List LogEntry} {r : Except Fault (Proxy cfg L)}
    (h : RunFrom (Proxy.start cfg L n) log r) : ∀ px, r = .ok px → px.Owned := by
  induction h with
  | start =>
    rintro px hr
    rw [← Except.ok.inj hr]
    exact owned_start n
  | @step log px ev who calls r _ hstep ih =>
    rintro px' rfl
    rcases step_cases hstep with ⟨io, rfl, rfl, -, hr⟩ | ⟨b, c, cb, io, rfl, hc, hen, rfl, -, hr⟩
    · rw [Except.ok.inj hr]
      exact (ih px rfl).acceptNew io
    · exact (ih px rfl).fire hc hen hr.symm

theorem Owned.not_held_twice {px : Proxy cfg L} (h : px.Owned) {b b' : ℕ} {c c' : Connection cfg L}
    {x x' : Hist cfg} (hc : px.conns b = some c) (hc' : px.conns b' = some c')
    (hx : c.client.requestHistory = some x) (hx' : c'.client.requestHistory = some x')
    (hid : x.id = x'.id) : b = b' := by
  by_contra hne
  refine h.apart b b' c c' hc hc' hne x.id (by simp [Connection.histIds, hx]) ?_
  simp [Connection.histIds, hx', hid]

end Proxy

/-- A history with empty content reads as empty. -/
theorem Hybridbuf.At.fetch_nil {cache : ℕ} {h : Hybridbuf cache} (hat : h.At [] 0)
    (hcache : cache < 2 ^ 32) (m : ℕ) : (h.fetch m).2 = [] := by
  rcases Nat.eq_zero_or_pos m with rfl | hm
  · exact List.eq_nil_of_length_eq_zero (Nat.le_zero.mp (h.fetch_length_le 0))
  · rw [(hat.fetch hcache hm).1]
    exact chunk_end cache m []

/-- The history of a new client reads as empty, whichever buffer it was given. -/
theorem acceptNew_history (pool : List (Hist cfg)) (id m : ℕ) :
    ∃ h, (Connection.acceptNew L pool id).1.client.requestHistory = some h ∧
      (h.buf.fetch m).2 = [] := by
  cases pool with
  | nil => exact ⟨_, rfl, Hybridbuf.new_at.fetch_nil cfg.histCacheSize_lt m⟩
  | cons h pool => exact ⟨_, rfl, (Hybridbuf.clear_at h.buf).fetch_nil cfg.histCacheSize_lt m⟩

/-- **Connections are isolated.** What is done on the sockets of a connection is what its own
events do alone, with the same results of the system calls and starting from no history buffers at
all. No history buffer is in the pool twice, in the pool and with a client, or with two clients;
and that of a new client reads as empty. -/
theorem isolation {n : ℕ} {log : List Proxy.LogEntry} {r : Except Fault (Proxy cfg L)}
    (h : Proxy.RunFrom (Proxy.start cfg L n) log r) :
    (∀ b, Proxy.Admitted b log → ∃ log' r', Proxy.RunFrom (Proxy.start cfg L 0) log' r' ∧
      log'.map (·.ev) = (Proxy.eventsBy b log).map (·.rename 0) ∧
      Proxy.callsBy 0 log' = Proxy.callsBy b log) ∧
    ∀ px, r = .ok px →
      (px.pool.map (·.id)).Nodup ∧
      (∀ b c x, px.conns b = some c → c.client.requestHistory = some x →
        x.id ∉ px.pool.map (·.id)) ∧
      (∀ b b' c c' x x', px.conns b = some c → px.conns b' = some c' →
        c.client.requestHistory = some x → c'.client.requestHistory = some x' →
        x.id = x'.id → b = b') ∧
      ∀ io c m, (px.acceptNew io).2.conns px.accepted = some c →
        ∃ x, c.client.requestHistory = some x ∧ (x.buf.fetch m).2 = [] := by
  have hproj := h.projects
  refine ⟨fun b hb => ?_, ?_⟩
  · obtain ⟨io, tr, st, hrun, hev, hcalls, -⟩ := hproj.run b hb
    -- the run of `b` on its own, as the only connection of a process
    obtain ⟨log', r', hrun', hev', hcalls'⟩ := hrun.alone (hproj.maxConnection_pos b hb) io
    refine ⟨log', r', hrun', ?_, hcalls'.trans hcalls.symm⟩
    rw [hev', hev]
    simp [Proxy.Event.rename, Function.comp_def]
  · rintro px rfl
    have hown := h.owned px rfl
    refine ⟨hown.pool_nodup, fun b c x hc hx => ?_,
      fun b b' c c' x x' hc hc' hx hx' hid => hown.not_held_twice hc hc' hx hx' hid,
      fun io c m hc => ?_⟩
    · exact hown.not_pooled b c hc x.id (by simp [Connection.histIds, hx])
    · -- the name of the newcomer was not in use
      have hnone : px.conns px.accepted = none := by
        cases hold : px.conns px.accepted with
        | none => rfl
        | some c' => exact absurd rfl (hproj.accepted_ne (hproj.admitted px rfl _ c' hold))
      unfold Proxy.acceptNew at hc
      split at hc
      · rw [hnone] at hc
        exact absurd hc (by simp)
      · obtain rfl : _ = c := by simpa using hc
        exact acceptNew_history px.pool px.nextId m

/-- A client leaves after half a request, the next one is given its history buffer, and a third one
works in between: the server of the second is sent the request the second made. -/
theorem isolation_recycled :
    ∃ (log : List Proxy.LogEntry) (r : Except Fault (Proxy .shipped .bodiless)),
      Proxy.RunFrom (Proxy.start .shipped .bodiless 1) log r ∧
      .serverWrite (ascii "GET /b HTTP/1.1\r\n\r\n") ∈ Proxy.callsBy 1 log ∧
      ∃ log' r', Proxy.RunFrom (Proxy.start .shipped .bodiless 0) log' r' ∧
        log'.map (·.ev) = (Proxy.eventsBy 1 log).map (·.rename 0) ∧
        Proxy.callsBy 0 log' = Proxy.callsBy 1 log := by
  obtain ⟨log, r, hrun, hlog⟩ := Proxy.exists_run (L := .bodiless) 1
    [.acceptNew {},
      .fire 0 .clientReadable
        { clientReads := [.data (ascii "GET /a")], serverWrites := [.wrote 6] },
      .fire 0 .clientReadable { clientReads := [.data []] },
      .acceptNew {},
      .acceptNew {},
      .fire 1 .clientReadable
        { clientReads := [.data (ascii "GET")], serverWrites := [.wrote 3] },
      .fire 2 .clientReadable { clientReads := [.data (ascii "GET /c")] },
      .fire 1 .slowSwitch {},
      .fire 1 (.serverReadable true) {},
      .fire 1 .clientReadable { clientReads := [.data (ascii " /b HTTP/1.1\r\n\r\n")] },
      .fire 1 .serverWritable { serverWrites := [.wrote 19] }]
    (fun log (_ : Except Fault (Proxy .shipped _)) =>
      log.any (·.admits 1) &&
        (Proxy.callsBy 1 log).contains (.serverWrite (ascii "GET /b HTTP/1.1\r\n\r\n")))
    (by decide +kernel)
  rw [Bool.and_eq_true, List.contains_iff_mem] at hlog
  exact ⟨log, r, hrun, hlog.2, (isolation hrun).1 1 (.of_any hlog.1)⟩

end LSProxy
