import LSProxy.Model.Runs

/-!
# The process

All connections of the proxy together, with what they share: the scratch buffer, the pool of
history buffers and the number of connections. The event loop runs one callback at a time, so an
execution is a sequence of events: `accept_new`, or a callback of some connection. A tick of
`monitor_data_rates`, and the timer behind `SIGUSR1`, are sequences of the callbacks `monitor` and
`slowSwitch` of the connections they visit.

A connection is named by the number of the `accept` that made it. `Proxy.RunFrom` is an execution
with its log: who each event belongs to, and what was done on the sockets of that connection;
`Proxy.exec` runs a list of events.
-/

namespace LSProxy

/-- The state of the process. `accepted` counts the sockets accepted so far, and `nextId` names the
next Hybridbuf to be allocated. -/
structure Proxy (cfg : Config) (L : Llhttp) where
  globalBuffer : Scratch cfg.sockIoBufSize
  pool : List (Hist cfg)
  nextId : ℕ
  connectionCount : ℕ := 0
  accepted : ℕ := 0
  conns : ℕ → Option (Connection cfg L) := fun _ => none

namespace Proxy

variable {cfg : Config} {L : Llhttp}

/-- The process when the event loop starts, with `n` Hybridbufs allocated beforehand; `main`
allocates `MAX_HYBRID_POOL` of them. -/
def start (cfg : Config) (L : Llhttp) (n : ℕ) : Proxy cfg L :=
  { globalBuffer := .zero _, pool := (List.range n).map fun i => ⟨i, .new _⟩, nextId := n }

/-- What the event loop does next. -/
inductive Event
  | acceptNew (io : Io)
  | fire (who : ℕ) (cb : Callback) (io : Io)

/-- The event, belonging to connection `b`. -/
def Event.rename (b : ℕ) : Event → Event
  | .acceptNew io => .acceptNew io
  | .fire _ cb io => .fire b cb io

/-- `Connection::accept_new`. -/
def acceptNew (px : Proxy cfg L) (io : Io) : List Call × Proxy cfg L :=
  if cfg.maxConnection ≤ px.connectionCount then
    -- max connection reached
    ([.page503 (writeAll io.clientWrites (unavailable503 cfg)).data, .closeClient],
      { px with
        globalBuffer := (px.globalBuffer.put (unavailable503 cfg)
          (unavailable503_length_le cfg)).drain io.clientClose
        accepted := px.accepted + 1 })
  else
    ([], { px with
      pool := (Connection.acceptNew L px.pool px.nextId).2
      nextId := px.nextId + 1
      connectionCount := px.connectionCount + 1
      accepted := px.accepted + 1
      conns := Function.update px.conns px.accepted
        (some (Connection.acceptNew L px.pool px.nextId).1) })

/-- What an event leaves, `f` being the fault that takes the process down. -/
def settle (px : Proxy cfg L) (b : ℕ) (e : Effect cfg L) : Except Fault (Proxy cfg L) :=
  match e.status with
  | .live conn => .ok { px with
      globalBuffer := e.globalBuffer
      pool := e.pool
      conns := Function.update px.conns b (some conn) }
  | .deleted => .ok { px with
      globalBuffer := e.globalBuffer
      pool := e.pool
      connectionCount := px.connectionCount - 1
      conns := Function.update px.conns b none }
  | .crashed f => .error f

/-- One event: the connection it belongs to, the calls on its sockets and the process afterwards;
`none` when the event cannot happen. -/
def step (px : Proxy cfg L) : Event → Option (ℕ × List Call × Except Fault (Proxy cfg L))
  | .acceptNew io => some (px.accepted, (px.acceptNew io).1, .ok (px.acceptNew io).2)
  | .fire b cb io =>
    match px.conns b with
    | some conn =>
      if conn.enabled cb then
        some (b, (conn.fire cb io px.globalBuffer px.pool).calls,
          px.settle b (conn.fire cb io px.globalBuffer px.pool))
      else none
    | none => none

/-- One line of the log. -/
structure LogEntry where
  who : ℕ
  ev : Event
  calls : List Call

/-- An execution from the state `px₀` on: its log, and the state at its end. -/
inductive RunFrom (px₀ : Proxy cfg L) : List LogEntry → Except Fault (Proxy cfg L) → Prop
  | start : RunFrom px₀ [] (.ok px₀)
  | step {log : List LogEntry} {px : Proxy cfg L} {ev : Event} {who : ℕ} {calls : List Call}
      {r : Except Fault (Proxy cfg L)} (h : RunFrom px₀ log (.ok px))
      (hstep : px.step ev = some (who, calls, r)) : RunFrom px₀ (log ++ [⟨who, ev, calls⟩]) r

/-- The events of connection `b`. -/
def eventsBy (b : ℕ) (log : List LogEntry) : List Event :=
  (log.filter (·.who = b)).map (·.ev)

/-- What was done on the sockets of connection `b`. -/
def callsBy (b : ℕ) (log : List LogEntry) : List Call :=
  (log.filter (·.who = b)).flatMap (·.calls)

/-- The socket `b` was accepted and became a connection. -/
def Admitted (b : ℕ) (log : List LogEntry) : Prop := ∃ io, ⟨b, .acceptNew io, []⟩ ∈ log

/-! ### Logs -/

/-- The entry is the event that makes socket `b` a connection. -/
def LogEntry.admits (b : ℕ) (e : LogEntry) : Bool :=
  match e with
  | ⟨who, .acceptNew _, []⟩ => who == b
  | _ => false

theorem Admitted.of_any {b : ℕ} {log : List LogEntry} (h : log.any (·.admits b) = true) :
    Admitted b log := by
  obtain ⟨e, hmem, he⟩ := List.any_eq_true.mp h
  unfold LogEntry.admits at he
  split at he
  · next who io =>
    obtain rfl := beq_iff_eq.mp he
    exact ⟨io, hmem⟩
  · exact absurd he (by simp)

theorem eventsBy_concat (b : ℕ) (log : List LogEntry) (e : LogEntry) :
    eventsBy b (log ++ [e]) = eventsBy b log ++ if e.who = b then [e.ev] else [] := by
  unfold eventsBy
  split <;> simp [*]

theorem callsBy_concat (b : ℕ) (log : List LogEntry) (e : LogEntry) :
    callsBy b (log ++ [e]) = callsBy b log ++ if e.who = b then e.calls else [] := by
  unfold callsBy
  split <;> simp [*]

/-- Run a list of events; `none` when one of them cannot happen. -/
def exec (px : Proxy cfg L) : List Event → Option (List LogEntry × Except Fault (Proxy cfg L))
  | [] => some ([], .ok px)
  | ev :: rest =>
    match px.step ev with
    | some (who, calls, .ok px') => (exec px' rest).map fun r => (⟨who, ev, calls⟩ :: r.1, r.2)
    | some (who, calls, .error f) =>
      if rest.isEmpty then some ([⟨who, ev, calls⟩], .error f) else none
    | none => none

theorem run_of_exec {px₀ px : Proxy cfg L} {log log' : List LogEntry}
    {r : Except Fault (Proxy cfg L)} {events : List Event} (h : RunFrom px₀ log (.ok px))
    (hex : px.exec events = some (log', r)) : RunFrom px₀ (log ++ log') r := by
  induction events generalizing px log log' with
  | nil =>
    obtain ⟨rfl, rfl⟩ := Prod.mk.inj (Option.some.inj hex)
    simpa using h
  | cons ev rest ih =>
    unfold exec at hex
    split at hex
    · next who calls px' hstep =>
      obtain ⟨⟨log₁, r₁⟩, hex₁, heq⟩ := Option.map_eq_some_iff.mp hex
      obtain ⟨rfl, rfl⟩ := Prod.mk.inj heq
      simpa using ih (.step h hstep) hex₁
    · next who calls f hstep =>
      split at hex
      · obtain ⟨rfl, rfl⟩ := Prod.mk.inj (Option.some.inj hex)
        exact .step h hstep
      · exact absurd hex (by simp)
    · exact absurd hex (by simp)

/-- A property that can be computed is found of an execution by computing one. -/
theorem exists_run (n : ℕ) (events : List Event)
    (f : List LogEntry → Except Fault (Proxy cfg L) → Bool)
    (h : ((start cfg L n).exec events).any (fun r => f r.1 r.2) = true) :
    ∃ log r, RunFrom (start cfg L n) log r ∧ f log r = true := by
  obtain ⟨⟨log, r⟩, hex, hf⟩ := (Option.any_eq_true ..).mp h
  exact ⟨log, r, by simpa using run_of_exec .start hex, hf⟩

end Proxy

end LSProxy
