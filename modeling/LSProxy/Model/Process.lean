import Mathlib.Data.Finset.Image
import LSProxy.Model.Proxy

/-!
# The process and its tables

What the connections leave behind in the process: the open file descriptors, the events allocated
with libevent, and the objects that hold them. A descriptor or an event is named after the object
it was made for and never named twice, although the kernel and the allocator reuse numbers and
addresses. So an event that has been freed can be told from a later one at the same address.

* `Object` — the objects that hold descriptors and events, with what their destructors close;
* `Table` — what there is, and the operations of the source on it;
* `Process.callback` — one callback of a connection: the calls on its sockets are what creates and
  destroys its server and its client, `set_slow_mode` opens the slow buffers, and a Hybridbuf is
  destroyed with the last `shared_ptr` to it;
* `Process.step` — one event of the process. A signal comes between two callbacks.

Descriptors that a function opens and closes again, as `reply_with_503_unavailable` does with the
error page, are not seen between callbacks. Allocations and the system calls that make a descriptor
or empty a file do not fail: where `accept`, `evutil_make_socket_nonblocking`, `socket`, `mkstemp`,
`open`, `fstat` or `ftruncate` does, the source gives up with `ERROR_EXIT`, and the execution ends
there.
-/

namespace LSProxy

/-! ### Names -/

/-- The descriptors that are open when the event loop starts. -/
inductive Startup
  | stdin
  | stdout
  | stderr
  | masterSock
  | eventBase (k : Fin 3)
  deriving DecidableEq, Repr

/-- A file descriptor. The sockets and buffer files of a client are named by its connection, a
server socket also by its number among all server sockets, a Hybridbuf by its identity. -/
inductive Fd
  | startup (f : Startup)
  | client (b : ℕ)
  | server (b n : ℕ)
  | requestBuf (b : ℕ)
  | requestTmpBuf (b : ℕ)
  | responseBuf (b : ℕ)
  | responseReader (b : ℕ)
  | hist (i : ℕ)
  deriving DecidableEq, Repr

/-- A `struct event`, named by its callback and the object that is its argument. -/
inductive EventId
  | acceptNew
  | monitorDataRates
  | clientRead (b : ℕ)
  | clientWrite (b : ℕ)
  | serverRead (b n : ℕ)
  | serverWrite (b n : ℕ)
  | closeAfterTimeout (k : ℕ)
  | putEventsSlowMode (k : ℕ)
  deriving DecidableEq, Repr

/-- What holds descriptors and events. The timers are their `struct timer_arg`. -/
inductive Object
  | process
  | client (b : ℕ)
  | server (b n : ℕ)
  | requestBuf (b : ℕ)
  | requestTmpBuf (b : ℕ)
  | responseBuf (b : ℕ)
  | hist (i : ℕ)
  | closeTimer (k : ℕ) (fd : Fd)
  | slowTimer (k : ℕ) (evtList : List EventId)
  deriving DecidableEq, Repr

/-- The descriptors an object holds. -/
def Object.fds : Object → Finset Fd
  | .process => {.startup .stdin, .startup .stdout, .startup .stderr, .startup .masterSock,
      .startup (.eventBase 0), .startup (.eventBase 1), .startup (.eventBase 2)}
  | .client b => {.client b}
  | .server b n => {.server b n}
  | .requestBuf b => {.requestBuf b}
  | .requestTmpBuf b => {.requestTmpBuf b}
  | .responseBuf b => {.responseBuf b, .responseReader b}
  | .hist i => {.hist i}
  | .closeTimer _ fd => {fd}
  | .slowTimer _ _ => ∅

/-- The events an object holds; its destructor frees them. -/
def Object.events : Object → Finset EventId
  | .process => {.acceptNew, .monitorDataRates}
  | .client b => {.clientRead b, .clientWrite b}
  | .server b n => {.serverRead b n, .serverWrite b n}
  | .closeTimer k _ => {.closeAfterTimeout k}
  | .slowTimer k _ => {.putEventsSlowMode k}
  | _ => ∅

/-- The descriptors an object closes when it goes: `~Filebuf` closes `fd`, and there is no
`~FIFOfilebuf`; `close_after_timeout` closes its socket; the sockets of a client and of a server go
through `close_socket_gracefully`. -/
def Object.closes : Object → Finset Fd
  | .requestBuf b => {.requestBuf b}
  | .requestTmpBuf b => {.requestTmpBuf b}
  | .responseBuf b => {.responseBuf b}
  | .hist i => {.hist i}
  | .closeTimer _ fd => {fd}
  | _ => ∅

/-- `get_associated_conn`: the connection of the object that is the argument of the event. -/
def EventId.associatedConn : EventId → Option ℕ
  | .clientRead b | .clientWrite b | .serverRead b _ | .serverWrite b _ => some b
  | _ => none

/-! ### Tables -/

/-- The objects, the open descriptors and the allocated events; the pointer `conn->server` of each
connection, as the number of a server; and the next numbers. -/
structure Table where
  objects : Finset Object
  fds : Finset Fd
  events : Finset EventId
  serverOf : ℕ → Option ℕ := fun _ => none
  nextServer : ℕ := 0
  nextTimer : ℕ := 0

namespace Table

/-- The tables when the event loop starts, with `n` Hybridbufs allocated beforehand. -/
def start (n : ℕ) : Table where
  objects := insert .process ((Finset.range n).image .hist)
  fds := Object.process.fds ∪ (Finset.range n).image .hist
  events := Object.process.events

/-- Create an object, opening its descriptors and allocating its events. -/
def new (t : Table) (x : Object) : Table :=
  { t with objects := insert x t.objects, fds := t.fds ∪ x.fds, events := t.events ∪ x.events }

/-- Destroy an object. -/
def delete (t : Table) (x : Object) : Table :=
  { t with objects := t.objects.erase x, fds := t.fds \ x.closes, events := t.events \ x.events }

/-- `if (x) delete x`. -/
def deleteIf (t : Table) (x : Object) : Table := if x ∈ t.objects then t.delete x else t

/-- `new_timer`. -/
def newTimer (t : Table) (x : ℕ → Object) : Table :=
  { t with
    objects := insert (x t.nextTimer) t.objects
    events := t.events ∪ (x t.nextTimer).events
    nextTimer := t.nextTimer + 1 }

/-- `close_socket_gracefully`. -/
def closeSocketGracefully (t : Table) (r : CloseResult) (fd : Fd) : Table :=
  if r.last = .data [] then { t with fds := t.fds.erase fd }  -- FIN arrived
  else t.newTimer (.closeTimer · fd)

/-- `connect_TCP`. The socket is open when the function returns, with its number or with `-1`. -/
def connectTcp (t : Table) (b : ℕ) : Table :=
  { t with fds := insert (.server b t.nextServer) t.fds, nextServer := t.nextServer + 1 }

/-- `conn->server = new Server(conn)`. -/
def newServer (t : Table) (b : ℕ) : Table :=
  { (t.connectTcp b).new (.server b t.nextServer) with
    serverOf := Function.update t.serverOf b (some t.nextServer) }

/-- `free_server`, with `Server::~Server`. -/
def deleteServer (t : Table) (b : ℕ) (r : CloseResult) : Table :=
  match t.serverOf b with
  | some n =>
    { (t.delete (.server b n)).closeSocketGracefully r (.server b n) with
      serverOf := Function.update t.serverOf b none }
  | none => t

/-- `Client::~Client`, up to `release_request_history`. -/
def deleteClient (t : Table) (b : ℕ) (r : CloseResult) : Table :=
  ((((t.delete (.client b)).closeSocketGracefully r (.client b)).deleteIf (.requestBuf b)).deleteIf
    (.requestTmpBuf b)).deleteIf (.responseBuf b)

/-- The buffers `set_slow_mode` allocates. -/
def newSlowBuffers (t : Table) (b : ℕ) : Table :=
  ((t.new (.requestBuf b)).new (.requestTmpBuf b)).new (.responseBuf b)

/-- What a call on the sockets of connection `b` does to the tables. The page is sent when
`connect_TCP` has failed. -/
def call (b : ℕ) (io : Io) (t : Table) : Call → Table
  | .connect => t.newServer b
  | .page503 _ => t.connectTcp b
  | .closeServer => t.deleteServer b io.serverClose
  | .closeClient => t.deleteClient b io.clientClose
  | _ => t

end Table

/-- The identity of a client's history buffer, if it has one. -/
def Client.histIds {cfg : Config} (c : Client cfg) : List ℕ := (c.requestHistory.map (·.id)).toList

/-- The Hybridbufs a callback leaves: those of the pool and that of the client. -/
def Effect.histIds {cfg : Config} {L : Llhttp} (e : Effect cfg L) : List ℕ :=
  e.pool.map (·.id) ++ match e.status with
    | .live conn => conn.client.histIds
    | _ => []

/-- The callback has allocated the buffers of slow mode. -/
def Effect.opensSlowBuffers {cfg : Config} {L : Llhttp} (e : Effect cfg L)
    (conn : Connection cfg L) : Bool :=
  conn.client.requestBuf.isNone && e.status.isLiveWith (·.client.requestBuf.isSome)

/-- The Hybridbufs whose last `shared_ptr` has gone with the callback. -/
def Effect.droppedHists {cfg : Config} {L : Llhttp} (e : Effect cfg L) (pool : List (Hist cfg))
    (conn : Connection cfg L) : List ℕ :=
  (pool.map (·.id) ++ conn.client.histIds).filter (· ∉ e.histIds)

/-! ### The process -/

/-- The connections and what they share, with the tables. -/
structure Process (cfg : Config) (L : Llhttp) where
  proxy : Proxy cfg L
  table : Table

namespace Process

variable {cfg : Config} {L : Llhttp}

/-- The process when the event loop starts, with `n` Hybridbufs allocated beforehand. -/
def start (cfg : Config) (L : Llhttp) (n : ℕ) : Process cfg L where
  proxy := .start cfg L n
  table := .start n

/-- How the process goes down, if all the descriptors it asks for can be had: a callback faults,
`put_events_slow_mode` inspects an event that has been freed, or it finds an event whose connection
has been deleted. -/
inductive Failure
  | fault (f : Fault)
  | missing (evt : EventId)
  | dead (b : ℕ)
  deriving DecidableEq, Repr

/-- What the event loop does next. -/
inductive Event
  | acceptNew (io : Io)
  | fire (b : ℕ) (cb : Callback) (io : Io)
  | sigusr1 (evtList : List EventId)
  | putEventsSlowMode (k : ℕ) (evtList : List EventId) (ios : EventId → Io)
  | closeAfterTimeout (k : ℕ) (fd : Fd)

/-- `Connection::accept_new`, where `accept` returns a socket. -/
def acceptNew (ps : Process cfg L) (io : Io) : Process cfg L where
  proxy := (ps.proxy.acceptNew io).2
  table :=
    -- the socket is open when the count is looked at
    if cfg.maxConnection ≤ ps.proxy.connectionCount then
      -- max connection reached
      Table.closeSocketGracefully
        { ps.table with fds := insert (.client ps.proxy.accepted) ps.table.fds } io.clientClose
        (.client ps.proxy.accepted)
    else if ps.proxy.pool.isEmpty then
      (ps.table.new (.client ps.proxy.accepted)).new (.hist ps.proxy.nextId)
    else ps.table.new (.client ps.proxy.accepted)

/-- The tables after a callback of connection `b` that had the effect `e`. -/
def callbackTable (ps : Process cfg L) (b : ℕ) (conn : Connection cfg L) (io : Io)
    (e : Effect cfg L) : Table :=
  let t := e.calls.foldl (Table.call b io) ps.table
  -- set_slow_mode allocates its buffers, and makes no calls on the sockets
  let t := if e.opensSlowBuffers conn then t.newSlowBuffers b else t
  (e.droppedHists ps.proxy.pool conn).foldl (fun t i => t.delete (.hist i)) t

/-- A callback of connection `b`. -/
def callback (ps : Process cfg L) (b : ℕ) (conn : Connection cfg L) (cb : Callback) (io : Io) :
    Except Failure (Process cfg L) :=
  let e := conn.fire cb io ps.proxy.globalBuffer ps.proxy.pool
  match ps.proxy.settle b e with
  | .ok px => .ok ⟨px, ps.callbackTable b conn io e⟩
  | .error f => .error (.fault f)

/-- The event is pending. A timer is, from the time it is added until it fires. -/
def pending (ps : Process cfg L) : EventId → Bool
  | .clientRead b => (ps.proxy.conns b).any (·.client.readEvt)
  | .clientWrite b => (ps.proxy.conns b).any (·.client.writeEvt)
  | .serverRead b n =>
    ps.table.serverOf b == some n && (ps.proxy.conns b).any (·.server.any (·.readEvt))
  | .serverWrite b n =>
    ps.table.serverOf b == some n && (ps.proxy.conns b).any (·.server.any (·.writeEvt))
  | _ => true

/-- What `event_base_foreach_event` visits. -/
def registered (ps : Process cfg L) : Finset EventId := ps.table.events.filter (ps.pending ·)

/-- The loop of `put_events_slow_mode`. -/
def putEventsSlowMode (ios : EventId → Io) :
    Process cfg L → List EventId → Except Failure (Process cfg L)
  | ps, [] => .ok ps
  | ps, evt :: rest =>
    if evt ∈ ps.table.events then
      match evt.associatedConn with
      -- get_associated_conn looks into the event, then event_pending does
      | some b =>
        match ps.proxy.conns b with
        | some conn =>
          if ps.pending evt then
            match ps.callback b conn .slowSwitch (ios evt) with
            | .ok ps' => putEventsSlowMode ios ps' rest
            | .error f => .error f
          else putEventsSlowMode ios ps rest
        | none => .error (.dead b)
      | none => putEventsSlowMode ios ps rest
    else .error (.missing evt)

/-- One event; `none` when it cannot happen. `set_slow_mode` is called by `monitor_data_rates` and
by `put_events_slow_mode` only. -/
def step (ps : Process cfg L) : Event → Option (Except Failure (Process cfg L))
  | .acceptNew io => some (.ok (ps.acceptNew io))
  | .fire b cb io =>
    match ps.proxy.conns b with
    | some conn =>
      if conn.enabled cb ∧ cb ≠ .slowSwitch then some (ps.callback b conn cb io) else none
    | none => none
  | .sigusr1 evtList =>
    -- put_all_connection_slow_mode
    if evtList.Nodup ∧ evtList.toFinset = ps.registered then
      some (.ok { ps with table := ps.table.newTimer (.slowTimer · evtList) })
    else none
  | .putEventsSlowMode k evtList ios =>
    if .slowTimer k evtList ∈ ps.table.objects then
      match ps.putEventsSlowMode ios evtList with
      | .ok ps' => some (.ok { ps' with table := ps'.table.delete (.slowTimer k evtList) })
      | .error f => some (.error f)
    else none
  | .closeAfterTimeout k fd =>
    if .closeTimer k fd ∈ ps.table.objects then
      some (.ok { ps with table := ps.table.delete (.closeTimer k fd) })
    else none

/-! ### What an event does -/

section Step

variable {ps ps' : Process cfg L} {r : Except Failure (Process cfg L)}

theorem callback_ok {b : ℕ} {c : Connection cfg L} {cb : Callback} {io : Io}
    (h : ps.callback b c cb io = .ok ps') :
    ∃ px', ps.proxy.settle b (c.fire cb io ps.proxy.globalBuffer ps.proxy.pool) = .ok px' ∧
      ps' = ⟨px', ps.callbackTable b c io
        (c.fire cb io ps.proxy.globalBuffer ps.proxy.pool)⟩ := by
  unfold callback at h
  dsimp only at h
  split at h
  case h_1 px' hsettle => exact ⟨px', hsettle, (Except.ok.inj h).symm⟩
  case h_2 => cases h

theorem callback_error {b : ℕ} {c : Connection cfg L} {cb : Callback} {io : Io} {f : Failure}
    (h : ps.callback b c cb io = .error f) :
    ∃ f', ps.proxy.settle b (c.fire cb io ps.proxy.globalBuffer ps.proxy.pool) = .error f' ∧
      f = .fault f' := by
  unfold callback at h
  dsimp only at h
  split at h
  case h_1 => cases h
  case h_2 f' hsettle => exact ⟨f', hsettle, (Except.error.inj h).symm⟩

theorem step_fire {b : ℕ} {cb : Callback} {io : Io} (h : ps.step (.fire b cb io) = some r) :
    ∃ c, ps.proxy.conns b = some c ∧ c.enabled cb = true ∧ cb ≠ .slowSwitch ∧
      ps.callback b c cb io = r := by
  unfold step at h
  dsimp only at h
  split at h
  case h_2 => cases h
  case h_1 c hc =>
  split at h
  case isFalse => cases h
  case isTrue hen => exact ⟨c, hc, hen.1, hen.2, Option.some.inj h⟩

theorem step_sigusr1 {evtList : List EventId} (h : ps.step (.sigusr1 evtList) = some (.ok ps')) :
    evtList.Nodup ∧ evtList.toFinset = ps.registered ∧
      ps' = { ps with table := ps.table.newTimer (.slowTimer · evtList) } := by
  unfold step at h
  dsimp only at h
  split at h
  case isFalse => cases h
  case isTrue hlist => exact ⟨hlist.1, hlist.2, (Except.ok.inj (Option.some.inj h)).symm⟩

theorem step_putEventsSlowMode {k : ℕ} {evtList : List EventId} {ios : EventId → Io}
    (h : ps.step (.putEventsSlowMode k evtList ios) = some r) :
    .slowTimer k evtList ∈ ps.table.objects ∧
      ((∃ ps₁, ps.putEventsSlowMode ios evtList = .ok ps₁ ∧
        r = .ok { ps₁ with table := ps₁.table.delete (.slowTimer k evtList) }) ∨
      ∃ f, ps.putEventsSlowMode ios evtList = .error f ∧ r = .error f) := by
  unfold step at h
  dsimp only at h
  split at h
  case isFalse => cases h
  case isTrue hmem =>
  refine ⟨hmem, ?_⟩
  split at h
  case h_1 ps₁ hloop => exact .inl ⟨ps₁, hloop, (Option.some.inj h).symm⟩
  case h_2 f hloop => exact .inr ⟨f, hloop, (Option.some.inj h).symm⟩

theorem step_closeAfterTimeout {k : ℕ} {fd : Fd}
    (h : ps.step (.closeAfterTimeout k fd) = some (.ok ps')) :
    .closeTimer k fd ∈ ps.table.objects ∧
      ps' = { ps with table := ps.table.delete (.closeTimer k fd) } := by
  unfold step at h
  dsimp only at h
  split at h
  case isFalse => cases h
  case isTrue hmem => exact ⟨hmem, (Except.ok.inj (Option.some.inj h)).symm⟩

end Step

/-! ### Runs -/

/-- One line of the log: the process the event finds, and the event. -/
structure LogEntry (cfg : Config) (L : Llhttp) where
  before : Process cfg L
  ev : Event

/-- An execution from the state `ps₀` on: its log, and the state at its end. -/
inductive RunFrom (ps₀ : Process cfg L) :
    List (LogEntry cfg L) → Except Failure (Process cfg L) → Prop
  | start : RunFrom ps₀ [] (.ok ps₀)
  | step {log : List (LogEntry cfg L)} {ps : Process cfg L} {ev : Event}
      {r : Except Failure (Process cfg L)} (h : RunFrom ps₀ log (.ok ps))
      (hstep : ps.step ev = some r) : RunFrom ps₀ (log ++ [⟨ps, ev⟩]) r

/-- What the event of a log line did on the sockets of its connection. -/
def LogEntry.calls (x : LogEntry cfg L) : List Call :=
  match x.ev with
  | .fire b cb io =>
    match x.before.proxy.conns b with
    | some conn => (conn.fire cb io x.before.proxy.globalBuffer x.before.proxy.pool).calls
    | none => []
  | _ => []

/-- Run a list of events; `none` when one of them cannot happen. -/
def exec (ps : Process cfg L) :
    List Event → Option (List (LogEntry cfg L) × Except Failure (Process cfg L))
  | [] => some ([], .ok ps)
  | ev :: rest =>
    match ps.step ev with
    | some (.ok ps') => (exec ps' rest).map fun r => (⟨ps, ev⟩ :: r.1, r.2)
    | some (.error f) => if rest.isEmpty then some ([⟨ps, ev⟩], .error f) else none
    | none => none

theorem run_of_exec {ps₀ ps : Process cfg L} {log log' : List (LogEntry cfg L)}
    {r : Except Failure (Process cfg L)} {events : List Event} (h : RunFrom ps₀ log (.ok ps))
    (hex : ps.exec events = some (log', r)) : RunFrom ps₀ (log ++ log') r := by
  induction events generalizing ps log log' with
  | nil =>
    obtain ⟨rfl, rfl⟩ := Prod.mk.inj (Option.some.inj hex)
    simpa using h
  | cons ev rest ih =>
    unfold exec at hex
    split at hex
    · next ps' hstep =>
      obtain ⟨⟨log₁, r₁⟩, hex₁, heq⟩ := Option.map_eq_some_iff.mp hex
      obtain ⟨rfl, rfl⟩ := Prod.mk.inj heq
      simpa using ih (.step h hstep) hex₁
    · next f hstep =>
      split at hex
      · obtain ⟨rfl, rfl⟩ := Prod.mk.inj (Option.some.inj hex)
        exact .step h hstep
      · exact absurd hex (by simp)
    · exact absurd hex (by simp)

/-- A property that can be computed is found of an execution by computing one. -/
theorem exists_run (n : ℕ) (events : List Event)
    (f : List (LogEntry cfg L) → Except Failure (Process cfg L) → Bool)
    (h : ((start cfg L n).exec events).any (fun r => f r.1 r.2) = true) :
    ∃ log r, RunFrom (start cfg L n) log r ∧ f log r = true := by
  obtain ⟨⟨log, r⟩, hex, hf⟩ := (Option.any_eq_true ..).mp h
  exact ⟨log, r, by simpa using run_of_exec .start hex, hf⟩

/-- The process, if there is still one, has a property. -/
def isOkWith (r : Except Failure (Process cfg L)) (f : Process cfg L → Bool) : Bool :=
  match r with
  | .ok ps => f ps
  | .error _ => false

theorem isOkWith_iff {r : Except Failure (Process cfg L)} {f : Process cfg L → Bool} :
    isOkWith r f = true ↔ ∃ ps, r = .ok ps ∧ f ps = true := by
  cases r <;> simp [isOkWith]

end Process

end LSProxy
