import LSProxy.Lib.Access
import LSProxy.Model.Process

/-!
# What the process touches

The operations of `Table` say what an event of the process leaves. This is how it gets there: the
descriptors that are opened, used and closed, the events that are allocated, looked at and freed,
and the objects that are created, used through a pointer and destroyed. They come in the order in
which the source does it; only a Hybridbuf that is not kept is destroyed at the end of its callback.
In two places the order is not the obvious one. The destructors of `Client` and `Server` free their
events before they ask the first of them for the socket, and `Server::recv_to_buffer_slowly`
destroys its own server and then goes on through `conn`, a field of it.

* `Table.accesses` — what a call on the sockets of a connection touches;
* `Process.callbackAccesses`, `Process.LogEntry.accesses` — what a callback and an event touch.

An event that has been freed is taken to hold the descriptor it held, as it does in practice: what
is done next to the socket is done to the right one. Not listed are

* adding and removing events, and the contents of buffers and their files: a callback gets there
  through `conn->client` and `conn->server`, pointers that it dereferences (`Handler.require`);
* the `Connection` and its parser: the first is created with its client and destroyed after it, the
  second is a pointer that is dereferenced;
* what `get_all_connections` looks at before a tick: the registered events, which are those of live
  connections (`Process.Sound.mem_getAllConnections`);
* the file of the 503 page, which is opened and closed in one go.
-/

namespace LSProxy

open Access

/-- What can be touched. -/
inductive Thing
  | fd (f : Fd)
  | event (e : EventId)
  | object (x : Object)
  deriving DecidableEq

namespace Table

/-- What there is. -/
def things (t : Table) : Finset Thing :=
  t.fds.image .fd ∪ t.events.image .event ∪ t.objects.image .object

@[simp] theorem fd_mem_things {t : Table} {f : Fd} : .fd f ∈ t.things ↔ f ∈ t.fds := by
  simp [things]

@[simp] theorem event_mem_things {t : Table} {e : EventId} :
    .event e ∈ t.things ↔ e ∈ t.events := by
  simp [things]

@[simp] theorem object_mem_things {t : Table} {x : Object} :
    .object x ∈ t.things ↔ x ∈ t.objects := by
  simp [things]

/-! ### The calls of a connection -/

/-- The number of the server of a connection; if there is none, one that no server has. -/
def serverNumber (t : Table) (b : ℕ) : ℕ := (t.serverOf b).getD t.nextServer

/-- `del_event` and `free_event`, for both events of a client or a server. -/
def freeEvents (readEvt writeEvt : EventId) : List (Access Thing) :=
  [.use (.event readEvt), .use (.event writeEvt), .release (.event readEvt),
    .release (.event writeEvt)]

/-- `close_socket_gracefully`. -/
def closeAccesses (t : Table) (r : CloseResult) (fd : Fd) : List (Access Thing) :=
  .use (.fd fd) ::
    if r.last = .data [] then [.release (.fd fd)]  -- FIN arrived
    else [.acquire (.event (.closeAfterTimeout t.nextTimer)),
      .acquire (.object (.closeTimer t.nextTimer fd))]

/-- `delete` of a slow buffer, where there is one: `~Filebuf` closes its file. -/
def bufferAccesses (t : Table) (x : Object) (fd : Fd) : List (Access Thing) :=
  if x ∈ t.objects then [.release (.fd fd), .release (.object x)] else []

/-- `Server::Server`. The descriptor of the client is printed. -/
def newServerAccesses (t : Table) (b : ℕ) : List (Access Thing) :=
  [.acquire (.fd (.server b t.nextServer)), .use (.event (.clientRead b)),
    .acquire (.event (.serverRead b t.nextServer)),
    .acquire (.event (.serverWrite b t.nextServer)), .acquire (.object (.server b t.nextServer))]

/-- `Server::~Server`. -/
def deleteServerAccesses (t : Table) (b : ℕ) (r : CloseResult) : List (Access Thing) :=
  let n := t.serverNumber b
  -- the descriptor is printed
  .use (.event (.serverRead b n)) :: (freeEvents (.serverRead b n) (.serverWrite b n) ++
    -- get_fd, of an event that has been freed
    .use (.event (.serverRead b n)) :: t.closeAccesses r (.server b n)) ++
  [.release (.object (.server b n))]

/-- `Client::~Client`, up to `release_request_history`. -/
def deleteClientAccesses (t : Table) (b : ℕ) (r : CloseResult) : List (Access Thing) :=
  freeEvents (.clientRead b) (.clientWrite b) ++
    -- get_fd, of an event that has been freed
    .use (.event (.clientRead b)) :: t.closeAccesses r (.client b) ++
  t.bufferAccesses (.requestBuf b) (.requestBuf b) ++
  t.bufferAccesses (.requestTmpBuf b) (.requestTmpBuf b) ++
  t.bufferAccesses (.responseBuf b) (.responseBuf b) ++ [.release (.object (.client b))]

/-- How a callback comes by a socket: `fast_forward` asks the event for it with `get_fd`, the
others have it as their argument. And the server whose member function it is, if that goes on
through `this` after a call that destroys servers. -/
structure Caller where
  getsFd : Bool
  self : Option ℕ

/-- The member function goes on through `this`. -/
def Caller.selfAccesses (k : Caller) (b : ℕ) : List (Access Thing) :=
  k.self.toList.map fun n => .use (.object (.server b n))

/-- `get_fd`, where it is called. -/
def Caller.getFd (k : Caller) (evt : EventId) : List (Access Thing) :=
  if k.getsFd then [.use (.event evt)] else []

/-- What a call on the sockets of connection `b` touches. -/
def accesses (b : ℕ) (io : Io) (k : Caller) (t : Table) : Call → List (Access Thing)
  | .clientRead _ | .clientWrite _ => k.getFd (.clientRead b) ++ [.use (.fd (.client b))]
  | .serverRead _ | .serverWrite _ =>
    k.getFd (.serverRead b (t.serverNumber b)) ++ [.use (.fd (.server b (t.serverNumber b)))]
  | .connect => t.newServerAccesses b
  -- the socket of the failed attempt stays open
  | .page503 _ => [.acquire (.fd (.server b t.nextServer)), .use (.fd (.client b))]
  | .closeServer => t.deleteServerAccesses b io.serverClose ++ k.selfAccesses b
  | .closeClient => k.selfAccesses b ++ t.deleteClientAccesses b io.clientClose

/-- What calls do one after the other, each of them to the tables it finds. -/
def along (b : ℕ) (io : Io) (f : Table → Call → List (Access Thing)) :
    Table → List Call → List (Access Thing)
  | _, [] => []
  | t, c :: calls => f t c ++ along b io f (t.call b io c) calls

/-- `set_slow_mode` allocates its buffers; `response_buf` opens its file twice. -/
def newSlowBuffersAccesses (b : ℕ) : List (Access Thing) :=
  [.acquire (.fd (.requestBuf b)), .acquire (.object (.requestBuf b)),
    .acquire (.fd (.requestTmpBuf b)), .acquire (.object (.requestTmpBuf b)),
    .acquire (.fd (.responseBuf b)), .acquire (.fd (.responseReader b)),
    .acquire (.object (.responseBuf b))]

/-- A Hybridbuf is destroyed. -/
def deleteHistAccesses (i : ℕ) : List (Access Thing) :=
  [.release (.fd (.hist i)), .release (.object (.hist i))]

/-- `delete t_arg`, with `~timer_arg`. -/
def deleteTimerAccesses (evt : EventId) (x : Object) : List (Access Thing) :=
  [.use (.event evt), .release (.event evt), .release (.object x)]

end Table

/-! ### Callbacks -/

/-- How a callback comes by the sockets, where `n` is the number of the server. -/
def Connection.caller {cfg : Config} {L : Llhttp} (conn : Connection cfg L) (cb : Callback)
    (n : ℕ) : Table.Caller :=
  match cb with
  | .clientReadable => ⟨conn.fastMode, none⟩
  | .serverReadable _ =>
    -- Server::recv_to_buffer_slowly
    ⟨conn.fastMode, if conn.fastMode || conn.inTransition then none else some n⟩
  | _ => ⟨false, none⟩

/-- What runs a callback: the event loop looks at the event that has fired, and the callback at its
argument and at the client. -/
def Callback.accesses (b n : ℕ) : Callback → List (Access Thing)
  | .clientReadable => [.use (.event (.clientRead b)), .use (.object (.client b))]
  | .clientWritable => [.use (.event (.clientWrite b)), .use (.object (.client b))]
  | .serverReadable _ =>
    [.use (.event (.serverRead b n)), .use (.object (.server b n)), .use (.object (.client b))]
  | .serverWritable =>
    [.use (.event (.serverWrite b n)), .use (.object (.server b n)), .use (.object (.client b))]
  | .monitor => [.use (.event .monitorDataRates), .use (.object (.client b))]
  -- set_slow_mode is called by put_events_slow_mode
  | .slowSwitch => [.use (.object (.client b))]

/-- What a callback touches beside the sockets: the buffers of slow mode it allocates, and the
Hybridbufs it destroys. One that takes the process down is not followed. -/
def Effect.bufferAccesses {cfg : Config} {L : Llhttp} (e : Effect cfg L) (b : ℕ)
    (pool : List (Hist cfg)) (conn : Connection cfg L) : List (Access Thing) :=
  match e.status with
  | .crashed _ => []
  | _ =>
    (if e.opensSlowBuffers conn then Table.newSlowBuffersAccesses b else []) ++
      (e.droppedHists pool conn).flatMap Table.deleteHistAccesses

namespace Process

variable {cfg : Config} {L : Llhttp}

/-- What a callback of connection `b` touches. -/
def callbackAccesses (ps : Process cfg L) (b : ℕ) (conn : Connection cfg L) (cb : Callback)
    (io : Io) : List (Access Thing) :=
  let e := conn.fire cb io ps.proxy.globalBuffer ps.proxy.pool
  let n := ps.table.serverNumber b
  cb.accesses b n ++ Table.along b io (Table.accesses b io (conn.caller cb n)) ps.table e.calls ++
    e.bufferAccesses b ps.proxy.pool conn

/-! ### Events of the process -/

/-- `accept_new`. -/
def acceptNewAccesses (ps : Process cfg L) (io : Io) : List (Access Thing) :=
  let b := ps.proxy.accepted
  [.use (.event .acceptNew), .use (.fd (.startup .masterSock)), .acquire (.fd (.client b))] ++
    if cfg.maxConnection ≤ ps.proxy.connectionCount then
      -- reply_with_503_unavailable
      .use (.fd (.client b)) :: ps.table.closeAccesses io.clientClose (.client b)
    else
      [.acquire (.event (.clientRead b)), .acquire (.event (.clientWrite b)),
        .acquire (.object (.client b))] ++
      match ps.proxy.pool with
      | [] => [.acquire (.fd (.hist ps.proxy.nextId)), .acquire (.object (.hist ps.proxy.nextId))]
      | h :: _ => [.use (.object (.hist h.id))]

/-- The object that is the argument of the event, where `get_associated_conn` looks at it. -/
def argAccesses : EventId → List (Access Thing)
  | .clientRead b | .clientWrite b => [.use (.object (.client b))]
  | .serverRead b n | .serverWrite b n => [.use (.object (.server b n))]
  | _ => []

/-- The loop of `put_events_slow_mode`, as far as the model goes along with it: not past an event
that has been freed. -/
def putEventsSlowModeAccesses (ios : EventId → Io) :
    Process cfg L → List EventId → List (Access Thing)
  | _, [] => []
  | ps, evt :: rest =>
    .use (.event evt) ::
      if evt ∈ ps.table.events then
        argAccesses evt ++
          match evt.associatedConn with
          | some b =>
            match ps.proxy.conns b with
            | some conn =>
              if ps.pending evt then
                ps.callbackAccesses b conn .slowSwitch (ios evt) ++
                  match ps.callback b conn .slowSwitch (ios evt) with
                  | .ok ps' => putEventsSlowModeAccesses ios ps' rest
                  | .error _ => []
              else putEventsSlowModeAccesses ios ps rest
            | none => []
          | none => putEventsSlowModeAccesses ios ps rest
      else []

/-- What the event of a log line touches. -/
def LogEntry.accesses (x : LogEntry cfg L) : List (Access Thing) :=
  match x.ev with
  | .acceptNew io => x.before.acceptNewAccesses io
  | .fire b cb io =>
    match x.before.proxy.conns b with
    | some conn => x.before.callbackAccesses b conn cb io
    | none => []
  | .sigusr1 evtList =>
    evtList.map (fun evt => .use (.event evt)) ++
      [.acquire (.event (.putEventsSlowMode x.before.table.nextTimer)),
        .acquire (.object (.slowTimer x.before.table.nextTimer evtList))]
  | .putEventsSlowMode k evtList ios =>
    .use (.object (.slowTimer k evtList)) ::
      x.before.putEventsSlowModeAccesses ios evtList ++
      match x.before.putEventsSlowMode ios evtList with
      | .ok _ => Table.deleteTimerAccesses (.putEventsSlowMode k) (.slowTimer k evtList)
      | .error _ => []
  | .closeAfterTimeout k fd =>
    [.use (.object (.closeTimer k fd)), .release (.fd fd)] ++
      Table.deleteTimerAccesses (.closeAfterTimeout k) (.closeTimer k fd)

end Process

end LSProxy
