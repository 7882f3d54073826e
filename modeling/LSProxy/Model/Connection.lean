import LSProxy.Model.Circularbuf
import LSProxy.Model.Hybridbuf
import LSProxy.Model.HttpParser

/-!
# The state of a connection

`Client`, `Server` and `Connection` of the headers, and the monad the callbacks run in. A pointer
that may be null is an `Option`; an event is the flag that says whether it is pending.

A callback of one connection can touch more than the connection: the scratch buffer and the pool
of history buffers are shared by the whole process. `World` is what a callback sees, together with
the log of what it does on the two sockets. `Handler` passes it along and can leave early, because
the connection has been deleted or because the process is going down. Dereferencing a pointer is
`require`, which faults on null.
-/

namespace LSProxy

/-- A `shared_ptr<Hybridbuf>`: the object and what tells it from the others. -/
structure Hist (cfg : Config) where
  id : ℕ
  buf : Hybridbuf cfg.histCacheSize

/-- `class Client`. -/
structure Client (cfg : Config) where
  readEvt : Bool := false
  writeEvt : Bool := false
  queuedOutput : Option (Circularbuf cfg.sockIoBufSize) := none
  requestBuf : Option Filebuf := none
  requestTmpBuf : Option Filebuf := none
  responseBuf : Option FIFOfilebuf := none
  readCount : ℕ
  writeCount : ℕ
  requestHistory : Option (Hist cfg)

/-- `class Server`. `readTimeout` says whether the reading event also has a timeout. -/
structure Server (cfg : Config) where
  readEvt : Bool := false
  readTimeout : Bool := false
  writeEvt : Bool := false
  queuedOutput : Option (Circularbuf cfg.sockIoBufSize) := none

/-- `class Connection`. -/
structure Connection (cfg : Config) (L : Llhttp) where
  client : Client cfg
  server : Option (Server cfg) := none
  parser : Option (HttpParser L) := none
  fastMode : Bool := true
  inTransition : Bool := false

/-- What the proxy does on the sockets of a connection. Reads made only to empty a socket that is
being closed are not among them: their bytes are discarded on the spot. -/
inductive Call
  | clientRead (bs : Bytes)
  | clientWrite (bs : Bytes)
  | serverRead (bs : Bytes)
  | serverWrite (bs : Bytes)
  | page503 (bs : Bytes)
  | connect
  | closeServer
  | closeClient
  deriving DecidableEq, Repr

/-- What a callback of one connection sees. -/
structure World (cfg : Config) (L : Llhttp) where
  globalBuffer : Scratch cfg.sockIoBufSize
  pool : List (Hist cfg)
  conn : Connection cfg L
  calls : List Call := []

/-- Why a callback does not return to a live connection. -/
inductive Exit
  | deleted
  | fault (f : Fault)
  deriving DecidableEq, Repr

/-- A piece of a callback. -/
abbrev Handler (cfg : Config) (L : Llhttp) := EStateM Exit (World cfg L)

variable {cfg : Config} {L : Llhttp}

/-! ### Events -/

namespace Client

/-- `stop_reading`, and `pause_r`. -/
@[simp] def stopReading (c : Client cfg) : Client cfg := { c with readEvt := false }

/-- `start_reading`, and `resume_r`. -/
@[simp] def startReading (c : Client cfg) : Client cfg := { c with readEvt := true }

/-- `stop_writing`. -/
@[simp] def stopWriting (c : Client cfg) : Client cfg := { c with writeEvt := false }

/-- `start_writing`. -/
@[simp] def startWriting (c : Client cfg) : Client cfg := { c with writeEvt := true }

/-- `set_reply_only_mode`. -/
@[simp] def setReplyOnlyMode (c : Client cfg) : Client cfg := c.stopReading.startWriting

end Client

namespace Server

/-- `add_event(read_evt)`. A timeout that is already set stays. -/
@[simp] def startReading (s : Server cfg) : Server cfg := { s with readEvt := true }

/-- `add_event_with_timeout(read_evt, TRANS_TIMEOUT)`. -/
@[simp] def startReadingWithTimeout (s : Server cfg) : Server cfg :=
  { s with readEvt := true, readTimeout := true }

/-- `del_event(read_evt)`. -/
@[simp] def stopReading (s : Server cfg) : Server cfg :=
  { s with readEvt := false, readTimeout := false }

/-- `add_event(write_evt)`. -/
@[simp] def startWriting (s : Server cfg) : Server cfg := { s with writeEvt := true }

/-- `del_event(write_evt)`. -/
@[simp] def stopWriting (s : Server cfg) : Server cfg := { s with writeEvt := false }

end Server

/-! ### Pieces of callbacks -/

namespace Handler

/-- Record what is done on a socket. -/
def call (c : Call) : Handler cfg L Unit := modify fun w => { w with calls := w.calls ++ [c] }

/-- Dereference a pointer. -/
def require {α : Type} (p : Field) : Option α → Handler cfg L α
  | some a => pure a
  | none => throw (.fault (.null p))

/-- Run an operation that can take the process down. -/
def check {α : Type} : Except Fault α → Handler cfg L α
  | .ok a => pure a
  | .error e => throw (.fault e)

/-- Change the client. -/
def onClient (f : Client cfg → Client cfg) : Handler cfg L Unit :=
  modify fun w => { w with conn := { w.conn with client := f w.conn.client } }

/-- `conn->server`. -/
def getServer : Handler cfg L (Server cfg) := do require .server (← get).conn.server

/-- Change the server. -/
def onServer (f : Server cfg → Server cfg) : Handler cfg L Unit := do
  let s ← getServer
  modify fun w => { w with conn := { w.conn with server := some (f s) } }

/-- `conn->parser`. -/
def getParser : Handler cfg L (HttpParser L) := do require .parser (← get).conn.parser

/-- Store the parser object. -/
def setParser (p : HttpParser L) : Handler cfg L Unit :=
  modify fun w => { w with conn := { w.conn with parser := some p } }

/-- `client->queued_output`. -/
def getClientQueue : Handler cfg L (Circularbuf cfg.sockIoBufSize) := do
  require .clientQueuedOutput (← get).conn.client.queuedOutput

/-- `server->queued_output`. -/
def getServerQueue : Handler cfg L (Circularbuf cfg.sockIoBufSize) := do
  require .serverQueuedOutput (← getServer).queuedOutput

/-- `client->request_buf`. -/
def getRequestBuf : Handler cfg L Filebuf := do require .requestBuf (← get).conn.client.requestBuf

/-- `client->request_tmp_buf`. -/
def getRequestTmpBuf : Handler cfg L Filebuf := do
  require .requestTmpBuf (← get).conn.client.requestTmpBuf

/-- `client->response_buf`. -/
def getResponseBuf : Handler cfg L FIFOfilebuf := do
  require .responseBuf (← get).conn.client.responseBuf

/-- `client->request_history`. -/
def getRequestHistory : Handler cfg L (Hist cfg) := do
  require .requestHistory (← get).conn.client.requestHistory

/-- Lay data down at the head of `global_buffer`. -/
def putScratch (data : Bytes) (h : data.length ≤ cfg.sockIoBufSize) : Handler cfg L Unit :=
  modify fun w => { w with globalBuffer := w.globalBuffer.put data h }

/-- The first `n` bytes of `global_buffer`. -/
def scratchFirst (n : ℕ) : Handler cfg L Bytes := do return (← get).globalBuffer.first n

/-- The bytes of `global_buffer` from `a` up to `b`. -/
def scratchBetween (a b : ℕ) : Handler cfg L Bytes := do
  return (← get).globalBuffer.between a b

/-- `read_all` from the client into `global_buffer`. -/
def readClient (io : Io) (maxSize : ℕ) (h : maxSize ≤ cfg.sockIoBufSize) :
    Handler cfg L IoStat := do
  let o := readAll io.clientReads maxSize
  putScratch o.data (le_trans (readAll_length_le _ _) h)
  call (.clientRead o.data)
  return o.stat

/-- `read_all` from the server into `global_buffer`. -/
def readServer (io : Io) (maxSize : ℕ) (h : maxSize ≤ cfg.sockIoBufSize) :
    Handler cfg L IoStat := do
  let o := readAll io.serverReads maxSize
  putScratch o.data (le_trans (readAll_length_le _ _) h)
  call (.serverRead o.data)
  return o.stat

/-! ### Running the pieces -/

@[simp] theorem run_call (c : Call) (w : World cfg L) :
    (call c).run w = .ok () { w with calls := w.calls ++ [c] } := rfl

@[simp] theorem run_require_some {α : Type} (p : Field) (a : α) (w : World cfg L) :
    (require p (some a)).run w = .ok a w := rfl

@[simp] theorem run_require_none {α : Type} (p : Field) (w : World cfg L) :
    (require p (none : Option α)).run w = .error (.fault (.null p)) w := rfl

@[simp] theorem run_check_ok {α : Type} (a : α) (w : World cfg L) :
    (check (.ok a)).run w = .ok a w := rfl

@[simp] theorem run_check_error {α : Type} (e : Fault) (w : World cfg L) :
    (check (.error e : Except Fault α)).run w = .error (.fault e) w := rfl

@[simp] theorem run_onClient (f : Client cfg → Client cfg) (w : World cfg L) :
    (onClient f).run w = .ok () { w with conn := { w.conn with client := f w.conn.client } } := rfl

@[simp] theorem run_getServer (w : World cfg L) :
    getServer.run w = (require .server w.conn.server).run w := rfl

@[simp] theorem run_onServer (f : Server cfg → Server cfg) (w : World cfg L) :
    (onServer f).run w = (require .server w.conn.server >>= fun s =>
      modify fun w => { w with conn := { w.conn with server := some (f s) } }).run w := rfl

@[simp] theorem run_getParser (w : World cfg L) :
    getParser.run w = (require .parser w.conn.parser).run w := rfl

@[simp] theorem run_setParser (p : HttpParser L) (w : World cfg L) :
    (setParser p).run w = .ok () { w with conn := { w.conn with parser := some p } } := rfl

@[simp] theorem run_getClientQueue (w : World cfg L) :
    getClientQueue.run w = (require .clientQueuedOutput w.conn.client.queuedOutput).run w := rfl

@[simp] theorem run_getServerQueue (w : World cfg L) :
    getServerQueue.run w = (require .server w.conn.server >>= fun s =>
      require .serverQueuedOutput s.queuedOutput).run w := rfl

@[simp] theorem run_getRequestBuf (w : World cfg L) :
    getRequestBuf.run w = (require .requestBuf w.conn.client.requestBuf).run w := rfl

@[simp] theorem run_getRequestTmpBuf (w : World cfg L) :
    getRequestTmpBuf.run w = (require .requestTmpBuf w.conn.client.requestTmpBuf).run w := rfl

@[simp] theorem run_getResponseBuf (w : World cfg L) :
    getResponseBuf.run w = (require .responseBuf w.conn.client.responseBuf).run w := rfl

@[simp] theorem run_getRequestHistory (w : World cfg L) :
    getRequestHistory.run w = (require .requestHistory w.conn.client.requestHistory).run w := rfl

@[simp] theorem run_putScratch (data : Bytes) (h : data.length ≤ cfg.sockIoBufSize)
    (w : World cfg L) :
    (putScratch data h).run w = .ok () { w with globalBuffer := w.globalBuffer.put data h } := rfl

@[simp] theorem run_scratchFirst (n : ℕ) (w : World cfg L) :
    (scratchFirst n).run w = .ok (w.globalBuffer.first n) w := rfl

@[simp] theorem run_scratchBetween (a b : ℕ) (w : World cfg L) :
    (scratchBetween a b).run w = .ok (w.globalBuffer.between a b) w := rfl

@[simp] theorem run_readClient (io : Io) (maxSize : ℕ) (h : maxSize ≤ cfg.sockIoBufSize)
    (w : World cfg L) :
    (readClient io maxSize h).run w = .ok (readAll io.clientReads maxSize).stat
      { w with
        globalBuffer := w.globalBuffer.put (readAll io.clientReads maxSize).data
          (le_trans (readAll_length_le _ _) h)
        calls := w.calls ++ [.clientRead (readAll io.clientReads maxSize).data] } := rfl

@[simp] theorem run_readServer (io : Io) (maxSize : ℕ) (h : maxSize ≤ cfg.sockIoBufSize)
    (w : World cfg L) :
    (readServer io maxSize h).run w = .ok (readAll io.serverReads maxSize).stat
      { w with
        globalBuffer := w.globalBuffer.put (readAll io.serverReads maxSize).data
          (le_trans (readAll_length_le _ _) h)
        calls := w.calls ++ [.serverRead (readAll io.serverReads maxSize).data] } := rfl

end Handler

/-! ### Creating and freeing -/

/-- `close_socket_gracefully` empties the socket through `global_buffer`. -/
def Scratch.drain {size : ℕ} (g : Scratch size) (r : CloseResult) : Scratch size :=
  let g' := r.drained.foldl
    (fun g bs => g.put (bs.take size) (List.length_take_le size bs)) g
  match r.last with
  | .data bs => g'.put ((bs.take 1).take size) (List.length_take_le size (bs.take 1))
  | .failed _ => g'

open Handler

/-- `close_socket_gracefully`. -/
def closeSocketGracefully (r : CloseResult) : Handler cfg L Unit :=
  modify fun w => { w with globalBuffer := w.globalBuffer.drain r }

/-- `Server::Server`; `false` is `ConnectionError`. -/
def Server.create (io : Io) : Handler cfg L Bool := do
  if io.connectOk then
    call .connect
    modify fun w => { w with conn := { w.conn with server := some {} } }
    return true
  else return false

/-- `Connection::free_server`, with `Server::~Server`. -/
def Connection.freeServer (io : Io) : Handler cfg L Unit := do
  if (← get).conn.server.isSome then
    closeSocketGracefully io.serverClose
    call .closeServer
    modify fun w => { w with conn := { w.conn with server := none } }

/-- `Connection::free_parser`. -/
def Connection.freeParser : Handler cfg L Unit :=
  modify fun w => { w with conn := { w.conn with parser := none } }

/-- `Client::release_request_history`. -/
def Client.releaseRequestHistory : Handler cfg L Unit := do
  match (← get).conn.client.requestHistory with
  | some h =>
    -- back to the pool if there is room, or freed with its last owner
    modify fun w => { w with
      pool := if w.pool.length < cfg.maxHybridPool then w.pool ++ [⟨h.id, h.buf.clear⟩]
        else w.pool }
  | none => pure ()
  onClient fun c => { c with requestHistory := none }

/-- `Connection::free_client`, with `Client::~Client`. -/
def Connection.freeClient (io : Io) : Handler cfg L Unit := do
  -- the events go before the socket is closed
  onClient fun c => c.stopReading.stopWriting
  closeSocketGracefully io.clientClose
  call .closeClient
  onClient fun c =>
    { c with queuedOutput := none, requestBuf := none, requestTmpBuf := none, responseBuf := none }
  Client.releaseRequestHistory

/-- `delete conn`. -/
def Connection.delete (io : Io) : Handler cfg L Unit := do
  Connection.freeServer io
  Connection.freeClient io
  Connection.freeParser
  -- nothing of the callback may run after this
  throw .deleted

/-- `Client::free_queued_output`. -/
def Client.freeQueuedOutput : Handler cfg L Unit :=
  onClient fun c => { c with queuedOutput := none }

/-- `Server::free_queued_output`. -/
def Server.freeQueuedOutput : Handler cfg L Unit :=
  onServer fun s => { s with queuedOutput := none }

/-- What `reply_with_503_unavailable` puts into `global_buffer`: the header, then as much of the
page as fits. -/
def unavailable503 (cfg : Config) : Bytes :=
  let header := "HTTP/1.1 503 Service Unavailable\r\nRetry-After: 60\r\n" ++
    "Connection: close\r\nContent-Length: " ++ toString cfg.page503.length ++ "\r\n\r\n"
  (ascii header ++ cfg.page503).take cfg.sockIoBufSize

theorem unavailable503_length_le (cfg : Config) :
    (unavailable503 cfg).length ≤ cfg.sockIoBufSize :=
  List.length_take_le cfg.sockIoBufSize _

/-- `reply_with_503_unavailable`. -/
def replyWith503Unavailable (io : Io) : Handler cfg L Unit := do
  putScratch (unavailable503 cfg) (unavailable503_length_le cfg)
  let reply ← scratchFirst (unavailable503 cfg).length
  call (.page503 (writeAll io.clientWrites reply).data)

/-- `Client::Client`: the history comes from the front of the pool, cleared, or is new with the
identity `id`. -/
def Client.create (pool : List (Hist cfg)) (id : ℕ) : Client cfg × List (Hist cfg) :=
  match pool with
  | h :: pool =>
    ({ readCount := cfg.counterInit, writeCount := cfg.counterInit,
       requestHistory := some ⟨h.id, h.buf.clear⟩ }, pool)
  | [] =>
    ({ readCount := cfg.counterInit, writeCount := cfg.counterInit,
       requestHistory := some ⟨id, Hybridbuf.new _⟩ }, [])

/-! ### Running the rest -/

@[simp] theorem run_closeSocketGracefully (r : CloseResult) (w : World cfg L) :
    (closeSocketGracefully r).run w
      = .ok () { w with globalBuffer := w.globalBuffer.drain r } := rfl

@[simp] theorem run_freeParser (w : World cfg L) :
    Connection.freeParser.run w = .ok () { w with conn := { w.conn with parser := none } } := rfl

@[simp] theorem run_freeServer (io : Io) (w : World cfg L) :
    (Connection.freeServer io).run w = .ok () (if w.conn.server.isSome then
      { w with
        globalBuffer := w.globalBuffer.drain io.serverClose
        conn := { w.conn with server := none }
        calls := w.calls ++ [.closeServer] } else w) := by
  cases h : w.conn.server <;> simp [Connection.freeServer, h]

@[simp] theorem run_createServer (io : Io) (w : World cfg L) :
    (Server.create io).run w = if io.connectOk then
      .ok true { w with conn := { w.conn with server := some {} }, calls := w.calls ++ [.connect] }
    else .ok false w := by
  unfold Server.create
  cases io.connectOk <;> rfl

@[simp] theorem run_replyWith503Unavailable (io : Io) (w : World cfg L) :
    (replyWith503Unavailable io).run w = .ok ()
      { w with
        globalBuffer := w.globalBuffer.put (unavailable503 cfg) (unavailable503_length_le cfg)
        calls := w.calls ++ [.page503 (writeAll io.clientWrites (unavailable503 cfg)).data] } := by
  simp [replyWith503Unavailable]

/-- The connection `accept_new` makes, and the pool it leaves. -/
def Connection.acceptNew (L : Llhttp) (pool : List (Hist cfg)) (id : ℕ) :
    Connection cfg L × List (Hist cfg) :=
  ({ client := (Client.create pool id).1.startReading }, (Client.create pool id).2)

end LSProxy
