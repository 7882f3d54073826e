import LSProxy.Model.Connection

/-!
# The callbacks

Every handler of `client.cpp`, `server.cpp` and `connection.cpp` that works on one connection, and
the body of `monitor_data_rates` (`ls_proxy.cpp`), statement by statement. The dereferences in the
arguments of `LOG2` are kept, the text that is printed is not.

* `Callback.handler` — which function an event runs;
* `Connection.Enabled` — which events can fire;
* `Connection.fire` — one event: the calls made on the sockets, and what becomes of the connection.

A `ParserError` is the `none` of `doParse`, a `ConnectionError` the `false` of `Server.create`; the
`catch` blocks are the corresponding branches. Writes to buffer files take their results from
`Io.disk`: the first and second store of a callback from `disk 0` and `disk 1`, the stores of the
history copy from `disk 2` on.
-/

namespace LSProxy

open Handler

variable {cfg : Config} {L : Llhttp}

/-! ### `client.cpp` -/

/-- `Client::keep_track_request_history`; `false` is `ParserError`. -/
def Client.keepTrackRequestHistory (io : Io) (size : ℕ) : Handler cfg L Bool := do
  let p ← getParser
  let data ← scratchFirst size
  match p.doParse data with
  | none => return false
  | some p' =>
    setParser p'
    let h ← getRequestHistory
    match p'.lastEom with
    | some k =>
      -- start storing from here
      let rest ← scratchBetween k size
      let buf ← check (h.buf.clear.store (io.disk 0) rest)
      onClient fun c => { c with requestHistory := some ⟨h.id, buf⟩ }
    | none =>
      let buf ← check (h.buf.store (io.disk 0) data)
      onClient fun c => { c with requestHistory := some ⟨h.id, buf⟩ }
    return true

/-- `Client::recv_to_buffer_slowly`, once the data has been parsed and its first message ends at
position `k`. -/
def Client.dispatchRequest (io : Io) (nbytes k : ℕ) : Handler cfg L Unit := do
  -- store first msg to request_buf, the remaining to request_tmp_buf
  let part1 ← scratchFirst k
  let buf ← check ((← getRequestBuf).store (io.disk 0) part1)
  onClient fun c => { c with requestBuf := some buf }
  if 0 < nbytes - k then
    let part2 ← scratchBetween k nbytes
    let tmp ← check ((← getRequestTmpBuf).store (io.disk 1) part2)
    onClient fun c => { c with requestTmpBuf := some tmp }
  -- pause client, rewind buffers and interact with server
  onClient Client.stopReading
  let buf ← check ((← getRequestBuf).rewind)
  onClient fun c => { c with requestBuf := some buf }
  setParser (← getParser).switchToResponseMode
  if ← Server.create io then
    onServer Server.startWriting
    onServer Server.startReading
  else
    replyWith503Unavailable io
    Connection.delete io

/-- `Client::recv_to_buffer_slowly`. -/
def Client.recvToBufferSlowly (io : Io) : Handler cfg L Unit := do
  let stat ← readClient io cfg.sockIoBufSize le_rfl
  if stat.hasEof then Connection.delete io
  else
    let p ← getParser
    let data ← scratchFirst stat.nbytes
    match p.doParse data with
    | none =>
      if (← get).conn.server.isSome then throw (.fault .assertFailed)
      else
        Connection.freeParser
        if 0 < (← getResponseBuf).dataSize then onClient Client.setReplyOnlyMode
        else Connection.delete io
    | some p' =>
      setParser p'
      match p'.firstEom with
      | some k => Client.dispatchRequest io stat.nbytes k
      | none =>
        let buf ← check ((← getRequestBuf).store (io.disk 0) data)
        onClient fun c => { c with requestBuf := some buf }

/-- `Client::send_response_slowly`. -/
def Client.sendResponseSlowly (io : Io) : Handler cfg L Unit := do
  let buf ← getResponseBuf
  onClient fun c => { c with responseBuf := some (buf.fetch cfg.sockIoBufSize).1 }
  putScratch (buf.fetch cfg.sockIoBufSize).2 (buf.fetch_length_le _)
  let count := (buf.fetch cfg.sockIoBufSize).2.length
  if 0 < count then
    let data ← scratchFirst count
    let o := writeAll io.clientWrites data
    call (.clientWrite o.data)
    if o.stat.nbytes < count then
      let buf ← check ((← getResponseBuf).rewind (count - o.stat.nbytes))
      onClient fun c => { c with responseBuf := some buf }
  else
    onClient Client.stopWriting
    if (← get).conn.parser.isNone then Connection.delete io

/-! ### `connection.cpp` -/

/-- `Connection::fast_forward(Client*, Server*)`. -/
def Connection.fastForwardToServer (io : Io) : Handler cfg L Unit := do
  -- first store to global_buffer
  let q ← getServerQueue
  let statC ← readClient io q.remainingSpace q.remainingSpace_le
  onClient fun c => { c with readCount := c.readCount + statC.nbytes }
  if ← Client.keepTrackRequestHistory io statC.nbytes then
    -- then append to server's queued output, and write them out
    let data ← scratchFirst statC.nbytes
    let (q', o) ← check (((← getServerQueue).copyFrom data).1.writeAllTo io.serverWrites)
    onServer fun s => { s with queuedOutput := some q' }
    call (.serverWrite o.data)
    let _ ← getServerQueue
    if statC.hasEof then Connection.delete io
    else if o.stat.nbytes = 0 then
      onClient Client.stopReading
      onServer Server.startWriting
  else
    Connection.freeServer io
    Connection.freeParser
    if 0 < (← getClientQueue).dataSize then onClient Client.setReplyOnlyMode
    else Connection.delete io

/-- `Connection::fast_forward(Server*, Client*)`, with `Circularbuf::read_all_from`. -/
def Connection.fastForwardToClient (io : Io) : Handler cfg L Unit := do
  let q ← getClientQueue
  let statS ← readServer io q.remainingSpace q.remainingSpace_le
  let data ← scratchFirst statS.nbytes
  if (q.copyFrom data).2 = statS.nbytes then
    let (q', o) ← check ((q.copyFrom data).1.writeAllTo io.clientWrites)
    onClient fun c => { c with queuedOutput := some q' }
    call (.clientWrite o.data)
    onClient fun c => { c with writeCount := c.writeCount + o.stat.nbytes }
    let _ ← getClientQueue
    if statS.hasEof then
      Connection.freeServer io
      Connection.freeParser
      if 0 < (← getClientQueue).dataSize then onClient Client.setReplyOnlyMode
      else Connection.delete io
    else if o.stat.nbytes = 0 then
      onServer Server.stopReading
      onClient Client.startWriting
  else throw (.fault .assertFailed)

/-- The loop `while (queued_output->data_size() > 0) queued_output->dump_to(response_buf)`. One
round empties the queue (`Circularbuf.dumpAll_spec`). -/
def Circularbuf.dumpAll {size : ℕ} (disk : ℕ → List WriteResult) :
    ℕ → Circularbuf size → FIFOfilebuf → Except Fault (Circularbuf size × FIFOfilebuf)
  | 0, q, f => .ok (q, f)
  | rounds + 1, q, f =>
    if 0 < q.dataSize then
      match q.dumpTo disk f with
      | .error e => .error e
      | .ok (q', f') => Circularbuf.dumpAll disk rounds q' f'
    else .ok (q, f)

/-- `Connection::set_slow_mode`, in a connection that has a parser. -/
def Connection.startTransition (io : Io) : Handler cfg L Unit := do
  -- pause client, wait until server finished its msg then close server
  onClient Client.stopReading
  onServer Server.startReadingWithTimeout
  if 0 < (← getServerQueue).dataSize then onServer Server.startWriting
  else Server.freeQueuedOutput
  -- retrieve previous packets
  let h ← getRequestHistory
  let (g, hist, buf) ← check (h.buf.copyData (fun k => io.disk (k + 2)) (← get).globalBuffer
    (← getRequestBuf))
  modify fun w => { w with globalBuffer := g }
  onClient fun c => { c with requestHistory := some ⟨h.id, hist⟩, requestBuf := some buf }
  Client.releaseRequestHistory
  -- decommission fast-mode queue
  let q ← getClientQueue
  let (q', resp) ← check (q.dumpAll io.disk q.dataSize (← getResponseBuf))
  onClient fun c => { c with queuedOutput := some q', responseBuf := some resp }
  Client.freeQueuedOutput

/-- `Connection::set_slow_mode`. -/
def Connection.setSlowMode (io : Io) : Handler cfg L Unit := do
  if !(← get).conn.fastMode || (← get).conn.inTransition then return
  else
    modify fun w => { w with conn := { w.conn with fastMode := false, inTransition := true } }
    onClient fun c =>
      { c with requestBuf := some {}, requestTmpBuf := some {}, responseBuf := some {} }
    if (← get).conn.parser.isNone then
      -- parser & server not created
      setParser (HttpParser.new L)
      onClient Client.stopReading
      Client.releaseRequestHistory
      onClient Client.startReading
      modify fun w => { w with conn := { w.conn with inTransition := false } }
    else Connection.startTransition io

/-! ### Callbacks of the client -/

/-- `Client::on_readable`. -/
def Client.onReadable (io : Io) : Handler cfg L Unit := do
  if (← get).conn.fastMode then
    if (← get).conn.parser.isNone then
      -- parser & server not created
      setParser (HttpParser.new L)
      if ← Server.create io then
        onServer fun s => { s with queuedOutput := some (Circularbuf.new cfg.sockIoBufSize_pos) }
        onClient fun c => { c with queuedOutput := some (Circularbuf.new cfg.sockIoBufSize_pos) }
        onServer Server.startReading
        Connection.fastForwardToServer io
      else
        replyWith503Unavailable io
        Connection.delete io
    else Connection.fastForwardToServer io
  else Client.recvToBufferSlowly io

/-- `Client::on_writable`. -/
def Client.onWritable (io : Io) : Handler cfg L Unit := do
  if (← get).conn.fastMode then
    if (← get).conn.server.isNone then
      -- server closed (reply-only mode)
      let (q, o) ← check ((← getClientQueue).writeAllTo io.clientWrites)
      onClient fun c => { c with queuedOutput := some q }
      call (.clientWrite o.data)
      if (o.hasError ∧ o.errno = .other) ∨ (← getClientQueue).dataSize = 0 then Connection.delete io
    else
      -- re-enable server's read because we disabled it before
      onServer Server.startReading
      onClient Client.stopWriting
      let (q, o) ← check ((← getClientQueue).writeAllTo io.clientWrites)
      onClient fun c => { c with queuedOutput := some q }
      call (.clientWrite o.data)
      let _ ← getClientQueue
  else Client.sendResponseSlowly io

/-! ### `server.cpp` -/

/-- `Server::recv_to_buffer_slowly`. -/
def Server.recvToBufferSlowly (io : Io) : Handler cfg L Unit := do
  let stat ← readServer io cfg.sockIoBufSize le_rfl
  let data ← scratchFirst stat.nbytes
  let buf ← check ((← getResponseBuf).store (io.disk 0) data)
  onClient fun c => { c with responseBuf := some buf }
  onClient Client.startWriting
  match (← getParser).doParse data with
  | none =>
    Connection.freeServer io
    Connection.freeParser
    if 0 < (← getResponseBuf).dataSize then onClient Client.setReplyOnlyMode
    else Connection.delete io
  | some p' =>
    setParser p'
    if stat.hasEof ∨ p'.lastEom.isSome then
      -- server closed or msg finished
      Connection.freeServer io
      setParser (← getParser).switchToRequestMode
      onClient Client.startReading

/-- `Server::send_request_slowly`. -/
def Server.sendRequestSlowly (io : Io) : Handler cfg L Unit := do
  let buf ← getRequestBuf
  onClient fun c => { c with requestBuf := some (buf.fetch cfg.sockIoBufSize).1 }
  putScratch (buf.fetch cfg.sockIoBufSize).2 (buf.fetch_length_le _)
  let count := (buf.fetch cfg.sockIoBufSize).2.length
  if 0 < count then
    let data ← scratchFirst count
    let o := writeAll io.serverWrites data
    call (.serverWrite o.data)
    if o.stat.nbytes < count then
      let buf ← check ((← getRequestBuf).rewind (count - o.stat.nbytes))
      onClient fun c => { c with requestBuf := some buf }
  else
    -- done forwarding: move data back from request_tmp_buf
    onServer Server.stopWriting
    let request ← getRequestBuf
    let tmp ← getRequestTmpBuf
    onClient fun c => { c with requestBuf := some tmp, requestTmpBuf := some request.clear }

/-- `Server::on_readable`; `timeout` is `flag & EV_TIMEOUT`. -/
def Server.onReadable (timeout : Bool) (io : Io) : Handler cfg L Unit := do
  if (← get).conn.fastMode then Connection.fastForwardToClient io
  else if (← get).conn.inTransition then
    if timeout then
      -- timed out (no packets for a while)
      modify fun w => { w with conn := { w.conn with inTransition := false } }
      Connection.freeServer io
      onClient Client.startReading
    else
      let stat ← readServer io cfg.sockIoBufSize le_rfl
      if stat.hasEof then
        -- server closed
        modify fun w => { w with conn := { w.conn with inTransition := false } }
        Connection.freeServer io
        onClient Client.startReading
      else
        -- store to response buffer
        let data ← scratchFirst stat.nbytes
        let buf ← check ((← getResponseBuf).store (io.disk 0) data)
        onClient fun c => { c with responseBuf := some buf }
        onClient Client.startWriting
  else Server.recvToBufferSlowly io

/-- `Server::on_writable`. -/
def Server.onWritable (io : Io) : Handler cfg L Unit := do
  if (← get).conn.fastMode then
    -- re-enable client's read because we disabled it before
    onClient Client.startReading
    onServer Server.stopWriting
    let (q, o) ← check ((← getServerQueue).writeAllTo io.serverWrites)
    onServer fun s => { s with queuedOutput := some q }
    call (.serverWrite o.data)
    let _ ← getServerQueue
  else if (← get).conn.inTransition then
    -- simply feed queue to server
    let (q, o) ← check ((← getServerQueue).writeAllTo io.serverWrites)
    onServer fun s => { s with queuedOutput := some q }
    call (.serverWrite o.data)
    if (← getServerQueue).dataSize = 0 then
      onServer Server.stopWriting
      Server.freeQueuedOutput
    let _ ← getServerQueue
  else Server.sendRequestSlowly io

/-! ### `ls_proxy.cpp` -/

/-- The body of the loop of `monitor_data_rates`. -/
def monitorDataRates (io : Io) : Handler cfg L Unit := do
  let readCount := (← get).conn.client.readCount
  let writeCount := (← get).conn.client.writeCount
  if writeCount < cfg.minDown ∧ readCount < cfg.minDown then
    -- drop download-too-slow connections (if it was not uploading)
    Connection.delete io
  else
    -- check data transfer rate (upload + download)
    if (← get).conn.fastMode ∧ readCount + writeCount < cfg.minDtr then Connection.setSlowMode io
    onClient fun c => { c with readCount := 0, writeCount := 0 }

/-- What can happen to a connection: one of its four events fires, the reading event of the server
possibly by timeout; a tick of `monitor_data_rates` visits it; `put_events_slow_mode`, which
`SIGUSR1` schedules, visits it. -/
inductive Callback
  | clientReadable
  | clientWritable
  | serverReadable (timeout : Bool)
  | serverWritable
  | monitor
  | slowSwitch
  deriving DecidableEq, Repr

/-- The function a callback runs. -/
def Callback.handler (cb : Callback) (io : Io) : Handler cfg L Unit :=
  match cb with
  | .clientReadable => Client.onReadable io
  | .clientWritable => Client.onWritable io
  | .serverReadable timeout => Server.onReadable timeout io
  | .serverWritable => Server.onWritable io
  | .monitor => monitorDataRates io
  | .slowSwitch => Connection.setSlowMode io

/-- Some event of the connection is pending, so that `get_all_connections` and
`put_events_slow_mode` find it. -/
def Connection.hasEvent (conn : Connection cfg L) : Bool :=
  conn.client.readEvt || conn.client.writeEvt ||
    conn.server.any fun s => s.readEvt || s.writeEvt

/-- A callback fires only while its event is pending. -/
def Connection.enabled (conn : Connection cfg L) : Callback → Bool
  | .clientReadable => conn.client.readEvt
  | .clientWritable => conn.client.writeEvt
  | .serverReadable false => conn.server.any (·.readEvt)
  | .serverReadable true => conn.server.any fun s => s.readEvt && s.readTimeout
  | .serverWritable => conn.server.any (·.writeEvt)
  | .monitor => conn.hasEvent
  | .slowSwitch => conn.hasEvent

/-- What becomes of a connection. -/
inductive Status (cfg : Config) (L : Llhttp)
  | live (conn : Connection cfg L)
  | deleted
  | crashed (f : Fault)

/-- The effects of one event. -/
structure Effect (cfg : Config) (L : Llhttp) where
  status : Status cfg L
  calls : List Call
  globalBuffer : Scratch cfg.sockIoBufSize
  pool : List (Hist cfg)

/-- Read the result of a handler. -/
def Effect.of : EStateM.Result Exit (World cfg L) Unit → Effect cfg L
  | .ok _ w => ⟨.live w.conn, w.calls, w.globalBuffer, w.pool⟩
  | .error .deleted w => ⟨.deleted, w.calls, w.globalBuffer, w.pool⟩
  | .error (.fault f) w => ⟨.crashed f, w.calls, w.globalBuffer, w.pool⟩

/-- One event of a connection, with the shared buffers as it finds them. -/
def Connection.fire (conn : Connection cfg L) (cb : Callback) (io : Io)
    (globalBuffer : Scratch cfg.sockIoBufSize) (pool : List (Hist cfg)) : Effect cfg L :=
  .of ((cb.handler io).run ⟨globalBuffer, pool, conn, []⟩)

end LSProxy
