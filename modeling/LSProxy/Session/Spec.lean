import LSProxy.Model.Callbacks

/-!
# Sessions: what a connection does, phase by phase

The code never stores the phase of a connection: it is spread over two flags, three pointers, the
settings of the parser and four event registrations. Here it is the constructor of `Phase`, which
carries just the data that phase uses, and what a callback can do is a relation with one rule for
each way through the code (`Session.Step`). Neither the scratch buffer nor the pool nor the memory
of a history buffer occurs: a session knows only the bytes recorded in its history.

The larger handlers have relations of their own, `FastForwardToServer`, `FastForwardToClient`,
`SlowSwitch`, `Dispatch` and `Deliver`, which `Step` refers to.

`Session.Step.unique`: a session, a callback and the results of its system calls determine what is
done on the sockets and what becomes of the session.
-/

namespace LSProxy

variable {cfg : Config} {L : Llhttp}

/-! ### Sessions -/

/-- The buffers of slow mode: `request_buf`; the content of `request_tmp_buf`, whose cursor stays
at its end; what of `response_buf` has been fetched and what has not. -/
structure SlowBufs where
  request : Filebuf := {}
  tmp : Bytes := []
  sent : Bytes := []
  unread : Bytes := []

/-- The phases of a connection. The flags `cw` and `sw` say whether the writing events of the
client and of the server are pending; `stale` is a `client->queued_output` left over from fast
mode. -/
inductive Phase (cfg : Config) (L : Llhttp)
  | fresh
  | fast (p : HttpParser L) (hist : Bytes) (cq sq : Circularbuf cfg.sockIoBufSize) (cw sw : Bool)
  | reply (cq : Circularbuf cfg.sockIoBufSize)
  | transition (p : HttpParser L) (b : SlowBufs) (sq : Option (Circularbuf cfg.sockIoBufSize))
      (cw sw : Bool)
  | idle (p : HttpParser L) (b : SlowBufs) (stale : Option (Circularbuf cfg.sockIoBufSize))
      (cw : Bool)
  | exchange (p : HttpParser L) (b : SlowBufs) (stale : Option (Circularbuf cfg.sockIoBufSize))
      (cw sw : Bool)
  | slowReply (b : SlowBufs) (stale : Option (Circularbuf cfg.sockIoBufSize))

/-- Is the connection in fast mode? -/
def Phase.isFast : Phase cfg L → Bool
  | .fresh | .fast .. | .reply _ => true
  | _ => false

/-- Does the connection have a server? -/
def Phase.hasServer : Phase cfg L → Bool
  | .fast .. | .transition .. | .exchange .. => true
  | _ => false

/-- `read_count` and `write_count`. -/
structure Counts where
  read : ℕ := 0
  write : ℕ := 0

/-- A connection: its counters and its phase. -/
structure Session (cfg : Config) (L : Llhttp) where
  counts : Counts
  phase : Phase cfg L

/-- The session of a connection that has just been accepted. -/
def Session.initial (cfg : Config) (L : Llhttp) : Session cfg L :=
  ⟨⟨cfg.counterInit, cfg.counterInit⟩, .fresh⟩

/-- What becomes of a session. -/
inductive Outcome (cfg : Config) (L : Llhttp)
  | live (s : Session cfg L)
  | deleted
  | crashed (f : Fault)

namespace Session

/-! ### Fast mode -/

/-- The history after `data` has been read and parsed, which left the parser `p`. -/
def recorded (cfg : Config) (io : Io) (p : HttpParser L) (hist data : Bytes) :
    Except Fault Bytes :=
  match p.lastEom with
  | some k => Hybridbuf.stored cfg.histCacheSize (io.disk 0) [] (data.drop k)
  | none => Hybridbuf.stored cfg.histCacheSize (io.disk 0) hist data

/-- `fast_forward(Client*, Server*)`. -/
inductive FastForwardToServer (n : Counts) (p : HttpParser L) (hist : Bytes)
    (cq sq : Circularbuf cfg.sockIoBufSize) (cw : Bool) (io : Io) :
    List Call → Outcome cfg L → Prop
  | malformedReply {o : ReadOutcome} (ho : readAll io.clientReads sq.remainingSpace = o)
      (hp : p.doParse o.data = none) (hcq : cq.contents ≠ []) :
      FastForwardToServer n p hist cq sq cw io [.clientRead o.data, .closeServer]
        (.live ⟨{ n with read := n.read + o.data.length }, .reply cq⟩)
  | malformedDelete {o : ReadOutcome} (ho : readAll io.clientReads sq.remainingSpace = o)
      (hp : p.doParse o.data = none) (hcq : cq.contents = []) :
      FastForwardToServer n p hist cq sq cw io
        [.clientRead o.data, .closeServer, .closeClient] .deleted
  | histFault {o : ReadOutcome} {p' : HttpParser L} {f : Fault}
      (ho : readAll io.clientReads sq.remainingSpace = o) (hp : p.doParse o.data = some p')
      (hhist : recorded cfg io p' hist o.data = .error f) :
      FastForwardToServer n p hist cq sq cw io [.clientRead o.data] (.crashed f)
  | eof {o : ReadOutcome} {p' : HttpParser L} {hist' : Bytes}
      {sq' : Circularbuf cfg.sockIoBufSize} {w : WriteOutcome}
      (ho : readAll io.clientReads sq.remainingSpace = o) (hp : p.doParse o.data = some p')
      (hhist : recorded cfg io p' hist o.data = .ok hist')
      (hw : (sq.copyFrom o.data).1.writeAllTo io.serverWrites = .ok (sq', w))
      (heof : o.hasEof = true) :
      FastForwardToServer n p hist cq sq cw io
        [.clientRead o.data, .serverWrite w.data, .closeServer, .closeClient] .deleted
  | forward {o : ReadOutcome} {p' : HttpParser L} {hist' : Bytes}
      {sq' : Circularbuf cfg.sockIoBufSize} {w : WriteOutcome}
      (ho : readAll io.clientReads sq.remainingSpace = o) (hp : p.doParse o.data = some p')
      (hhist : recorded cfg io p' hist o.data = .ok hist')
      (hw : (sq.copyFrom o.data).1.writeAllTo io.serverWrites = .ok (sq', w))
      (heof : o.hasEof = false) :
      -- an unwritable server takes over from the client's reading event
      FastForwardToServer n p hist cq sq cw io [.clientRead o.data, .serverWrite w.data]
        (.live ⟨{ n with read := n.read + o.data.length },
          .fast p' hist' cq sq' cw w.data.isEmpty⟩)

/-- `fast_forward(Server*, Client*)`. -/
inductive FastForwardToClient (n : Counts) (p : HttpParser L) (hist : Bytes)
    (cq sq : Circularbuf cfg.sockIoBufSize) (sw : Bool) (io : Io) :
    List Call → Outcome cfg L → Prop
  | eofReply {o : ReadOutcome} {cq' : Circularbuf cfg.sockIoBufSize} {w : WriteOutcome}
      (ho : readAll io.serverReads cq.remainingSpace = o)
      (hw : (cq.copyFrom o.data).1.writeAllTo io.clientWrites = .ok (cq', w))
      (heof : o.hasEof = true) (hcq : cq'.contents ≠ []) :
      FastForwardToClient n p hist cq sq sw io
        [.serverRead o.data, .clientWrite w.data, .closeServer]
        (.live ⟨{ n with write := n.write + w.data.length }, .reply cq'⟩)
  | eofDelete {o : ReadOutcome} {cq' : Circularbuf cfg.sockIoBufSize} {w : WriteOutcome}
      (ho : readAll io.serverReads cq.remainingSpace = o)
      (hw : (cq.copyFrom o.data).1.writeAllTo io.clientWrites = .ok (cq', w))
      (heof : o.hasEof = true) (hcq : cq'.contents = []) :
      FastForwardToClient n p hist cq sq sw io
        [.serverRead o.data, .clientWrite w.data, .closeServer, .closeClient] .deleted
  | forward {o : ReadOutcome} {cq' : Circularbuf cfg.sockIoBufSize} {w : WriteOutcome}
      (ho : readAll io.serverReads cq.remainingSpace = o)
      (hw : (cq.copyFrom o.data).1.writeAllTo io.clientWrites = .ok (cq', w))
      (heof : o.hasEof = false) :
      FastForwardToClient n p hist cq sq sw io [.serverRead o.data, .clientWrite w.data]
        (.live ⟨{ n with write := n.write + w.data.length },
          .fast p hist cq' sq w.data.isEmpty sw⟩)

/-! ### Leaving fast mode -/

/-- `set_slow_mode` on a connection in fast mode. -/
inductive SlowSwitch (io : Io) : Phase cfg L → Except Fault (Phase cfg L) → Prop
  | fresh : SlowSwitch io .fresh (.ok (.idle (.new L) {} none false))
  | reply {cq : Circularbuf cfg.sockIoBufSize} :
      SlowSwitch io (.reply cq) (.ok (.idle (.new L) {} (some cq) true))
  | copyFault {p : HttpParser L} {hist : Bytes} {cq sq : Circularbuf cfg.sockIoBufSize}
      {cw sw : Bool} {f : Fault}
      (hcopy : Hybridbuf.copied (fun k => io.disk (k + 2)) cfg.histCacheSize cfg.sockIoBufSize
        hist (hist.length + 1) 0 0 [] = .error f) :
      SlowSwitch io (.fast p hist cq sq cw sw) (.error f)
  | dumpFault {p : HttpParser L} {hist c : Bytes} {cq sq : Circularbuf cfg.sockIoBufSize}
      {cw sw : Bool} {f : Fault}
      (hcopy : Hybridbuf.copied (fun k => io.disk (k + 2)) cfg.histCacheSize cfg.sockIoBufSize
        hist (hist.length + 1) 0 0 [] = .ok c)
      (hdump : cq.dumpAll io.disk cq.dataSize (.queue [] []) = .error f) :
      SlowSwitch io (.fast p hist cq sq cw sw) (.error f)
  | fast {p : HttpParser L} {hist c stored : Bytes} {cq cq' sq : Circularbuf cfg.sockIoBufSize}
      {cw sw : Bool}
      (hcopy : Hybridbuf.copied (fun k => io.disk (k + 2)) cfg.histCacheSize cfg.sockIoBufSize
        hist (hist.length + 1) 0 0 [] = .ok c)
      (hdump : cq.dumpAll io.disk cq.dataSize (.queue [] []) = .ok (cq', .queue [] stored)) :
      -- an empty server queue is freed; a pending writing event stays pending all the same
      SlowSwitch io (.fast p hist cq sq cw sw)
        (.ok (.transition p { request := .filled c, unread := stored }
          (if sq.contents = [] then none else some sq) cw (sw || !sq.contents.isEmpty)))

/-! ### Slow mode -/

/-- `send_response_slowly`: the bytes written, the buffers, and whether the writing event stays. -/
inductive Deliver (cfg : Config) (b : SlowBufs) (io : Io) : List Call → SlowBufs → Bool → Prop
  | some {w : WriteOutcome} (hne : b.unread ≠ [])
      (hw : writeAll io.clientWrites (b.unread.take cfg.sockIoBufSize) = w) :
      Deliver cfg b io [.clientWrite w.data]
        { b with sent := b.sent ++ w.data, unread := b.unread.drop w.data.length } true
  | none (hnil : b.unread = []) : Deliver cfg b io [] b false

/-- `recv_to_buffer_slowly` of the client once the parser, now `p'`, has found the first message
of `data` to end at `k`. -/
inductive Dispatch (n : Counts) (p' : HttpParser L) (k : ℕ) (data : Bytes) (b : SlowBufs)
    (stale : Option (Circularbuf cfg.sockIoBufSize)) (cw : Bool) (io : Io) :
    List Call → Outcome cfg L → Prop
  | storeFault {f : Fault} (hr : b.request.store (io.disk 0) (data.take k) = .error f) :
      Dispatch n p' k data b stale cw io [] (.crashed f)
  | tmpFault {r : Filebuf} {f : Fault} (hr : b.request.store (io.disk 0) (data.take k) = .ok r)
      (ht : (Filebuf.filled b.tmp).store (io.disk 1) (data.drop k) = .error f) :
      Dispatch n p' k data b stale cw io [] (.crashed f)
  | refused {r : Filebuf} {tmp : Bytes} (hr : b.request.store (io.disk 0) (data.take k) = .ok r)
      (ht : (Filebuf.filled b.tmp).store (io.disk 1) (data.drop k) = .ok (.filled tmp))
      (hc : io.connectOk = false) :
      Dispatch n p' k data b stale cw io
        [.page503 (writeAll io.clientWrites (unavailable503 cfg)).data, .closeClient] .deleted
  | connect {r : Filebuf} {tmp : Bytes} (hr : b.request.store (io.disk 0) (data.take k) = .ok r)
      (ht : (Filebuf.filled b.tmp).store (io.disk 1) (data.drop k) = .ok (.filled tmp))
      (hc : io.connectOk = true) :
      Dispatch n p' k data b stale cw io [.connect]
        (.live ⟨n, .exchange p'.switchToResponseMode
          { b with request := { r with offset := 0 }, tmp := tmp } stale cw true⟩)

/-! ### One callback -/

/-- What a callback can do to a session: the calls on the sockets, and the outcome. -/
inductive Step : Session cfg L → Callback → Io → List Call → Outcome cfg L → Prop
  -- fresh
  | freshRefused {n : Counts} {io : Io} (hc : io.connectOk = false) :
      Step ⟨n, .fresh⟩ .clientReadable io
        [.page503 (writeAll io.clientWrites (unavailable503 cfg)).data, .closeClient] .deleted
  | freshConnect {n : Counts} {io : Io} {calls : List Call} {out : Outcome cfg L}
      (hc : io.connectOk = true)
      (h : FastForwardToServer n (.new L) [] (.new cfg.sockIoBufSize_pos)
        (.new cfg.sockIoBufSize_pos) false io calls out) :
      Step ⟨n, .fresh⟩ .clientReadable io (.connect :: calls) out
  -- fast
  | fastClientReadable {n : Counts} {p : HttpParser L} {hist : Bytes}
      {cq sq : Circularbuf cfg.sockIoBufSize} {cw : Bool} {io : Io} {calls : List Call}
      {out : Outcome cfg L} (h : FastForwardToServer n p hist cq sq cw io calls out) :
      Step ⟨n, .fast p hist cq sq cw false⟩ .clientReadable io calls out
  | fastServerReadable {n : Counts} {p : HttpParser L} {hist : Bytes}
      {cq sq : Circularbuf cfg.sockIoBufSize} {sw : Bool} {io : Io} {calls : List Call}
      {out : Outcome cfg L} (h : FastForwardToClient n p hist cq sq sw io calls out) :
      Step ⟨n, .fast p hist cq sq false sw⟩ (.serverReadable false) io calls out
  | fastClientWritable {n : Counts} {p : HttpParser L} {hist : Bytes}
      {cq cq' sq : Circularbuf cfg.sockIoBufSize} {sw : Bool} {io : Io} {w : WriteOutcome}
      (hw : cq.writeAllTo io.clientWrites = .ok (cq', w)) :
      Step ⟨n, .fast p hist cq sq true sw⟩ .clientWritable io [.clientWrite w.data]
        (.live ⟨n, .fast p hist cq' sq false sw⟩)
  | fastServerWritable {n : Counts} {p : HttpParser L} {hist : Bytes}
      {cq sq sq' : Circularbuf cfg.sockIoBufSize} {cw : Bool} {io : Io} {w : WriteOutcome}
      (hw : sq.writeAllTo io.serverWrites = .ok (sq', w)) :
      Step ⟨n, .fast p hist cq sq cw true⟩ .serverWritable io [.serverWrite w.data]
        (.live ⟨n, .fast p hist cq sq' cw false⟩)
  -- reply-only
  | replyDone {n : Counts} {cq cq' : Circularbuf cfg.sockIoBufSize} {io : Io} {w : WriteOutcome}
      (hw : cq.writeAllTo io.clientWrites = .ok (cq', w))
      (hdone : (w.hasError = true ∧ w.errno = .other) ∨ cq'.contents = []) :
      Step ⟨n, .reply cq⟩ .clientWritable io [.clientWrite w.data, .closeClient] .deleted
  | replyMore {n : Counts} {cq cq' : Circularbuf cfg.sockIoBufSize} {io : Io} {w : WriteOutcome}
      (hw : cq.writeAllTo io.clientWrites = .ok (cq', w))
      (hmore : ¬ ((w.hasError = true ∧ w.errno = .other) ∨ cq'.contents = [])) :
      Step ⟨n, .reply cq⟩ .clientWritable io [.clientWrite w.data] (.live ⟨n, .reply cq'⟩)
  -- transition
  | transitionTimeout {n : Counts} {p : HttpParser L} {b : SlowBufs}
      {sq : Option (Circularbuf cfg.sockIoBufSize)} {cw sw : Bool} {io : Io} :
      Step ⟨n, .transition p b sq cw sw⟩ (.serverReadable true) io [.closeServer]
        (.live ⟨n, .idle p b none cw⟩)
  | transitionEof {n : Counts} {p : HttpParser L} {b : SlowBufs}
      {sq : Option (Circularbuf cfg.sockIoBufSize)} {cw sw : Bool} {io : Io} {o : ReadOutcome}
      (ho : readAll io.serverReads cfg.sockIoBufSize = o) (heof : o.hasEof = true) :
      Step ⟨n, .transition p b sq cw sw⟩ (.serverReadable false) io
        [.serverRead o.data, .closeServer] (.live ⟨n, .idle p b none cw⟩)
  | transitionFault {n : Counts} {p : HttpParser L} {b : SlowBufs}
      {sq : Option (Circularbuf cfg.sockIoBufSize)} {cw sw : Bool} {io : Io} {o : ReadOutcome}
      (ho : readAll io.serverReads cfg.sockIoBufSize = o) (heof : o.hasEof = false)
      (hstore : written (io.disk 0) o.data.length = none) :
      Step ⟨n, .transition p b sq cw sw⟩ (.serverReadable false) io [.serverRead o.data]
        (.crashed .errorExit)
  | transitionRead {n : Counts} {p : HttpParser L} {b : SlowBufs}
      {sq : Option (Circularbuf cfg.sockIoBufSize)} {cw sw : Bool} {io : Io} {o : ReadOutcome}
      {k : ℕ} (ho : readAll io.serverReads cfg.sockIoBufSize = o) (heof : o.hasEof = false)
      (hstore : written (io.disk 0) o.data.length = some k) :
      Step ⟨n, .transition p b sq cw sw⟩ (.serverReadable false) io [.serverRead o.data]
        (.live ⟨n, .transition p { b with unread := b.unread ++ o.data.take k } sq true sw⟩)
  | transitionNull {n : Counts} {p : HttpParser L} {b : SlowBufs} {cw : Bool} {io : Io} :
      Step ⟨n, .transition p b none cw true⟩ .serverWritable io []
        (.crashed (.null .serverQueuedOutput))
  | transitionDrained {n : Counts} {p : HttpParser L} {b : SlowBufs}
      {sq sq' : Circularbuf cfg.sockIoBufSize} {cw : Bool} {io : Io} {w : WriteOutcome}
      (hw : sq.writeAllTo io.serverWrites = .ok (sq', w)) (hsq : sq'.contents = []) :
      -- the queue has been freed when its size is logged
      Step ⟨n, .transition p b (some sq) cw true⟩ .serverWritable io [.serverWrite w.data]
        (.crashed (.null .serverQueuedOutput))
  | transitionWrite {n : Counts} {p : HttpParser L} {b : SlowBufs}
      {sq sq' : Circularbuf cfg.sockIoBufSize} {cw : Bool} {io : Io} {w : WriteOutcome}
      (hw : sq.writeAllTo io.serverWrites = .ok (sq', w)) (hsq : sq'.contents ≠ []) :
      Step ⟨n, .transition p b (some sq) cw true⟩ .serverWritable io [.serverWrite w.data]
        (.live ⟨n, .transition p b (some sq') cw true⟩)
  | transitionDeliver {n : Counts} {p : HttpParser L} {b b' : SlowBufs}
      {sq : Option (Circularbuf cfg.sockIoBufSize)} {cw' sw : Bool} {io : Io} {calls : List Call}
      (h : Deliver cfg b io calls b' cw') :
      Step ⟨n, .transition p b sq true sw⟩ .clientWritable io calls
        (.live ⟨n, .transition p b' sq cw' sw⟩)
  -- slow mode, reading the client
  | idleEof {n : Counts} {p : HttpParser L} {b : SlowBufs}
      {stale : Option (Circularbuf cfg.sockIoBufSize)} {cw : Bool} {io : Io} {o : ReadOutcome}
      (ho : readAll io.clientReads cfg.sockIoBufSize = o) (heof : o.hasEof = true) :
      Step ⟨n, .idle p b stale cw⟩ .clientReadable io [.clientRead o.data, .closeClient] .deleted
  | idleMalformedReply {n : Counts} {p : HttpParser L} {b : SlowBufs}
      {stale : Option (Circularbuf cfg.sockIoBufSize)} {cw : Bool} {io : Io} {o : ReadOutcome}
      (ho : readAll io.clientReads cfg.sockIoBufSize = o) (heof : o.hasEof = false)
      (hp : p.doParse o.data = none) (hb : b.sent ++ b.unread ≠ []) :
      Step ⟨n, .idle p b stale cw⟩ .clientReadable io [.clientRead o.data]
        (.live ⟨n, .slowReply b stale⟩)
  | idleMalformedDelete {n : Counts} {p : HttpParser L} {b : SlowBufs}
      {stale : Option (Circularbuf cfg.sockIoBufSize)} {cw : Bool} {io : Io} {o : ReadOutcome}
      (ho : readAll io.clientReads cfg.sockIoBufSize = o) (heof : o.hasEof = false)
      (hp : p.doParse o.data = none) (hb : b.sent ++ b.unread = []) :
      Step ⟨n, .idle p b stale cw⟩ .clientReadable io [.clientRead o.data, .closeClient] .deleted
  | idleFault {n : Counts} {p p' : HttpParser L} {b : SlowBufs}
      {stale : Option (Circularbuf cfg.sockIoBufSize)} {cw : Bool} {io : Io} {o : ReadOutcome}
      {f : Fault} (ho : readAll io.clientReads cfg.sockIoBufSize = o) (heof : o.hasEof = false)
      (hp : p.doParse o.data = some p') (hk : p'.firstEom = none)
      (hr : b.request.store (io.disk 0) o.data = .error f) :
      Step ⟨n, .idle p b stale cw⟩ .clientReadable io [.clientRead o.data] (.crashed f)
  | idleRead {n : Counts} {p p' : HttpParser L} {b : SlowBufs}
      {stale : Option (Circularbuf cfg.sockIoBufSize)} {cw : Bool} {io : Io} {o : ReadOutcome}
      {r : Filebuf} (ho : readAll io.clientReads cfg.sockIoBufSize = o) (heof : o.hasEof = false)
      (hp : p.doParse o.data = some p') (hk : p'.firstEom = none)
      (hr : b.request.store (io.disk 0) o.data = .ok r) :
      Step ⟨n, .idle p b stale cw⟩ .clientReadable io [.clientRead o.data]
        (.live ⟨n, .idle p' { b with request := r } stale cw⟩)
  | idleDispatch {n : Counts} {p p' : HttpParser L} {b : SlowBufs}
      {stale : Option (Circularbuf cfg.sockIoBufSize)} {cw : Bool} {io : Io} {o : ReadOutcome}
      {k : ℕ} {calls : List Call} {out : Outcome cfg L}
      (ho : readAll io.clientReads cfg.sockIoBufSize = o) (heof : o.hasEof = false)
      (hp : p.doParse o.data = some p') (hk : p'.firstEom = some k)
      (h : Dispatch n p' k o.data b stale cw io calls out) :
      Step ⟨n, .idle p b stale cw⟩ .clientReadable io (.clientRead o.data :: calls) out
  | idleDeliver {n : Counts} {p : HttpParser L} {b b' : SlowBufs}
      {stale : Option (Circularbuf cfg.sockIoBufSize)} {cw' : Bool} {io : Io} {calls : List Call}
      (h : Deliver cfg b io calls b' cw') :
      Step ⟨n, .idle p b stale true⟩ .clientWritable io calls (.live ⟨n, .idle p b' stale cw'⟩)
  -- slow mode, a request has been dispatched
  | exchangeFault {n : Counts} {p : HttpParser L} {b : SlowBufs}
      {stale : Option (Circularbuf cfg.sockIoBufSize)} {cw sw : Bool} {io : Io} {o : ReadOutcome}
      (ho : readAll io.serverReads cfg.sockIoBufSize = o)
      (hstore : written (io.disk 0) o.data.length = none) :
      Step ⟨n, .exchange p b stale cw sw⟩ (.serverReadable false) io [.serverRead o.data]
        (.crashed .errorExit)
  | exchangeMalformedReply {n : Counts} {p : HttpParser L} {b : SlowBufs}
      {stale : Option (Circularbuf cfg.sockIoBufSize)} {cw sw : Bool} {io : Io} {o : ReadOutcome}
      {k : ℕ} (ho : readAll io.serverReads cfg.sockIoBufSize = o)
      (hstore : written (io.disk 0) o.data.length = some k) (hp : p.doParse o.data = none)
      (hb : b.sent ++ (b.unread ++ o.data.take k) ≠ []) :
      Step ⟨n, .exchange p b stale cw sw⟩ (.serverReadable false) io
        [.serverRead o.data, .closeServer]
        (.live ⟨n, .slowReply { b with unread := b.unread ++ o.data.take k } stale⟩)
  | exchangeMalformedDelete {n : Counts} {p : HttpParser L} {b : SlowBufs}
      {stale : Option (Circularbuf cfg.sockIoBufSize)} {cw sw : Bool} {io : Io} {o : ReadOutcome}
      {k : ℕ} (ho : readAll io.serverReads cfg.sockIoBufSize = o)
      (hstore : written (io.disk 0) o.data.length = some k) (hp : p.doParse o.data = none)
      (hb : b.sent ++ (b.unread ++ o.data.take k) = []) :
      Step ⟨n, .exchange p b stale cw sw⟩ (.serverReadable false) io
        [.serverRead o.data, .closeServer, .closeClient] .deleted
  | exchangeEnd {n : Counts} {p p' : HttpParser L} {b : SlowBufs}
      {stale : Option (Circularbuf cfg.sockIoBufSize)} {cw sw : Bool} {io : Io} {o : ReadOutcome}
      {k : ℕ} (ho : readAll io.serverReads cfg.sockIoBufSize = o)
      (hstore : written (io.disk 0) o.data.length = some k) (hp : p.doParse o.data = some p')
      (hend : o.hasEof = true ∨ p'.lastEom.isSome = true) :
      Step ⟨n, .exchange p b stale cw sw⟩ (.serverReadable false) io
        [.serverRead o.data, .closeServer]
        (.live ⟨n, .idle p'.switchToRequestMode { b with unread := b.unread ++ o.data.take k }
          stale true⟩)
  | exchangeRead {n : Counts} {p p' : HttpParser L} {b : SlowBufs}
      {stale : Option (Circularbuf cfg.sockIoBufSize)} {cw sw : Bool} {io : Io} {o : ReadOutcome}
      {k : ℕ} (ho : readAll io.serverReads cfg.sockIoBufSize = o)
      (hstore : written (io.disk 0) o.data.length = some k) (hp : p.doParse o.data = some p')
      (hend : ¬ (o.hasEof = true ∨ p'.lastEom.isSome = true)) :
      Step ⟨n, .exchange p b stale cw sw⟩ (.serverReadable false) io [.serverRead o.data]
        (.live ⟨n, .exchange p' { b with unread := b.unread ++ o.data.take k } stale true sw⟩)
  | exchangeSend {n : Counts} {p : HttpParser L} {b : SlowBufs}
      {stale : Option (Circularbuf cfg.sockIoBufSize)} {cw : Bool} {io : Io} {w : WriteOutcome}
      (hne : (b.request.fetch cfg.sockIoBufSize).2 ≠ [])
      (hw : writeAll io.serverWrites (b.request.fetch cfg.sockIoBufSize).2 = w) :
      Step ⟨n, .exchange p b stale cw true⟩ .serverWritable io [.serverWrite w.data]
        (.live ⟨n, .exchange p
          { b with request := { b.request with offset := b.request.offset + w.data.length } }
          stale cw true⟩)
  | exchangeSwap {n : Counts} {p : HttpParser L} {b : SlowBufs}
      {stale : Option (Circularbuf cfg.sockIoBufSize)} {cw : Bool} {io : Io}
      (hnil : (b.request.fetch cfg.sockIoBufSize).2 = []) :
      Step ⟨n, .exchange p b stale cw true⟩ .serverWritable io []
        (.live ⟨n, .exchange p { b with request := .filled b.tmp, tmp := [] } stale cw false⟩)
  | exchangeDeliver {n : Counts} {p : HttpParser L} {b b' : SlowBufs}
      {stale : Option (Circularbuf cfg.sockIoBufSize)} {cw' sw : Bool} {io : Io}
      {calls : List Call} (h : Deliver cfg b io calls b' cw') :
      Step ⟨n, .exchange p b stale true sw⟩ .clientWritable io calls
        (.live ⟨n, .exchange p b' stale cw' sw⟩)
  -- slow mode, reply-only
  | slowReplyDeliver {n : Counts} {b b' : SlowBufs}
      {stale : Option (Circularbuf cfg.sockIoBufSize)} {io : Io} {calls : List Call}
      (h : Deliver cfg b io calls b' true) :
      Step ⟨n, .slowReply b stale⟩ .clientWritable io calls (.live ⟨n, .slowReply b' stale⟩)
  | slowReplyDone {n : Counts} {b b' : SlowBufs}
      {stale : Option (Circularbuf cfg.sockIoBufSize)} {io : Io} {calls : List Call}
      (h : Deliver cfg b io calls b' false) :
      Step ⟨n, .slowReply b stale⟩ .clientWritable io (calls ++ [.closeClient]) .deleted
  -- ticks and signals
  | monitorDrop {n : Counts} {ph : Phase cfg L} {io : Io}
      (hdrop : n.write < cfg.minDown ∧ n.read < cfg.minDown) :
      Step ⟨n, ph⟩ .monitor io
        ((if ph.hasServer then [.closeServer] else []) ++ [.closeClient]) .deleted
  | monitorKeep {n : Counts} {ph : Phase cfg L} {io : Io}
      (hkeep : ¬ (n.write < cfg.minDown ∧ n.read < cfg.minDown))
      (hslow : ¬ (ph.isFast = true ∧ n.read + n.write < cfg.minDtr)) :
      Step ⟨n, ph⟩ .monitor io [] (.live ⟨{}, ph⟩)
  | monitorSwitch {n : Counts} {ph ph' : Phase cfg L} {io : Io}
      (hkeep : ¬ (n.write < cfg.minDown ∧ n.read < cfg.minDown)) (hfast : ph.isFast = true)
      (hslow : n.read + n.write < cfg.minDtr) (h : SlowSwitch io ph (.ok ph')) :
      Step ⟨n, ph⟩ .monitor io [] (.live ⟨{}, ph'⟩)
  | monitorFault {n : Counts} {ph : Phase cfg L} {io : Io} {f : Fault}
      (hkeep : ¬ (n.write < cfg.minDown ∧ n.read < cfg.minDown)) (hfast : ph.isFast = true)
      (hslow : n.read + n.write < cfg.minDtr) (h : SlowSwitch io ph (.error f)) :
      Step ⟨n, ph⟩ .monitor io [] (.crashed f)
  | signalSlow {n : Counts} {ph : Phase cfg L} {io : Io} (hslow : ph.isFast = false) :
      Step ⟨n, ph⟩ .slowSwitch io [] (.live ⟨n, ph⟩)
  | signalSwitch {n : Counts} {ph ph' : Phase cfg L} {io : Io} (h : SlowSwitch io ph (.ok ph')) :
      Step ⟨n, ph⟩ .slowSwitch io [] (.live ⟨n, ph'⟩)
  | signalFault {n : Counts} {ph : Phase cfg L} {io : Io} {f : Fault}
      (h : SlowSwitch io ph (.error f)) :
      Step ⟨n, ph⟩ .slowSwitch io [] (.crashed f)

/-! ### Fast mode and its end -/

/-- Only a connection in fast mode is switched. -/
theorem SlowSwitch.isFast {io : Io} {ph : Phase cfg L} {r : Except Fault (Phase cfg L)}
    (h : SlowSwitch io ph r) : ph.isFast = true := by
  cases h <;> rfl

/-- Leaving fast mode changes nothing about the server, and leaves fast mode. -/
theorem SlowSwitch.switched {io : Io} {ph ph' : Phase cfg L} (h : SlowSwitch io ph (.ok ph')) :
    ph'.hasServer = ph.hasServer ∧ ph'.isFast = false := by
  cases h <;> exact ⟨rfl, rfl⟩

/-- **There is no way back to fast mode.** -/
theorem Step.slow {s s' : Session cfg L} {cb : Callback} {io : Io} {calls : List Call}
    (h : Step s cb io calls (.live s')) (hslow : s.phase.isFast = false) :
    s'.phase.isFast = false := by
  cases h with
  | freshConnect | fastClientReadable | fastServerReadable | fastClientWritable
  | fastServerWritable | replyMore => cases hslow
  | idleDispatch ho heof hp hk h =>
    cases h
    rfl
  | monitorSwitch hkeep hfast hslow h | signalSwitch h => exact h.switched.2
  | monitorKeep | signalSlow => exact hslow
  | _ => rfl

/-- A step that leaves fast mode is a switch. -/
theorem Step.slowSwitch {s s' : Session cfg L} {cb : Callback} {io : Io}
    {calls : List Call} (h : Step s cb io calls (.live s')) (hfast : s.phase.isFast = true)
    (hslow : s'.phase.isFast = false) : SlowSwitch io s.phase (.ok s'.phase) := by
  cases h with
  | monitorSwitch _ _ _ h | signalSwitch h => exact h
  | freshConnect _ h | fastClientReadable h | fastServerReadable h => cases h <;> cases hslow
  | fastClientWritable | fastServerWritable | replyMore => cases hslow
  | monitorKeep | signalSlow => exact absurd (hfast.symm.trans hslow) (by simp)
  | _ => cases hfast

/-! ### Steps are determined -/

theorem FastForwardToServer.unique {n : Counts} {p : HttpParser L} {hist : Bytes}
    {cq sq : Circularbuf cfg.sockIoBufSize} {cw : Bool} {io : Io} {calls calls' : List Call}
    {out out' : Outcome cfg L} (h : FastForwardToServer n p hist cq sq cw io calls out)
    (h' : FastForwardToServer n p hist cq sq cw io calls' out') : calls = calls' ∧ out = out' := by
  cases h <;> cases h' <;> grind

theorem FastForwardToClient.unique {n : Counts} {p : HttpParser L} {hist : Bytes}
    {cq sq : Circularbuf cfg.sockIoBufSize} {sw : Bool} {io : Io} {calls calls' : List Call}
    {out out' : Outcome cfg L} (h : FastForwardToClient n p hist cq sq sw io calls out)
    (h' : FastForwardToClient n p hist cq sq sw io calls' out') : calls = calls' ∧ out = out' := by
  cases h <;> cases h' <;> grind

theorem SlowSwitch.unique {io : Io} {ph : Phase cfg L} {r r' : Except Fault (Phase cfg L)}
    (h : SlowSwitch io ph r) (h' : SlowSwitch io ph r') : r = r' := by
  cases h <;> cases h' <;> grind [FIFOfilebuf.queue_nil_inj]

theorem Deliver.unique {b b₁ b₂ : SlowBufs} {io : Io} {calls calls' : List Call} {cw cw' : Bool}
    (h : Deliver cfg b io calls b₁ cw) (h' : Deliver cfg b io calls' b₂ cw') :
    calls = calls' ∧ b₁ = b₂ ∧ cw = cw' := by
  cases h <;> cases h' <;> grind

theorem Dispatch.unique {n : Counts} {p : HttpParser L} {k : ℕ} {data : Bytes} {b : SlowBufs}
    {stale : Option (Circularbuf cfg.sockIoBufSize)} {cw : Bool} {io : Io}
    {calls calls' : List Call} {out out' : Outcome cfg L}
    (h : Dispatch n p k data b stale cw io calls out)
    (h' : Dispatch n p k data b stale cw io calls' out') : calls = calls' ∧ out = out' := by
  cases h <;> cases h' <;> grind [Filebuf.filled_inj]

/-- **Steps are determined** by the session, the callback and the results of the system calls. -/
theorem Step.unique {s : Session cfg L} {cb : Callback} {io : Io} {calls calls' : List Call}
    {out out' : Outcome cfg L} (h : Step s cb io calls out) (h' : Step s cb io calls' out') :
    calls = calls' ∧ out = out' := by
  -- Two different rules have contradictory premises, one rule twice gives equal results; where a
  -- rule refers to a relation of its own, that relation is determined too.
  cases h <;> cases h' <;> first
    | exact ⟨rfl, rfl⟩
    | simp_all; done
    | grind [FastForwardToServer.unique, FastForwardToClient.unique, SlowSwitch.unique,
        SlowSwitch.isFast, Deliver.unique, Dispatch.unique]

end Session

end LSProxy
