import LSProxy.Safety.Phases

/-!
# Handing the interrupted request over to slow mode

In fast mode the client's bytes go straight to the server, and the history keeps those of the
request in progress: after each read, what follows the last end of a message (`Phase.Tracked`).
When `set_slow_mode` is run, the history is copied to `request_buf` and the parser keeps its place
in the middle of the message. From then on `request_buf` holds an unfinished message, and the
parser is in the state that message leaves it in (`Phase.Receiving`), until a read completes the
message and it is dispatched (`Session.Step.dispatches`).

* `handover_request` — what `request_buf` receives at the switch are the client's bytes after the
  end of the last complete request, and the first request that is dispatched afterwards is the
  message these bytes begin.
-/

namespace LSProxy

open Session

variable {cfg : Config} {L : Llhttp}

/-! ### The files of the requests -/

/-- How many bytes `keep_track_request_history` stores in the file of the history, behind the
parser `p`: those that its memory does not take. -/
def historyStore (h : Hybridbuf cfg.histCacheSize) (p : HttpParser L) (data : Bytes) : ℕ :=
  match p.lastEom with
  | some k => (data.drop k).length - h.clear.bufRemainingSpace
  | none => data.length - h.bufRemainingSpace

/-- The stores of a read of the client in fast mode. The server of a new connection has to accept
before anything is read. -/
def Entry.historyStores (e : Entry cfg L) : List ℕ :=
  let q := (e.conn.server.bind (·.queuedOutput)).getD (.new cfg.sockIoBufSize_pos)
  let data := (readAll e.io.clientReads q.remainingSpace).data
  if e.conn.parser.isNone && !e.io.connectOk then []
  else
    match (e.conn.parser.getD (.new L)).doParse data, e.conn.client.requestHistory with
    | some p, some h => [historyStore h.buf p data]
    | _, _ => []

/-- The stores of a read of the client in slow mode, to `request_buf` and `request_tmp_buf`. -/
def Entry.receivedStores (e : Entry cfg L) : List ℕ :=
  let o := readAll e.io.clientReads cfg.sockIoBufSize
  if o.hasEof then []
  else
    match e.conn.parser.bind (·.doParse o.data) with
    | some p =>
      match p.firstEom with
      | some k => [(o.data.take k).length, (o.data.drop k).length]
      | none => [o.data.length]
    | none => []

/-- The stores with which `set_slow_mode` copies the history to `request_buf`. -/
def Entry.copyStores (e : Entry cfg L) : List ℕ :=
  if e.conn.parser.isNone then []
  else
    match e.conn.client.requestHistory with
    | some h =>
      match h.buf.rewind 0 with
      | .ok source => source.fetchSizes cfg.sockIoBufSize (h.buf.dataSize + 1)
      | .error _ => []
    | none => []

/-- The stores an event makes on the files of the requests: the size of each, and its number among
the stores of the event. -/
def Entry.requestStores (e : Entry cfg L) : List (ℕ × ℕ) :=
  match e.cb with
  | .clientReadable => (if e.conn.fastMode then e.historyStores else e.receivedStores).zipIdx
  -- the numbers before are those of `dump_to`
  | .monitor | .slowSwitch => if e.switches then e.copyStores.zipIdx 2 else []
  | _ => []

/-- Some store of the event on the files of the requests is not carried out in full. -/
def Entry.losesRequest (e : Entry cfg L) : Bool :=
  e.requestStores.any fun s => written (e.io.disk s.2) s.1 != some s.1

theorem Entry.requestStores_of_switches {e : Entry cfg L} (hsw : e.switches = true) :
    e.requestStores = e.copyStores.zipIdx 2 := by
  unfold requestStores
  rw [if_pos hsw]
  unfold switches at hsw
  split at hsw
  · next h => rw [h]
  · next h => rw [h]
  · exact absurd hsw (by simp)

theorem Entry.losesRequest_eq_false {e : Entry cfg L} :
    e.losesRequest = false ↔
      ∀ s ∈ e.requestStores, written (e.io.disk s.2) s.1 = some s.1 := by
  simp [losesRequest, -Prod.forall]

theorem Entry.losesRequest_of_diskOk {e : Entry cfg L} (h : e.io.DiskOk) :
    e.losesRequest = false :=
  losesRequest_eq_false.mpr fun s _ => h s.2 s.1

/-! ### The history of fast mode -/

/-- In fast mode the history holds what has been read of the request in progress, and the parser
has read just that of it; `stream` is what has been read from the client. -/
def Phase.Tracked (stream : Bytes) : Phase cfg L → Prop
  | .fresh => stream = []
  | .fast p hist _ _ _ _ => p.settings = .request ∧
      ∃ start, L.requests.track (.init L.init) stream = some ⟨start, hist, p.state⟩
  | _ => True

/-- The same of an outcome. -/
def Outcome.Tracked (stream : Bytes) : Outcome cfg L → Prop
  | .live s => s.phase.Tracked stream
  | _ => True

/-- Without loss the history is what the scanner says. -/
theorem recorded_eq {io : Io} (p : HttpParser L) (hist data : Bytes)
    (hdisk : ∀ size, written (io.disk 0) size = some size) :
    recorded cfg io p hist data = .ok (match p.lastEom with
      | some k => data.drop k
      | none => hist ++ data) := by
  unfold recorded
  cases p.lastEom <;> simp [Hybridbuf.stored_eq (hdisk _)]

/-- It takes only the store that is made. -/
theorem recorded_of_store {io : Io} {p : HttpParser L} {hist data : Bytes}
    {h : Hybridbuf cfg.histCacheSize} (hat : h.At hist hist.length)
    (hdisk : written (io.disk 0) (historyStore h p data) = some (historyStore h p data)) :
    recorded cfg io p hist data = .ok (match p.lastEom with
      | some k => data.drop k
      | none => hist ++ data) := by
  unfold historyStore at hdisk
  unfold recorded
  cases hk : p.lastEom with
  | some k =>
    simp only [hk, h.clear_at.bufRemainingSpace] at hdisk
    exact Hybridbuf.stored_eq hdisk
  | none =>
    simp only [hk, hat.bufRemainingSpace] at hdisk
    exact Hybridbuf.stored_eq hdisk

theorem Session.FastForwardToServer.tracked {n : Counts} {p : HttpParser L} {hist stream : Bytes}
    {cq sq : Circularbuf cfg.sockIoBufSize} {cw : Bool} {io : Io} {calls : List Call}
    {out : Outcome cfg L} (h : FastForwardToServer n p hist cq sq cw io calls out)
    (hrec : ∀ p', p.doParse (readAll io.clientReads sq.remainingSpace).data = some p' →
      recorded cfg io p' hist (readAll io.clientReads sq.remainingSpace).data =
        .ok (match p'.lastEom with
          | some k => (readAll io.clientReads sq.remainingSpace).data.drop k
          | none => hist ++ (readAll io.clientReads sq.remainingSpace).data))
    (hp : p.settings = .request)
    (ht : ∃ start, L.requests.track (.init L.init) stream = some ⟨start, hist, p.state⟩) :
    out.Tracked (stream ++ calls.flatMap (·.clientIn)) := by
  obtain ⟨start, htrack⟩ := ht
  cases h with
  | @forward o p' hist' _ w ho hparse hhist =>
    subst ho
    rw [hrec p' hparse] at hhist
    obtain ⟨start', hdata⟩ := HttpParser.doParse_last hp hparse ⟨start, hist, p.state⟩ rfl
    refine ⟨(HttpParser.doParse_settings hparse).trans hp, start', ?_⟩
    rw [Scanner.track_append, htrack, Option.bind_some, ← Except.ok.inj hhist]
    simp only [List.flatMap_cons, List.flatMap_nil, Call.clientIn, List.append_nil]
    refine hdata.trans ?_
    cases p'.lastEom <;> rfl
  | _ => trivial

/-- One step of fast mode. -/
theorem Session.Step.tracked {s : Session cfg L} {c : Connection cfg L} {cb : Callback} {io : Io}
    {calls : List Call} {out : Outcome cfg L} {stream : Bytes} (h : Step s cb io calls out)
    (hrep : Rep s c) (hkept : (⟨c, cb, io, calls⟩ : Entry cfg L).losesRequest = false)
    (ht : s.phase.Tracked stream) : out.Tracked (stream ++ calls.flatMap (·.clientIn)) := by
  rw [Entry.losesRequest_eq_false] at hkept
  cases h with
  | freshConnect hconn h =>
    obtain rfl : stream = [] := ht
    cases hrep with
    | fresh hat =>
      refine h.tracked (fun p' hp => recorded_of_store hat ?_) rfl ⟨L.init, rfl⟩
      refine hkept (historyStore _ p' _, 0) ?_
      simp [Entry.requestStores, Entry.historyStores, hconn, hp]
  | fastClientReadable h =>
    cases hrep with
    | fast hat =>
      refine h.tracked (fun p' hp => recorded_of_store hat ?_) ht.1 ht.2
      refine hkept (historyStore _ p' _, 0) ?_
      simp [Entry.requestStores, Entry.historyStores, hp]
  | fastServerReadable h =>
    cases h with
    | forward => exact (List.append_nil stream).symm ▸ ht
    | _ => trivial
  | fastClientWritable | fastServerWritable => exact (List.append_nil stream).symm ▸ ht
  | idleDispatch _ _ _ _ h => cases h <;> trivial
  | monitorKeep | signalSlow => exact (List.append_nil stream).symm ▸ ht
  | monitorSwitch _ _ _ h | signalSwitch h => cases h <;> trivial
  | _ => trivial

/-! ### The switch -/

/-- An event that runs `set_slow_mode` on a connection in fast mode is a switch and nothing
else. -/
theorem Session.Step.of_switches {s : Session cfg L} {c : Connection cfg L} {cb : Callback}
    {io : Io} {calls : List Call} {out : Outcome cfg L} (h : Step s cb io calls out)
    (hrep : Rep s c) (hsw : (⟨c, cb, io, calls⟩ : Entry cfg L).switches = true) :
    calls = [] ∧ ∃ n r, SlowSwitch io s.phase r ∧ out = switchOutcome n r := by
  have hfast := hrep.fastMode
  obtain ⟨hread, hwrite⟩ := hrep.counts
  cases h with
  | monitorSwitch _ _ _ h => exact ⟨rfl, _, _, h, rfl⟩
  | monitorFault _ _ _ h => exact ⟨rfl, {}, _, h, rfl⟩
  | signalSwitch h => exact ⟨rfl, _, _, h, rfl⟩
  | signalFault h => exact ⟨rfl, {}, _, h, rfl⟩
  | signalSlow hslow =>
    rw [hslow] at hfast
    simp [Entry.switches, hfast] at hsw
  | monitorDrop hdrop =>
    simp [Entry.switches, hread, hwrite, hdrop] at hsw
  | monitorKeep hkeep hslow =>
    simp [Entry.switches, hread, hwrite] at hsw
    exact absurd ⟨hfast.symm.trans hsw.1, hsw.2.2⟩ hslow
  | _ => simp [Entry.switches] at hsw

/-- The request the client is in the middle of when the event `e`, after the run `pre`, runs
`set_slow_mode`. A connection without a server has not begun one that counts. -/
def requestInProgress (pre : List (Entry cfg L)) (e : Entry cfg L) :
    Option (Scanner.Progress L.State UInt8) :=
  if e.conn.server.isSome then
    L.requests.track (.init L.init) ((callsOf pre).flatMap (·.clientIn))
  else some (.init L.init)

/-- The stream of the client, which starts in `start`, consists of the messages `ms`, which have
been dealt with, and of the unfinished `rest`, which `request_buf` holds and the parser has read. -/
def SlowBufs.Receives (b : SlowBufs) (p : HttpParser L) (start : L.State) (ms : List Bytes)
    (rest : Bytes) : Prop :=
  p.settings = .request ∧ b.request = .filled rest ∧ b.tmp = [] ∧
    L.requests.Parses L.init start ms rest p.state

/-- Slow mode while no request is dispatched. -/
def Phase.Receiving (start : L.State) (ms : List Bytes) (rest : Bytes) : Phase cfg L → Prop
  | .transition p b _ _ _ => ms = [] ∧ b.Receives p start ms rest
  | .idle p b _ _ => b.Receives p start ms rest
  | .slowReply .. => True
  | _ => False

/-- Without loss the whole history is copied. -/
theorem copied_history {io : Io} (hdisk : io.DiskOk) (hist : Bytes) :
    Hybridbuf.copied (fun k => io.disk (k + 2)) cfg.histCacheSize cfg.sockIoBufSize hist
      (hist.length + 1) 0 0 [] = .ok hist :=
  Hybridbuf.copied_eq cfg.sockIoBufSize_pos hist (Nat.zero_le _) (Nat.lt_succ_self _)
    fun s _ => hdisk (s.2 + 2) s.1

/-- It takes only the stores that are made. -/
theorem Rep.copied_history {n : Counts} {p : HttpParser L} {hist : Bytes}
    {cq sq : Circularbuf cfg.sockIoBufSize} {cw sw : Bool} {e : Entry cfg L}
    (hrep : Rep ⟨n, .fast p hist cq sq cw sw⟩ e.conn) (hsw : e.switches = true)
    (hkept : e.losesRequest = false) :
    Hybridbuf.copied (fun k => e.io.disk (k + 2)) cfg.histCacheSize cfg.sockIoBufSize hist
      (hist.length + 1) 0 0 [] = .ok hist := by
  have hstores : e.copyStores =
      Hybridbuf.copySizes cfg.histCacheSize cfg.sockIoBufSize hist (hist.length + 1) 0 := by
    obtain ⟨c, cb, io, calls⟩ := e
    cases hrep with
    | @fast _ _ _ _ _ _ _ h hat =>
      have hsizes := hat.rewind_zero.fetchSizes cfg.histCacheSize_lt cfg.sockIoBufSize_pos
        (hist.length + 1)
      simpa [Entry.copyStores, Hybridbuf.rewind_zero, hat.dataSize_eq] using hsizes
  refine Hybridbuf.copied_eq cfg.sockIoBufSize_pos hist (Nat.zero_le _) (Nat.lt_succ_self _) ?_
  rintro ⟨size, k⟩ hs
  -- the numbers of the copy come after those of the dump
  refine Entry.losesRequest_eq_false.mp hkept (size, k + 2) ?_
  rw [Entry.requestStores_of_switches hsw, hstores, List.mk_mem_zipIdx_iff_le_and_getElem?_sub]
  exact ⟨Nat.le_add_left .., List.mk_mem_zipIdx_iff_getElem?.mp hs⟩

/-- A switch to slow mode succeeds when the disk does. -/
theorem Session.SlowSwitch.succeeds {io : Io} {ph : Phase cfg L} {r : Except Fault (Phase cfg L)}
    (h : SlowSwitch io ph r) (hdisk : io.DiskOk) : ∃ ph', r = .ok ph' := by
  cases h with
  | fresh | reply | fast => exact ⟨_, rfl⟩
  | copyFault hcopy =>
    rw [copied_history hdisk] at hcopy
    cases hcopy
  | @dumpFault _ _ _ cq _ _ _ _ _ hdump =>
    rcases cq.dumpAll_spec io.disk with ⟨-, k, n, hlost⟩ | ⟨_, _, hok, -⟩
    · rw [hdisk k n] at hlost
      cases hlost
    · rw [hok] at hdump
      cases hdump

/-- When the history is copied in full, `request_buf` receives the request in progress. It is only
the dump of the response that can go wrong then. -/
theorem Session.SlowSwitch.receiving {io : Io} {ph : Phase cfg L} {r : Except Fault (Phase cfg L)}
    {stream : Bytes} (h : SlowSwitch io ph r)
    (hcopied : ∀ p hist cq sq cw sw, ph = .fast p hist cq sq cw sw →
      Hybridbuf.copied (fun k => io.disk (k + 2)) cfg.histCacheSize cfg.sockIoBufSize hist
        (hist.length + 1) 0 0 [] = .ok hist) (ht : ph.Tracked stream) :
    ∃ pr, (if ph.hasServer then L.requests.track (.init L.init) stream else some (.init L.init))
        = some pr ∧ ∀ ph', r = .ok ph' → ph'.Receiving pr.start [] pr.seen := by
  cases h with
  | fresh | reply =>
    refine ⟨.init L.init, rfl, ?_⟩
    rintro ph' ⟨⟩
    exact ⟨rfl, rfl, rfl, .rest rfl⟩
  | copyFault hcopy => cases (hcopied _ _ _ _ _ _ rfl).symm.trans hcopy
  | dumpFault =>
    obtain ⟨-, start, htrack⟩ := ht
    exact ⟨_, htrack, fun _ hok => nomatch hok⟩
  | fast hcopy =>
    -- in fast mode the history is what has been read of the request
    obtain ⟨hp, start, htrack⟩ := ht
    obtain rfl := Except.ok.inj ((hcopied _ _ _ _ _ _ rfl).symm.trans hcopy)
    have hsound : L.requests.quiet start _ = some _ :=
      Scanner.Progress.Sound.track (p := .init L.init) rfl htrack
    refine ⟨_, htrack, ?_⟩
    rintro ph' ⟨⟩
    exact ⟨rfl, hp, rfl, rfl, .rest hsound⟩

/-! ### Receiving in slow mode -/

/-- The same of an outcome. -/
def Outcome.Receiving (start : L.State) (ms : List Bytes) (rest : Bytes) : Outcome cfg L → Prop
  | .live s => s.phase.Receiving start ms rest
  | _ => True

/-- Without loss storing at the end appends. -/
theorem store_filled_eq {rs : List WriteResult} {data : Bytes}
    (hdisk : written rs data.length = some data.length) (c : Bytes) :
    (Filebuf.filled c).store rs data = .ok (.filled (c ++ data)) := by
  rw [Filebuf.store_filled, hdisk]
  simp

/-- A step that opens no connection adds what it reads to the request. -/
theorem Session.Step.receiving {s : Session cfg L} {c : Connection cfg L} {cb : Callback} {io : Io}
    {calls : List Call} {out : Outcome cfg L} {start : L.State} {ms : List Bytes} {rest : Bytes}
    (h : Step s cb io calls out) (hrep : Rep s c)
    (hkept : (⟨c, cb, io, calls⟩ : Entry cfg L).losesRequest = false)
    (hr : s.phase.Receiving start ms rest) (hno : .connect ∉ calls) :
    out.Receiving start ms (rest ++ calls.flatMap (·.clientIn)) := by
  rw [Entry.losesRequest_eq_false] at hkept
  cases h with
  | transitionRead | transitionWrite | monitorKeep | signalSlow =>
    exact (List.append_nil rest).symm ▸ hr
  | transitionTimeout | transitionEof => exact (List.append_nil rest).symm ▸ hr.2
  | transitionDeliver h | idleDeliver h => cases h <;> exact (List.append_nil rest).symm ▸ hr
  | @idleRead _ p p' b _ _ _ o r ho heof hp hk hstore =>
    obtain ⟨hset, hreq, htmp, hparses⟩ := hr
    have hwhole : written (io.disk 0) o.data.length = some o.data.length := by
      refine hkept (_, 0) ?_
      cases hrep with
      | idle => simp [Entry.requestStores, Entry.receivedStores, ho, heof, hp, hk]
    rw [hreq, store_filled_eq hwhole] at hstore
    obtain rfl := Except.ok.inj hstore
    -- no message ends in the read, so it only extends the request
    rcases HttpParser.doParse_first hset hp with ⟨-, hquiet⟩ | ⟨k, _, _, hsome, -⟩
    · have hin : [Call.clientRead o.data].flatMap (·.clientIn) = o.data := List.append_nil _
      rw [hin]
      exact ⟨(HttpParser.doParse_settings hp).trans hset, rfl, htmp, hparses.extend hquiet⟩
    · exact absurd (hk.symm.trans hsome) (by simp)
  | idleDispatch _ _ _ _ h =>
    cases h with
    | connect => exact absurd hno (by simp)
    | _ => trivial
  | monitorSwitch _ hfast _ h => exact absurd hr (by cases h <;> exact id)
  | signalSwitch h => exact absurd hr (by cases h <;> exact id)
  | _ => trivial

/-- A read of slow mode gets bytes past the end of the request it completes. -/
def Entry.pipelines (e : Entry cfg L) : Bool :=
  e.cb == .clientReadable && !e.conn.fastMode && e.conn.parser.any fun p =>
    (p.doParse (readAll e.io.clientReads cfg.sockIoBufSize).data).any fun p' =>
      p'.firstEom.any (· < (readAll e.io.clientReads cfg.sockIoBufSize).data.length)

/-- **A step that opens a connection dispatches a message**: the unfinished one, completed by what
the step reads. What is read past its end goes to `request_tmp_buf`. -/
theorem Session.Step.dispatches {s : Session cfg L} {c : Connection cfg L} {cb : Callback} {io : Io}
    {calls : List Call} {out : Outcome cfg L} {start : L.State} {ms : List Bytes} {rest : Bytes}
    (h : Step s cb io calls out) (hrep : Rep s c)
    (hkept : (⟨c, cb, io, calls⟩ : Entry cfg L).losesRequest = false)
    (hr : s.phase.Receiving start ms rest) (hc : .connect ∈ calls) :
    ∃ n p b stale cw m data, out = .live ⟨n, .exchange p b stale cw true⟩ ∧
      calls = [.clientRead data, .connect] ∧ m ++ b.tmp = rest ++ data ∧
      b.request = { content := m, offset := 0, dataSize := m.length } ∧ rest <+: m ∧
      L.requests.Parses L.init start (ms ++ [m]) [] L.init ∧
      ((⟨c, cb, io, calls⟩ : Entry cfg L).pipelines = false → b.tmp = []) := by
  rw [Entry.losesRequest_eq_false] at hkept
  cases h with
  | @idleDispatch _ p p' b _ _ _ o k _ _ ho heof hp hk h =>
    obtain ⟨hset, hreq, htmp, hparses⟩ := hr
    have hwhole : written (io.disk 0) (o.data.take k).length = some (o.data.take k).length ∧
        written (io.disk 1) (o.data.drop k).length = some (o.data.drop k).length := by
      cases hrep with
      | idle =>
        refine ⟨hkept ((o.data.take k).length, 0) ?_, hkept ((o.data.drop k).length, 1) ?_⟩ <;>
          simp [Entry.requestStores, Entry.receivedStores, ho, heof, hp, hk]
    cases h with
    | @connect r tmp hstore ht =>
      rw [hreq, store_filled_eq hwhole.1] at hstore
      rw [htmp, store_filled_eq hwhole.2] at ht
      obtain rfl := Except.ok.inj hstore
      obtain rfl := Filebuf.filled_inj (Except.ok.inj ht)
      -- the end that the parser reports is that of the first message
      rcases HttpParser.doParse_first hset hp with ⟨hnone, -⟩ | ⟨k', t, _, hsome, hcomplete⟩
      · exact absurd (hk.symm.trans hnone) (by simp)
      · obtain rfl := Option.some.inj (hk.symm.trans hsome)
        refine ⟨_, _, _, _, _, rest ++ o.data.take k, o.data, rfl, rfl, by simp, rfl,
          List.prefix_append _ _, hparses.complete hcomplete, fun hpipe => ?_⟩
        cases hrep with
        | idle => simpa [Entry.pipelines, slowClient, ho, hp, hk] using hpipe
    | _ => exact absurd hc (by simp)
  | transitionDeliver h | idleDeliver h | slowReplyDeliver h | slowReplyDone h =>
    cases h <;> exact absurd hc (by simp)
  | monitorDrop => exact absurd hc (by split <;> simp)
  | _ => first
    | exact hr.elim
    | exact absurd hc (by simp)

/-! ### The run across the switch -/

/-- What a receiving connection has in its buffers. -/
theorem Rep.requestBuf {s : Session cfg L} {c : Connection cfg L} {start : L.State}
    {ms : List Bytes} {rest : Bytes} {p : HttpParser L} (hrep : Rep s c)
    (hr : s.phase.Receiving start ms rest) (hp : c.parser = some p) :
    c.client.requestBuf = some (.filled rest) ∧ c.client.requestTmpBuf = some (.filled []) ∧
      p.settings = .request ∧ L.requests.Parses L.init start ms rest p.state := by
  have hreceives : ∀ {b : SlowBufs} {p : HttpParser L}, b.Receives p start ms rest →
      some b.request = some (.filled rest) ∧ some (Filebuf.filled b.tmp) = some (.filled []) ∧
        p.settings = .request ∧ L.requests.Parses L.init start ms rest p.state :=
    fun ⟨hset, hreq, htmp, hparses⟩ => ⟨congrArg some hreq, by rw [htmp], hset, hparses⟩
  cases hrep with
  | transition =>
    obtain rfl := Option.some.inj hp
    exact hreceives hr.2
  | idle =>
    obtain rfl := Option.some.inj hp
    exact hreceives hr
  | slowReply => exact absurd hp (by simp)
  | _ => exact hr.elim

theorem Session.SlowSwitch.parser {io : Io} {n : Counts} {ph ph' : Phase cfg L}
    {c : Connection cfg L} (h : SlowSwitch io ph (.ok ph')) (hrep : Rep ⟨n, ph'⟩ c) :
    ∃ p, c.parser = some p := by
  cases h <;> cases hrep <;> exact ⟨_, rfl⟩

/-- After the switch the connection receives the request that was in progress, unless the process
has gone down over the response. -/
theorem Run.switched {pre : List (Entry cfg L)} {e : Entry cfg L} {st : Status cfg L}
    (h : Run (pre ++ [e]) st) (hsw : e.switches = true)
    (hkept : ∀ x ∈ pre ++ [e], x.losesRequest = false) :
    ∃ pr, requestInProgress pre e = some pr ∧
      ((∃ s c, st = .live c ∧ Rep s c ∧ s.phase.Receiving pr.start [] pr.seen ∧
        c.parser.isSome = true ∧ c.client.requestBuf = some (.filled pr.seen)) ∨
      ∃ f, st = .crashed f ∧ ¬ e.io.DiskOk) := by
  obtain ⟨st₁, hpre, he⟩ := h.split
  -- until the switch the parser keeps track of the request in progress
  obtain ⟨out₁, hrep₁, htracked⟩ := hpre.invariant_of (P := fun x => x.losesRequest = false)
    (I := fun tr out => out.Tracked ((callsOf tr).flatMap (·.clientIn))) rfl
    (by
      intro tr s c cb io calls out ht hrep hstep hkept
      rw [callsOf_append, callsOf_singleton, List.flatMap_append]
      exact hstep.tracked hrep hkept ht)
    (fun x hx => hkept x (List.mem_append_left _ hx))
  obtain ⟨s₁, out, rfl, hrep, hstep, hout⟩ := he.step hrep₁
  obtain ⟨-, n, r, hswitch, rfl⟩ := hstep.of_switches hrep hsw
  obtain ⟨pr, hpr, hrecv⟩ := hswitch.receiving (by
    rintro p hist cq sq cw sw hph
    obtain ⟨n₁, ph₁⟩ := s₁
    obtain rfl : ph₁ = _ := hph
    exact hrep.copied_history hsw (hkept e (by simp))) htracked
  refine ⟨pr, ?_, ?_⟩
  · rw [requestInProgress, hrep.hasServer]
    exact hpr
  · cases r with
    | ok ph =>
      cases st with
      | live c =>
        obtain ⟨p, hp⟩ := hswitch.parser hout
        have hr := hrecv ph rfl
        exact .inl ⟨⟨n, ph⟩, c, rfl, hout, hr, by rw [hp]; rfl, (hout.requestBuf hr hp).1⟩
      | _ => exact hout.elim
    | error f =>
      cases st with
      | crashed f' =>
        refine .inr ⟨f', rfl, fun hdisk => ?_⟩
        obtain ⟨ph, hok⟩ := hswitch.succeeds hdisk
        cases hok
      | _ => exact hout.elim

/-- As long as no connection is opened the connection goes on receiving. -/
theorem RunFrom.receiving {st₀ st : Status cfg L} {s₀ : Session cfg L} {tr : List (Entry cfg L)}
    {start : L.State} {ms : List Bytes} {rest : Bytes} (h : RunFrom st₀ tr st)
    (hrep : (Outcome.live s₀).Represents st₀) (hr : s₀.phase.Receiving start ms rest)
    (hdisk : ∀ x ∈ tr, x.io.DiskOk) (hno : .connect ∉ callsOf tr) :
    ∃ out : Outcome cfg L, out.Represents st ∧
      out.Receiving start ms (rest ++ (callsOf tr).flatMap (·.clientIn)) := by
  obtain ⟨out, hout, hI⟩ := h.invariant_of (P := fun x => x.io.DiskOk)
    (I := fun tr out => .connect ∉ callsOf tr →
      out.Receiving start ms (rest ++ (callsOf tr).flatMap (·.clientIn))) hrep
    (fun _ => (List.append_nil rest).symm ▸ hr)
    (by
      intro tr s c cb io calls out hI hrep hstep hd hno
      rw [callsOf_append, callsOf_singleton, List.mem_append, not_or] at hno
      rw [callsOf_append, callsOf_singleton, List.flatMap_append, ← List.append_assoc]
      exact hstep.receiving hrep (Entry.losesRequest_of_diskOk hd) (hI hno.1) hno.2)
    hdisk
  exact ⟨out, hout, hI hno⟩

/-- **The handover rebuilds the interrupted request.** Let the event `e` run `set_slow_mode` on a
connection in fast mode that has a server. Then `request_buf` receives the client's bytes after the
end of the last complete request, with the cursor at their end. As long as nothing is dispatched it
holds these bytes and those read since, which contain no complete request; and what the first
dispatch finds in it, rewound, is the complete message that these bytes begin. -/
theorem handover_request {pre post : List (Entry cfg L)} {e : Entry cfg L} {st : Status cfg L}
    (h : Run (pre ++ e :: post) st) (hsw : e.switches = true)
    (hserver : e.conn.server.isSome = true) (hdisk : ∀ x ∈ pre ++ e :: post, x.io.DiskOk) :
    ∃ pr c, L.requests.track (.init L.init) ((callsOf pre).flatMap (·.clientIn)) = some pr ∧
      Run (pre ++ [e]) (.live c) ∧ c.client.requestBuf = some (.filled pr.seen) ∧
      (.connect ∉ callsOf post → ∀ c' p, st = .live c' → c'.parser = some p →
        c'.client.requestBuf = some (.filled (pr.seen ++ (callsOf post).flatMap (·.clientIn))) ∧
        L.requests.quiet pr.start (pr.seen ++ (callsOf post).flatMap (·.clientIn))
          = some p.state) ∧
      ∀ mid d, post = mid ++ [d] → .connect ∉ callsOf mid → .connect ∈ d.calls →
        ∃ c' m t, st = .live c' ∧
          c'.client.requestBuf = some { content := m, offset := 0, dataSize := m.length } ∧
          pr.seen <+: m ∧ m <+: pr.seen ++ (callsOf post).flatMap (·.clientIn) ∧
          L.requests.Completes pr.start m t := by
  rw [List.append_cons] at h hdisk
  obtain ⟨st₁, hpre, hpost⟩ := h.split
  obtain ⟨pr, hpr, ⟨s, c, rfl, hrep, hrecv, -, hbuf⟩ | ⟨f, -, hnot⟩⟩ := hpre.switched hsw
    (fun x hx => Entry.losesRequest_of_diskOk (hdisk x (List.mem_append_left _ hx)))
  swap
  · exact absurd (hdisk e (by simp)) hnot
  have hdisk' : ∀ x ∈ post, x.io.DiskOk := fun x hx => hdisk x (List.mem_append_right _ hx)
  rw [requestInProgress, if_pos hserver] at hpr
  refine ⟨pr, c, hpr, hpre, hbuf, ?_, ?_⟩
  · -- nothing is dispatched: the buffer grows by what is read
    rintro hno c' p rfl hp
    obtain ⟨out, hout, hrecv'⟩ := hpost.receiving hrep hrecv hdisk' hno
    obtain ⟨s', rfl, hrep'⟩ := hout.live
    obtain ⟨hreq, -, -, hparses⟩ := hrep'.requestBuf hrecv' hp
    exact ⟨hreq, hparses.rest_quiet⟩
  · -- the first dispatch: the message begins with the bytes that were handed over
    rintro mid d rfl hno hconn
    obtain ⟨st₂, hmid, hd⟩ := hpost.split
    obtain ⟨out, hout, hrecv'⟩ := hmid.receiving hrep hrecv
      (fun x hx => hdisk' x (List.mem_append_left _ hx)) hno
    obtain ⟨s', out', rfl, hrep', hstep, hout'⟩ := hd.step hout
    obtain ⟨n, p, b, stale, cw, m, data, rfl, hcalls, hm, hreq, hseen, hparses, -⟩ :=
      hstep.dispatches hrep' (Entry.losesRequest_of_diskOk (hdisk' d (by simp))) hrecv' hconn
    cases st with
    | live c' =>
      cases hparses with
      | @cons _ t _ _ _ _ hcomplete _ =>
        refine ⟨c', m, t, rfl, ?_, (List.prefix_append _ _).trans hseen, ⟨b.tmp, ?_⟩, hcomplete⟩
        · cases hout' with
          | exchange => exact congrArg some hreq
        · simp [hm, hcalls]
    | deleted => exact hout'.elim
    | crashed f => exact hout'.elim

/-- A switch in the middle of the second of two requests, the rest of which arrives in slow
mode. -/
theorem handover_request_second :
    ∃ (pre post : List (Entry .shipped .bodiless)) (e : Entry .shipped .bodiless)
      (c : Connection .shipped .bodiless), Run (pre ++ e :: post) (.live c) ∧
        ∃ pr m t, Llhttp.bodiless.requests.track (.init .start)
            ((callsOf pre).flatMap (·.clientIn)) = some pr ∧ pr.seen = ascii "GET /a" ∧
          c.client.requestBuf = some { content := m, offset := 0, dataSize := m.length } ∧
          pr.seen <+: m ∧ Llhttp.bodiless.requests.Completes pr.start m t := by
  obtain ⟨tr, st, hrun, hdisk, htr⟩ := exists_run_diskOk (L := .bodiless)
    [(.clientReadable, { clientReads := [.data (ascii "GET / HTTP/1.1\r\n\r\nGET /a")] }),
      (.slowSwitch, {}), (.serverReadable true, {}),
      (.clientReadable, { clientReads := [.data (ascii " HTTP/1.1\r\n\r\n")] })]
    (fun (tr : List (Entry .shipped _)) _ =>
      cut 1 tr fun pre e post => e.switches && e.conn.server.isSome &&
        (Llhttp.bodiless.requests.track (.init Llhttp.bodiless.init)
          ((callsOf pre).flatMap (·.clientIn))).any (·.seen == ascii "GET /a") &&
        cut 1 post fun mid d rest => rest.isEmpty && !(callsOf mid).contains .connect &&
          d.calls.contains .connect)
    (by decide +kernel) (by simp [Io.DiskOk])
  obtain ⟨pre, e, post, rfl, hcut⟩ := of_cut htr
  simp only [Bool.and_eq_true] at hcut
  obtain ⟨⟨⟨hsw, hserver⟩, hseen⟩, hpost⟩ := hcut
  obtain ⟨mid, d, rest, rfl, hd⟩ := of_cut hpost
  simp only [Bool.and_eq_true, Bool.not_eq_true', List.contains_eq_mem, decide_eq_true_eq,
    decide_eq_false_iff_not, List.isEmpty_iff] at hd
  obtain ⟨⟨rfl, hmid⟩, hconn⟩ := hd
  obtain ⟨pr, -, hpr, -, -, -, hdispatch⟩ := handover_request hrun hsw hserver hdisk
  obtain ⟨c, m, t, rfl, hbuf, hpre, -, hm⟩ := hdispatch mid d rfl hmid hconn
  rw [hpr] at hseen
  exact ⟨pre, mid ++ [d], e, c, hrun, pr, m, t, hpr, by simpa using hseen, hbuf, hpre, hm⟩

end LSProxy
