import LSProxy.Safety.Handover
import LSProxy.Safety.Streams

/-!
# Bytes that wait and the event that wakes them

What waits for a socket is written when its writing event fires, and the event fires only while it
is pending. Here the two are compared, in slow mode and in fast mode.

* `response_woken` — outside fast mode, what waits for the client has its event pending, except
  where `set_slow_mode` moves the client's queue into `response_buf` without adding the event, and
  where the queue of a connection in reply-only mode is forgotten behind an empty `response_buf`;
* `tail_flushed` — in fast mode, what is queued has its event pending, except where a write takes
  a part of what is offered.

Each property holds throughout a run if and only if none of these events occurs (`Throughout`).
-/

namespace LSProxy

open Session

variable {cfg : Config} {L : Llhttp}

/-- An empty queue puts nothing into `response_buf`. -/
theorem Circularbuf.dumpAll_nil {size : ℕ} {q q' : Circularbuf size}
    {disk : ℕ → List WriteResult} {stored : Bytes}
    (h : q.dumpAll disk q.dataSize (.queue [] []) = .ok (q', .queue [] stored))
    (hq : q.contents = []) : stored = [] := by
  rw [(Circularbuf.dataSize_eq_zero_iff q).mpr hq] at h
  exact (FIFOfilebuf.queue_nil_inj (Prod.mk.inj (Except.ok.inj h)).2).symm

/-! ### Slow mode -/

/-- What `response_buf` holds that has not been fetched. -/
def Connection.unreadResponse (c : Connection cfg L) : Bytes :=
  c.client.responseBuf.elim [] (·.unread)

/-- Outside fast mode, what waits for the client has its writing event pending. -/
def Connection.Woken (c : Connection cfg L) : Prop :=
  c.fastMode = false → queued c.client.queuedOutput ≠ [] ∨ c.unreadResponse ≠ [] →
    c.client.writeEvt = true

/-- The same, phase by phase. -/
def Phase.Woken : Phase cfg L → Prop
  | .transition _ b _ cw _ => b.unread ≠ [] → cw = true
  | .idle _ b stale cw | .exchange _ b stale cw _ => queued stale ≠ [] ∨ b.unread ≠ [] → cw = true
  | _ => True

/-- `set_slow_mode` finds bytes in the client's queue and its writing event not pending: it moves
them into `response_buf` and leaves the event as it is. -/
def Entry.dumpsSilently (e : Entry cfg L) : Bool :=
  e.switches && e.conn.server.isSome && !(queued e.conn.client.queuedOutput).isEmpty &&
    !e.conn.client.writeEvt

/-- `Client::on_writable` fires in slow mode with nothing to fetch from `response_buf`, while the
queue that reply-only mode has left behind still holds bytes: the event is removed. -/
def Entry.forgetsQueue (e : Entry cfg L) : Bool :=
  e.cb == .clientWritable && !e.conn.fastMode && e.conn.parser.isSome &&
    !(queued e.conn.client.queuedOutput).isEmpty && e.conn.unreadResponse.isEmpty

/-- Either of the two. -/
def Entry.strandsResponse (e : Entry cfg L) : Bool := e.dumpsSilently || e.forgetsQueue

theorem Rep.unreadResponse {s : Session cfg L} {c : Connection cfg L} (hrep : Rep s c)
    (hfast : s.phase.isFast = false) : c.unreadResponse = s.phase.undelivered := by
  cases hrep with
  | fresh | fast | reply => cases hfast
  | transition | idle | exchange | slowReply => exact FIFOfilebuf.unread_queue _ _

/-- A represented connection has its event pending if its phase says so. -/
theorem Rep.woken_iff {s : Session cfg L} {c : Connection cfg L} (hrep : Rep s c) :
    c.Woken ↔ s.phase.Woken := by
  have hunread := hrep.unreadResponse
  unfold Connection.Woken
  cases hrep with
  | fresh | fast | reply => exact ⟨fun _ => trivial, fun _ hslow => by cases hslow⟩
  -- `set_slow_mode` has freed the queue
  | transition =>
    rw [hunread rfl]
    refine ⟨fun h hne => h rfl (.inr hne), fun h _ hor => h (hor.resolve_left ?_)⟩
    exact not_not_intro rfl
  | idle | exchange =>
    rw [hunread rfl]
    exact ⟨fun h hor => h rfl hor, fun h _ hor => h hor⟩
  | slowReply => exact ⟨fun _ => trivial, fun _ _ _ => rfl⟩

/-- A switch that does not dump silently. -/
theorem Session.SlowSwitch.woken {io : Io} {n : Counts} {ph ph' : Phase cfg L}
    {c : Connection cfg L} (h : SlowSwitch io ph (.ok ph')) (hrep : Rep ⟨n, ph⟩ c)
    (hc : (c.server.isSome && !(queued c.client.queuedOutput).isEmpty && !c.client.writeEvt)
      = false) : ph'.Woken := by
  cases h with
  | fresh => exact fun hor => absurd hor (by simp [queued])
  | reply => exact fun _ => rfl
  | @fast p hist c' stored cq cq' sq cw sw _ hdump =>
    intro hstored
    cases hrep with
    | fast =>
      -- the dumped bytes come from the queue, so it was not empty
      have hne : cq.contents ≠ [] := fun hnil => hstored (Circularbuf.dumpAll_nil hdump hnil)
      simpa [queued, hne] using hc

/-- One step that strands nothing. -/
theorem Session.Step.woken {s s' : Session cfg L} {c : Connection cfg L} {cb : Callback} {io : Io}
    {calls : List Call} (hw : s.phase.Woken) (hrep : Rep s c)
    (h : Step s cb io calls (.live s'))
    (hok : (⟨c, cb, io, calls⟩ : Entry cfg L).strandsResponse = false) : s'.phase.Woken := by
  obtain ⟨hdump, hforget⟩ := Bool.or_eq_false_iff.mp hok
  have hswitch : (⟨c, cb, io, calls⟩ : Entry cfg L).switches = true →
      (c.server.isSome && !(queued c.client.queuedOutput).isEmpty && !c.client.writeEvt)
        = false := by
    intro hsw
    rw [Entry.dumpsSilently, hsw] at hdump
    exact hdump
  cases h with
  | freshConnect _ h | fastClientReadable h => cases h <;> trivial
  | fastServerReadable h => cases h <;> trivial
  | transitionTimeout | transitionEof =>
    intro hor
    exact hw (hor.resolve_left (not_not_intro rfl))
  | transitionRead | exchangeEnd | exchangeRead => exact fun _ => rfl
  | transitionWrite => exact hw
  | transitionDeliver h =>
    cases h with
    | some => exact fun _ => rfl
    | none hnil => exact fun hne => absurd hnil hne
  | idleRead => exact hw
  | idleDispatch _ _ _ _ h =>
    cases h with
    | connect => exact hw
  | idleDeliver h | exchangeDeliver h =>
    cases h with
    | some => exact fun _ => rfl
    | none hnil =>
      intro hor
      -- the event is removed, so the queue must be empty
      have hunread := hrep.unreadResponse rfl
      have hstale := hor.resolve_right (not_not_intro hnil)
      cases hrep
      simp only [Entry.forgetsQueue, hunread, Phase.undelivered, hnil] at hforget
      exact absurd hforget (by simp [slowClient, hstale])
  | exchangeSend | exchangeSwap => exact hw
  | monitorKeep | signalSlow => exact hw
  | monitorSwitch hkeep hfast hslow h =>
    exact h.woken hrep (hswitch (hrep.switches_monitor hfast hkeep hslow io []))
  | signalSwitch h => exact h.woken hrep (hswitch (hrep.switches_signal h.isFast io []))
  | fastClientWritable | fastServerWritable | replyMore | idleMalformedReply
    | exchangeMalformedReply | slowReplyDeliver => trivial

/-- A step that strands bytes leaves a connection whose event is not pending. -/
theorem Session.Step.stranded {s : Session cfg L} {c : Connection cfg L} {cb : Callback} {io : Io}
    {calls : List Call} {out : Outcome cfg L} (hrep : Rep s c) (h : Step s cb io calls out)
    (hdisk : io.DiskOk) (hbad : (⟨c, cb, io, calls⟩ : Entry cfg L).strandsResponse = true) :
    ∃ s', out = .live s' ∧ ¬ s'.phase.Woken := by
  obtain ⟨n₀, ph⟩ := s
  rcases Bool.or_eq_true_iff.mp hbad with hsilent | hforget
  · obtain ⟨⟨⟨hsw, hserver⟩, hqueue⟩, hevt⟩ := by
      simpa only [Entry.dumpsSilently, Bool.and_eq_true] using hsilent
    obtain ⟨-, n, r, hswitch, rfl⟩ := h.of_switches hrep hsw
    obtain ⟨ph', rfl⟩ := hswitch.succeeds hdisk
    refine ⟨_, rfl, fun hwoken => ?_⟩
    cases hswitch with
    | fresh => cases hrep; cases hserver
    | reply => cases hrep; cases hserver
    -- all that was queued is in `response_buf`, and the event is as it was
    | @fast _ _ _ stored cq _ _ _ _ _ hdump =>
      cases hrep with
      | fast =>
        rcases cq.dumpAll_spec io.disk with ⟨-, k, n, hlost⟩ | ⟨q', stored', hok, hall⟩
        · rw [hdisk k n] at hlost
          cases hlost
        · have heq := Except.ok.inj (hok.symm.trans hdump)
          have hstored := FIFOfilebuf.queue_nil_inj (Prod.mk.inj heq).2
          rw [hall hdisk] at hstored
          have hne : stored ≠ [] := by
            rw [← hstored]
            simpa [queued] using hqueue
          rw [hwoken hne] at hevt
          cases hevt
  · obtain ⟨⟨⟨⟨hcb, hslow⟩, hparser⟩, hqueue⟩, hunread⟩ := by
      simpa only [Entry.forgetsQueue, Bool.and_eq_true] using hforget
    obtain rfl := beq_iff_eq.mp hcb
    have hunread' := hrep.unreadResponse
    cases h with
    | fastClientWritable | replyDone | replyMore =>
      cases hrep
      cases hslow
    | transitionDeliver =>
      cases hrep
      cases hqueue
    | slowReplyDeliver | slowReplyDone =>
      cases hrep
      cases hparser
    | idleDeliver h | exchangeDeliver h =>
      rw [hunread' rfl] at hunread
      cases h with
      | some hne =>
        exact absurd (List.isEmpty_iff.mp hunread) hne
      -- nothing was fetched, so the event is removed
      | none =>
        refine ⟨_, rfl, fun hwoken => ?_⟩
        cases hrep
        have hevt := hwoken (.inl (by simpa [slowClient] using hqueue))
        cases hevt

/-- **No response is stranded after leaving fast mode**, in every run in which `set_slow_mode` does
not move a queue whose event is not pending, and the queue of reply-only mode is not forgotten; and,
when the disk loses nothing, in no other run. -/
theorem response_woken {tr : List (Entry cfg L)} {st : Status cfg L} (h : Run tr st) :
    ((∀ e ∈ tr, e.strandsResponse = false) → Throughout Connection.Woken tr st) ∧
      ((∀ e ∈ tr, e.io.DiskOk) → Throughout Connection.Woken tr st →
        ∀ e ∈ tr, e.strandsResponse = false) := by
  refine ⟨fun hok => ?_, fun hdisk hall => ?_⟩
  · exact h.throughout (fun hrep => hrep.woken_iff) trivial
      (fun hw hrep hstep hnot => hstep.woken hw hrep hnot) hok
  · exact h.of_throughout (fun hrep => hrep.woken_iff)
      (fun hrep hstep hd hbad => hstep.stranded hrep hd hbad) hdisk hall

/-- A client that takes nothing of a response has its event pending when `SIGUSR1` comes: what the
queue held is delivered from `response_buf`. -/
theorem response_woken_delivered :
    ∃ (tr : List (Entry .shipped .bodiless)) (c : Connection .shipped .bodiless),
      Run tr (.live c) ∧ c.inTransition = true ∧ c.unreadResponse = ascii "K" ∧
        Throughout Connection.Woken tr (.live c) := by
  obtain ⟨tr, st, hrun, htr⟩ := exists_run (L := .bodiless)
    [(.clientReadable, { clientReads := [.data (ascii "GET / HTTP/1.1\r\n\r\n")] }),
      (.serverReadable false, { serverReads := [.data (ascii "OK")] }),
      (.slowSwitch, {}), (.clientWritable, { clientWrites := [.wrote 0] })]
    (fun (tr : List (Entry .shipped _)) st => tr.all (!·.strandsResponse) &&
      st.isLiveWith fun c => c.inTransition && c.unreadResponse == ascii "K")
    (by decide +kernel)
  obtain ⟨hok, hst⟩ := Bool.and_eq_true_iff.mp htr
  obtain ⟨c, rfl, hc⟩ := Status.isLiveWith_iff.mp hst
  obtain ⟨ht, hunread⟩ := Bool.and_eq_true_iff.mp hc
  refine ⟨tr, c, hrun, ht, beq_iff_eq.mp hunread, (response_woken hrun).1 fun e he => ?_⟩
  simpa using List.all_eq_true.mp hok e he

/-- The client takes three of nine bytes before `SIGUSR1`, the server falls silent and the
transition times out: six bytes wait in `response_buf`, and nothing will fetch them. -/
theorem response_stranded :
    ∃ (tr : List (Entry .shipped .bodiless)) (c : Connection .shipped .bodiless),
      Run tr (.live c) ∧ (∀ e ∈ tr, e.io.DiskOk) ∧ c.fastMode = false ∧
        c.unreadResponse = ascii "P/1.1 " ∧ c.client.writeEvt = false := by
  obtain ⟨tr, st, hrun, hdisk, hst⟩ := exists_run_diskOk (L := .bodiless)
    [(.clientReadable, { clientReads := [.data (ascii "GET / HTTP/1.1\r\n\r\n")] }),
      (.serverReadable false,
        { serverReads := [.data (ascii "HTTP/1.1 ")], clientWrites := [.wrote 2] }),
      (.slowSwitch, {}), (.serverReadable true, {})]
    (fun (_ : List (Entry .shipped _)) st => st.isLiveWith fun c =>
      !c.fastMode && c.unreadResponse == ascii "P/1.1 " && !c.client.writeEvt)
    (by decide +kernel) (by simp [Io.DiskOk])
  obtain ⟨c, rfl, hc⟩ := Status.isLiveWith_iff.mp hst
  simp only [Bool.and_eq_true, Bool.not_eq_true', beq_iff_eq] at hc
  exact ⟨tr, c, hrun, hdisk, hc.1.1, hc.1.2, hc.2⟩

/-! ### Fast mode -/

/-- In fast mode with a server, what is queued has its writing event pending. -/
def Connection.Flushing (c : Connection cfg L) : Prop :=
  c.fastMode = true → ∀ s, c.server = some s →
    (queued s.queuedOutput ≠ [] → s.writeEvt = true) ∧
      (queued c.client.queuedOutput ≠ [] → c.client.writeEvt = true)

/-- The same, phase by phase. -/
def Phase.Flushing : Phase cfg L → Prop
  | .fast _ _ cq sq cw sw => (sq.contents ≠ [] → sw = true) ∧ (cq.contents ≠ [] → cw = true)
  | _ => True

/-- The queue towards the server. A new connection gets it before anything is forwarded. -/
def Entry.serverQueue (e : Entry cfg L) : Circularbuf cfg.sockIoBufSize :=
  (e.conn.server.bind (·.queuedOutput)).getD (.new cfg.sockIoBufSize_pos)

/-- The queue towards the client. -/
def Entry.clientQueue (e : Entry cfg L) : Circularbuf cfg.sockIoBufSize :=
  e.conn.client.queuedOutput.getD (.new cfg.sockIoBufSize_pos)

/-- The server's socket does not take all that is offered: what is queued and what has been
read. -/
def Entry.serverTakesLess (e : Entry cfg L) : Bool :=
  decide ((e.calls.flatMap (·.serverOut)).length
    < (e.serverQueue.contents ++ e.calls.flatMap (·.clientIn)).length)

/-- The client's socket does not take all that is offered. -/
def Entry.clientTakesLess (e : Entry cfg L) : Bool :=
  decide ((e.calls.flatMap (·.clientOut)).length
    < (e.clientQueue.contents ++ e.calls.flatMap (·.serverIn)).length)

/-- In fast mode a socket takes a part of what is offered after a read that did not end the
stream, or less than what is queued when its writing event fires. -/
def Entry.leavesTail (e : Entry cfg L) : Bool :=
  e.conn.fastMode &&
    match e.cb with
    | .clientReadable =>
      !(readAll e.io.clientReads e.serverQueue.remainingSpace).hasEof &&
        !(e.calls.flatMap (·.serverOut)).isEmpty && e.serverTakesLess
    | .serverReadable _ =>
      !(readAll e.io.serverReads e.clientQueue.remainingSpace).hasEof &&
        !(e.calls.flatMap (·.clientOut)).isEmpty && e.clientTakesLess
    | .clientWritable => e.conn.server.isSome && e.clientTakesLess
    | .serverWritable => e.serverTakesLess
    | _ => false

/-- A represented connection is flushing if its phase is. -/
theorem Rep.flushing_iff {s : Session cfg L} {c : Connection cfg L} (hrep : Rep s c) :
    c.Flushing ↔ s.phase.Flushing := by
  unfold Connection.Flushing
  cases hrep with
  | fast =>
    refine ⟨fun h => h rfl _ rfl, fun h _ s hs => ?_⟩
    obtain rfl := Option.some.inj hs
    exact h
  | fresh | reply => exact ⟨fun _ => trivial, fun _ _ s hs => by cases hs⟩
  | transition | idle | exchange | slowReply =>
    exact ⟨fun _ => trivial, fun _ hfast => by cases hfast⟩

/-- What a socket does not take is what the queue keeps. -/
theorem length_lt_iff_ne_nil {q q' data : Bytes} {w : WriteOutcome}
    (h : q ++ data = w.data ++ q') : w.data.length < (q ++ data).length ↔ q' ≠ [] := by
  rw [h, List.length_append]
  constructor
  · rintro hlt rfl
    simp at hlt
  · intro hne
    have hpos := List.length_pos_iff.mpr hne
    omega

/-- Forwarding to the server leaves nothing queued without its event, unless the socket takes a
part. -/
theorem Session.FastForwardToServer.flushing {n : Counts} {p : HttpParser L} {hist : Bytes}
    {cq sq : Circularbuf cfg.sockIoBufSize} {cw : Bool} {io : Io} {calls : List Call}
    {s' : Session cfg L} (h : FastForwardToServer n p hist cq sq cw io calls (.live s'))
    (hcq : cq.contents ≠ [] → cw = true)
    (hno : (!(readAll io.clientReads sq.remainingSpace).hasEof &&
      !(calls.flatMap (·.serverOut)).isEmpty &&
      decide ((calls.flatMap (·.serverOut)).length
        < (sq.contents ++ calls.flatMap (·.clientIn)).length)) = false) : s'.phase.Flushing := by
  cases h with
  | malformedReply => trivial
  -- the event is added when the socket has taken nothing, so bytes stay queued only then
  | @forward o p' hist' sq' w ho _ _ hw heof =>
    refine ⟨fun hne => ?_, hcq⟩
    have hlt := (length_lt_iff_ne_nil (contents_of_forward ho hw)).mpr hne
    rw [List.length_append] at hlt
    show w.data.isEmpty = true
    rw [List.isEmpty_iff]
    by_contra hdata
    have hle : sq.contents.length + o.data.length ≤ w.data.length := by
      simpa [ho, heof, hdata] using hno
    exact absurd hlt (Nat.not_lt_of_le hle)

/-- The same of forwarding to the client. -/
theorem Session.FastForwardToClient.flushing {n : Counts} {p : HttpParser L} {hist : Bytes}
    {cq sq : Circularbuf cfg.sockIoBufSize} {sw : Bool} {io : Io} {calls : List Call}
    {s' : Session cfg L} (h : FastForwardToClient n p hist cq sq sw io calls (.live s'))
    (hsq : sq.contents ≠ [] → sw = true)
    (hno : (!(readAll io.serverReads cq.remainingSpace).hasEof &&
      !(calls.flatMap (·.clientOut)).isEmpty &&
      decide ((calls.flatMap (·.clientOut)).length
        < (cq.contents ++ calls.flatMap (·.serverIn)).length)) = false) : s'.phase.Flushing := by
  cases h with
  | eofReply => trivial
  -- as for the server
  | @forward o cq' w ho hw heof =>
    refine ⟨hsq, fun hne => ?_⟩
    have hlt := (length_lt_iff_ne_nil (contents_of_forward ho hw)).mpr hne
    rw [List.length_append] at hlt
    show w.data.isEmpty = true
    rw [List.isEmpty_iff]
    by_contra hdata
    have hle : cq.contents.length + o.data.length ≤ w.data.length := by
      simpa [ho, heof, hdata] using hno
    exact absurd hlt (Nat.not_lt_of_le hle)

/-- What a writing callback leaves is what the socket did not take. -/
theorem drained_iff {q q' : Circularbuf cfg.sockIoBufSize} {results : List WriteResult}
    {w : WriteOutcome} (hw : q.writeAllTo results = .ok (q', w)) :
    w.data.length < q.contents.length ↔ q'.contents ≠ [] := by
  have hc := contents_of_writeAllTo hw
  rw [← List.append_nil q.contents] at hc ⊢
  exact length_lt_iff_ne_nil hc

/-- One step that leaves no tail. -/
theorem Session.Step.flushing {s s' : Session cfg L} {c : Connection cfg L} {cb : Callback}
    {io : Io} {calls : List Call} (hf : s.phase.Flushing) (hrep : Rep s c)
    (h : Step s cb io calls (.live s'))
    (hok : (⟨c, cb, io, calls⟩ : Entry cfg L).leavesTail = false) : s'.phase.Flushing := by
  cases h with
  | freshConnect _ h =>
    refine h.flushing (fun hne => absurd (Circularbuf.contents_new _) hne) ?_
    cases hrep
    simpa [Entry.leavesTail, Entry.serverQueue, Entry.serverTakesLess] using hok
  | fastClientReadable h =>
    refine h.flushing hf.2 ?_
    cases hrep
    simpa [Entry.leavesTail, Entry.serverQueue, Entry.serverTakesLess] using hok
  | fastServerReadable h =>
    refine h.flushing hf.1 ?_
    cases hrep
    simpa [Entry.leavesTail, Entry.clientQueue, Entry.clientTakesLess] using hok
  | fastClientWritable hw =>
    refine ⟨hf.1, fun hne => ?_⟩
    cases hrep
    -- the event is removed whatever is left in the queue
    have hlt := (drained_iff hw).mpr hne
    simp [Entry.leavesTail, Entry.clientQueue, Entry.clientTakesLess] at hok
    omega
  | fastServerWritable hw =>
    refine ⟨fun hne => ?_, hf.2⟩
    cases hrep
    have hlt := (drained_iff hw).mpr hne
    simp [Entry.leavesTail, Entry.serverQueue, Entry.serverTakesLess] at hok
    omega
  | monitorKeep | signalSlow => exact hf
  | monitorSwitch _ _ _ h | signalSwitch h => cases h <;> trivial
  | idleDispatch _ _ _ _ h =>
    cases h
    trivial
  | _ => trivial

/-- Forwarding that leaves a tail leaves it without its event. -/
theorem Session.FastForwardToServer.leaves {n : Counts} {p : HttpParser L} {hist : Bytes}
    {cq sq : Circularbuf cfg.sockIoBufSize} {cw : Bool} {io : Io} {calls : List Call}
    {out : Outcome cfg L} (h : FastForwardToServer n p hist cq sq cw io calls out)
    (hdisk : io.DiskOk) (heof : (readAll io.clientReads sq.remainingSpace).hasEof = false)
    (htaken : calls.flatMap (·.serverOut) ≠ [])
    (hlt : (calls.flatMap (·.serverOut)).length
      < (sq.contents ++ calls.flatMap (·.clientIn)).length) :
    ∃ s', out = .live s' ∧ ¬ s'.phase.Flushing := by
  cases h with
  | malformedReply | malformedDelete => exact absurd rfl htaken
  | histFault _ _ hhist =>
    rw [recorded_eq _ _ _ (hdisk 0)] at hhist
    cases hhist
  | eof ho _ _ _ heof' =>
    rw [ho, heof'] at heof
    cases heof
  | @forward o p' hist' sq' w ho _ _ hw =>
    have htaken' : w.data ≠ [] := by simpa using htaken
    have hlt' : w.data.length < (sq.contents ++ o.data).length := by simpa using hlt
    refine ⟨_, rfl, fun hflush => htaken' ?_⟩
    have hne := (length_lt_iff_ne_nil (contents_of_forward ho hw)).mp hlt'
    exact List.isEmpty_iff.mp (hflush.1 hne)

/-- The same of forwarding to the client. -/
theorem Session.FastForwardToClient.leaves {n : Counts} {p : HttpParser L} {hist : Bytes}
    {cq sq : Circularbuf cfg.sockIoBufSize} {sw : Bool} {io : Io} {calls : List Call}
    {out : Outcome cfg L} (h : FastForwardToClient n p hist cq sq sw io calls out)
    (heof : (readAll io.serverReads cq.remainingSpace).hasEof = false)
    (htaken : calls.flatMap (·.clientOut) ≠ [])
    (hlt : (calls.flatMap (·.clientOut)).length
      < (cq.contents ++ calls.flatMap (·.serverIn)).length) :
    ∃ s', out = .live s' ∧ ¬ s'.phase.Flushing := by
  cases h with
  | eofReply ho _ heof' | eofDelete ho _ heof' =>
    rw [ho, heof'] at heof
    cases heof
  | @forward o cq' w ho hw =>
    have htaken' : w.data ≠ [] := by simpa using htaken
    have hlt' : w.data.length < (cq.contents ++ o.data).length := by simpa using hlt
    refine ⟨_, rfl, fun hflush => htaken' ?_⟩
    have hne := (length_lt_iff_ne_nil (contents_of_forward ho hw)).mp hlt'
    exact List.isEmpty_iff.mp (hflush.2 hne)

/-- A step that leaves a tail leaves it without its event. -/
theorem Session.Step.leaves {s : Session cfg L} {c : Connection cfg L} {cb : Callback} {io : Io}
    {calls : List Call} {out : Outcome cfg L} (hrep : Rep s c) (h : Step s cb io calls out)
    (hdisk : io.DiskOk) (hbad : (⟨c, cb, io, calls⟩ : Entry cfg L).leavesTail = true) :
    ∃ s', out = .live s' ∧ ¬ s'.phase.Flushing := by
  obtain ⟨hfast, hbad⟩ := Bool.and_eq_true_iff.mp hbad
  cases h with
  | freshRefused => simp at hbad
  | freshConnect _ h | fastClientReadable h =>
    cases hrep
    simp only [Bool.and_eq_true, Bool.not_eq_true', List.isEmpty_eq_false_iff,
      Entry.serverTakesLess, decide_eq_true_eq] at hbad
    obtain ⟨⟨heof, htaken⟩, hlt⟩ := hbad
    exact h.leaves hdisk heof htaken hlt
  | fastServerReadable h =>
    cases hrep
    simp only [Bool.and_eq_true, Bool.not_eq_true', List.isEmpty_eq_false_iff,
      Entry.clientTakesLess, decide_eq_true_eq] at hbad
    obtain ⟨⟨heof, htaken⟩, hlt⟩ := hbad
    exact h.leaves heof htaken hlt
  -- `on_writable` switches its own event off, whatever is left
  | fastClientWritable hw =>
    cases hrep
    have hlt := (Bool.and_eq_true_iff.mp hbad).2
    simp only [Entry.clientTakesLess, Entry.clientQueue] at hlt
    have hne := (drained_iff hw).mp (by simpa using hlt)
    exact ⟨_, rfl, fun hflush => Bool.false_ne_true (hflush.2 hne)⟩
  | fastServerWritable hw =>
    cases hrep
    simp only [Entry.serverTakesLess, Entry.serverQueue] at hbad
    have hne := (drained_iff hw).mp (by simpa using hbad)
    exact ⟨_, rfl, fun hflush => Bool.false_ne_true (hflush.1 hne)⟩
  | replyDone | replyMore =>
    cases hrep
    cases hbad
  | monitorDrop | monitorKeep | monitorSwitch | monitorFault | signalSlow | signalSwitch
    | signalFault => cases hbad
  | _ =>
    cases hrep
    cases hfast

/-- **No bytes are stranded in fast mode**, in every run in which no socket takes just a part of
what is offered; and, when the disk loses nothing, in no other run. -/
theorem tail_flushed {tr : List (Entry cfg L)} {st : Status cfg L} (h : Run tr st) :
    ((∀ e ∈ tr, e.leavesTail = false) → Throughout Connection.Flushing tr st) ∧
      ((∀ e ∈ tr, e.io.DiskOk) → Throughout Connection.Flushing tr st →
        ∀ e ∈ tr, e.leavesTail = false) := by
  refine ⟨fun hok => ?_, fun hdisk hall => ?_⟩
  · exact h.throughout (fun hrep => hrep.flushing_iff) trivial
      (fun hf hrep hstep hnot => hstep.flushing hf hrep hnot) hok
  · exact h.of_throughout (fun hrep => hrep.flushing_iff)
      (fun hrep hstep hd hbad => hstep.leaves hrep hd hbad) hdisk hall

/-- The server takes nothing at first, and everything when its writing event fires. -/
theorem tail_flushed_unwritable :
    ∃ (tr : List (Entry .shipped .bodiless)) (c : Connection .shipped .bodiless),
      Run tr (.live c) ∧ c.fastMode = true ∧ c.server.isSome = true ∧ tr.length = 3 ∧
        Throughout Connection.Flushing tr (.live c) := by
  obtain ⟨tr, st, hrun, htr⟩ := exists_run (L := .bodiless)
    [(.clientReadable, { clientReads := [.data (ascii "GET / HTTP/1.1\r\n\r\n")] }),
      (.serverWritable, { serverWrites := [.wrote 17] }),
      (.serverReadable false, { serverReads := [.data (ascii "OK")] })]
    (fun (tr : List (Entry .shipped _)) st => tr.all (!·.leavesTail) && tr.length == 3 &&
      st.isLiveWith fun c => c.fastMode && c.server.isSome)
    (by decide +kernel)
  simp only [Bool.and_eq_true, List.all_eq_true, Bool.not_eq_true', beq_iff_eq] at htr
  obtain ⟨⟨hok, hlen⟩, hst⟩ := htr
  obtain ⟨c, rfl, hc⟩ := Status.isLiveWith_iff.mp hst
  obtain ⟨hfast, hserver⟩ := Bool.and_eq_true_iff.mp hc
  exact ⟨tr, c, hrun, hfast, hserver, hlen, (tail_flushed hrun).1 hok⟩

/-- The server takes three bytes of a request: the other fifteen wait for the next one. -/
theorem tail_stranded :
    ∃ (tr : List (Entry .shipped .bodiless)) (c : Connection .shipped .bodiless)
      (s : Server .shipped), Run tr (.live c) ∧ (∀ e ∈ tr, e.io.DiskOk) ∧ c.fastMode = true ∧
        c.server = some s ∧ queued s.queuedOutput = ascii " / HTTP/1.1\r\n\r\n" ∧
        s.writeEvt = false := by
  obtain ⟨tr, st, hrun, hdisk, hst⟩ := exists_run_diskOk (L := .bodiless)
    [(.clientReadable,
      { clientReads := [.data (ascii "GET / HTTP/1.1\r\n\r\n")], serverWrites := [.wrote 2] })]
    (fun (_ : List (Entry .shipped _)) st => st.isLiveWith fun c => c.fastMode &&
      c.server.any fun s =>
        queued s.queuedOutput == ascii " / HTTP/1.1\r\n\r\n" && !s.writeEvt)
    (by decide +kernel) (by simp [Io.DiskOk])
  obtain ⟨c, rfl, hc⟩ := Status.isLiveWith_iff.mp hst
  obtain ⟨hfast, hserver⟩ := Bool.and_eq_true_iff.mp hc
  obtain ⟨s, hs, hq⟩ := (Option.any_eq_true ..).mp hserver
  simp only [Bool.and_eq_true, Bool.not_eq_true', beq_iff_eq] at hq
  exact ⟨tr, c, s, hrun, hdisk, hfast, hs, hq.1, hq.2⟩

end LSProxy
