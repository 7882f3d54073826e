import LSProxy.Safety.Delivery

/-!
# The page of the unavailable service

`reply_with_503_unavailable` writes to the client's socket directly, past whatever waits for it. In
slow mode the client is read again when its response has been received, not when it has been
delivered, so a request can complete, and find no server, while a part of a response still waits.

* `page_not_injected` — the page is never written in front of bytes that wait for the client, in
  exactly the runs in which no request is refused behind a waiting response;
* `page_injected` — a run in which one is.

The error path next to it, for a request that cannot be parsed, does look at `response_buf`.
-/

namespace LSProxy

open Session

variable {cfg : Config} {L : Llhttp}

/-- `reply_with_503_unavailable` is called. -/
def Entry.sends503 (e : Entry cfg L) : Bool :=
  e.calls.any fun
    | .page503 _ => true
    | _ => false

/-- A request is complete, no server can be connected, and bytes wait for the client. -/
def Entry.refusedBehindResponse (e : Entry cfg L) : Bool :=
  e.cb == .clientReadable && !e.conn.fastMode && !e.io.connectOk &&
    !(readAll e.io.clientReads cfg.sockIoBufSize).hasEof &&
    (e.conn.parser.any fun p =>
      (p.doParse (readAll e.io.clientReads cfg.sockIoBufSize).data).any (·.firstEom.isSome)) &&
    (!(queued e.conn.client.queuedOutput).isEmpty || !e.conn.unreadResponse.isEmpty)

/-! ### What waits for the client -/

/-- A queue of reply-only mode has been left behind with bytes in it. -/
def Phase.Abandoned : Phase cfg L → Prop
  | .idle _ _ stale _ | .exchange _ _ stale _ _ | .slowReply _ stale => queued stale ≠ []
  | _ => False

/-- A connection is in reply-only mode for the sake of what is queued. -/
def Phase.ReplyQueued : Phase cfg L → Prop
  | .reply cq => cq.contents ≠ []
  | _ => True

/-- What waits for the client is all that has been read from the servers and not been written,
unless a queue was left behind. -/
def Accounted (tr : List (Entry cfg L)) (out : Outcome cfg L) : Prop :=
  ∀ s, out = .live s → s.phase.ReplyQueued ∧
    (s.phase.Abandoned ∨ Returns [] (callsOf tr) (.live s))

theorem Session.SlowSwitch.replyQueued {io : Io} {ph ph' : Phase cfg L}
    (h : SlowSwitch io ph (.ok ph')) : ph'.ReplyQueued := by
  cases h <;> trivial

/-- The reply-only mode is entered, and stays, with something to reply. -/
theorem Session.Step.replyQueued {s s' : Session cfg L} {cb : Callback} {io : Io}
    {calls : List Call} (hq : s.phase.ReplyQueued) (h : Step s cb io calls (.live s')) :
    s'.phase.ReplyQueued := by
  cases h with
  | freshConnect _ h | fastClientReadable h =>
    cases h with
    | malformedReply _ _ hcq => exact hcq
    | forward => trivial
  | fastServerReadable h =>
    cases h with
    | eofReply _ _ _ hcq => exact hcq
    | forward => trivial
  | replyMore _ hmore => exact fun hnil => hmore (.inr hnil)
  | idleDispatch _ _ _ _ h =>
    cases h
    trivial
  | monitorKeep | signalSlow => exact hq
  | monitorSwitch _ _ _ h | signalSwitch h => exact h.replyQueued
  | _ => trivial

/-- What has been left behind stays there. -/
theorem Session.Step.abandoned {s s' : Session cfg L} {cb : Callback} {io : Io}
    {calls : List Call} (ha : s.phase.Abandoned) (h : Step s cb io calls (.live s')) :
    s'.phase.Abandoned := by
  cases h with
  | idleDispatch _ _ _ _ h =>
    cases h
    exact ha
  | monitorSwitch _ _ _ h | signalSwitch h => cases h <;> exact ha.elim
  | transitionTimeout | transitionEof => exact ha.elim
  | idleMalformedReply | idleRead | idleDeliver | exchangeMalformedReply | exchangeEnd
    | exchangeRead | exchangeSend | exchangeSwap | exchangeDeliver | slowReplyDeliver
    | monitorKeep | signalSlow => exact ha
  | _ => exact ha.elim

/-- One step keeps the account, without disk-write loss and when no read of the transition drops
bytes. -/
theorem Accounted.step {tr : List (Entry cfg L)} {s : Session cfg L} {c : Connection cfg L}
    {cb : Callback} {io : Io} {calls : List Call} {out : Outcome cfg L}
    (hI : Accounted tr (.live s)) (hrep : Rep s c) (h : Step s cb io calls out)
    (hdisk : io.DiskOk) (hd : (⟨c, cb, io, calls⟩ : Entry cfg L).dropsLastRead = false) :
    Accounted (tr ++ [⟨c, cb, io, calls⟩]) out := by
  rintro s' rfl
  obtain ⟨hreply, haccount⟩ := hI s rfl
  refine ⟨h.replyQueued hreply, ?_⟩
  rcases haccount with ha | ⟨q, hcar, hlive⟩
  · exact .inl (h.abandoned ha)
  · obtain ⟨hq, hfreed⟩ := hlive s rfl
    cases habandon : (⟨c, cb, io, calls⟩ : Entry cfg L).abandonsQueue with
    | false =>
      obtain ⟨q', hcar', hlive'⟩ := h.returns hfreed hrep hdisk habandon hd
      right
      rw [callsOf_append, callsOf_singleton]
      rw [hq] at hcar'
      exact ⟨q', hcar.append hcar', hlive'⟩
    | true =>
      -- `set_slow_mode` leaves the queue of a connection in reply-only mode behind
      obtain ⟨⟨hsw, hserver⟩, hqueue⟩ := by
        simpa only [Entry.abandonsQueue, Bool.and_eq_true] using habandon
      obtain ⟨n₀, ph⟩ := s
      obtain ⟨-, n, r, hswitch, hout⟩ := h.of_switches hrep hsw
      left
      cases hswitch with
      | fresh =>
        cases hrep
        cases hqueue
      -- its queue is not empty, or it would not be in reply-only mode
      | reply =>
        obtain rfl := Outcome.live.inj hout
        exact hreply
      | copyFault | dumpFault => cases hout
      | fast =>
        cases hrep
        cases hserver

/-! ### The page -/

/-- The page is sent on a new connection, or instead of connecting for a complete request. -/
theorem Session.Step.sends503 {s : Session cfg L} {c : Connection cfg L} {cb : Callback} {io : Io}
    {calls : List Call} {out : Outcome cfg L} (hrep : Rep s c) (h : Step s cb io calls out)
    (hsend : (⟨c, cb, io, calls⟩ : Entry cfg L).sends503 = true)
    (hok : (⟨c, cb, io, calls⟩ : Entry cfg L).refusedBehindResponse = false) :
    queued c.client.queuedOutput = [] ∧ c.unreadResponse = [] ∧
      s.phase.undelivered = [] ∧ ¬ s.phase.Abandoned := by
  cases h with
  | freshRefused =>
    cases hrep
    exact ⟨rfl, rfl, rfl, id⟩
  | freshConnect _ h | fastClientReadable h => cases h <;> cases hsend
  | fastServerReadable h => cases h <;> cases hsend
  | transitionDeliver h | idleDeliver h | exchangeDeliver h | slowReplyDeliver h =>
    cases h <;> cases hsend
  | slowReplyDone h =>
    cases h
    cases hsend
  | monitorDrop =>
    simp only [Entry.sends503, List.any_append] at hsend
    split at hsend <;> cases hsend
  | @idleDispatch n p p' b stale cw io o k _ _ ho heof hp hk h =>
    have hunread := hrep.unreadResponse rfl
    cases h with
    | refused _ _ hc =>
      cases hrep
      simp only [Entry.refusedBehindResponse, ho, heof, hc, hunread, Phase.undelivered] at hok
      -- a refusal with anything waiting is what is excluded
      obtain ⟨hqueue, hnil⟩ : queued stale = [] ∧ b.unread = [] := by
        simpa [slowClient, Option.any, hp, hk] using hok
      exact ⟨hqueue, hunread.trans hnil, hnil, not_not_intro hqueue⟩
    | storeFault | tmpFault | connect => cases hsend
  | _ => cases hsend

/-- A refusal behind a waiting response sends the page, when the disk loses nothing. -/
theorem Session.Step.refused {s : Session cfg L} {c : Connection cfg L} {cb : Callback} {io : Io}
    {calls : List Call} {out : Outcome cfg L} (hrep : Rep s c) (h : Step s cb io calls out)
    (hdisk : io.DiskOk)
    (hbad : (⟨c, cb, io, calls⟩ : Entry cfg L).refusedBehindResponse = true) :
    (⟨c, cb, io, calls⟩ : Entry cfg L).sends503 = true ∧
      ¬ (queued c.client.queuedOutput = [] ∧ c.unreadResponse = []) := by
  simp only [Entry.refusedBehindResponse, Bool.and_eq_true, beq_iff_eq, Bool.not_eq_true'] at hbad
  obtain ⟨⟨⟨⟨⟨rfl, hslow⟩, hrefused⟩, hopen⟩, hparsed⟩, hwaits⟩ := hbad
  have hnot : ¬ (queued c.client.queuedOutput = [] ∧ c.unreadResponse = []) := by
    rintro ⟨hqueue, hunread⟩
    rw [hqueue, hunread] at hwaits
    cases hwaits
  refine ⟨?_, hnot⟩
  -- without loss on the disk no store fails, so `connect_TCP` is reached
  have stores : ∀ (f : Filebuf) (k : ℕ) (data : Bytes) (e : Fault),
      f.store (io.disk k) data ≠ .error e := by
    intro f k data e herr
    unfold Filebuf.store Filebuf.fileWrite at herr
    rw [hdisk] at herr
    cases herr
  cases h with
  | freshRefused | freshConnect | fastClientReadable =>
    cases hrep
    cases hslow
  | idleEof ho heof =>
    rw [ho, heof] at hopen
    cases hopen
  | idleMalformedReply ho _ hp | idleMalformedDelete ho _ hp =>
    cases hrep
    simp [ho, hp] at hparsed
  | idleFault ho _ hp hk | idleRead ho _ hp hk =>
    cases hrep
    simp [ho, hp, hk] at hparsed
  | idleDispatch _ _ _ _ h =>
    cases h with
    | storeFault hr => exact absurd hr (stores _ _ _ _)
    | tmpFault _ ht => exact absurd ht (stores _ _ _ _)
    | refused => rfl
    | connect _ _ hc =>
      rw [hrefused] at hc
      cases hc

/-- **The page is never written in front of a response that waits**, in exactly the runs in which
no request is refused while bytes wait for the client; the disk loses nothing, and no read of the
transition drops bytes. -/
theorem page_not_injected {tr : List (Entry cfg L)} {st : Status cfg L} (h : Run tr st)
    (hdisk : ∀ e ∈ tr, e.io.DiskOk) (hkept : ∀ e ∈ tr, e.dropsLastRead = false) :
    (∀ e ∈ tr, e.refusedBehindResponse = false) ↔
      ∀ pre e post, tr = pre ++ e :: post → e.sends503 = true →
        (callsOf pre).flatMap (·.serverIn) = (callsOf pre).flatMap (·.clientOut) ∧
          queued e.conn.client.queuedOutput = [] ∧ e.conn.unreadResponse = [] := by
  have at_event : ∀ {pre e post}, tr = pre ++ e :: post → ∃ s out, Accounted pre (.live s) ∧
      Rep s e.conn ∧ Step s e.cb e.io e.calls out := by
    rintro pre e post rfl
    refine h.step_of (P := fun e => e.io.DiskOk ∧ e.dropsLastRead = false) ?_
      (fun hI hrep hstep hP => hI.step hrep hstep hP.1 hP.2) fun x hx => ?_
    · intro s hs
      obtain rfl := Outcome.live.inj hs
      exact ⟨trivial, .inr (.live (.idle rfl rfl) trivial)⟩
    · have hx' := List.mem_append_left (e :: post) hx
      exact ⟨hdisk x hx', hkept x hx'⟩
  constructor
  · intro hok pre e post htr hsend
    obtain ⟨s, out, haccount, hrep, hstep⟩ := at_event htr
    have he : e ∈ tr := htr ▸ List.mem_append_right _ List.mem_cons_self
    obtain ⟨hqueue, hunread, hnil, hnot⟩ := hstep.sends503 hrep hsend (hok e he)
    -- nothing waits, so all that has been read from the servers has been written
    obtain ⟨q, hcar, hlive⟩ := (haccount s rfl).2.resolve_left hnot
    obtain ⟨hq, -⟩ := hlive s rfl
    rw [hnil] at hq
    subst hq
    unfold Carries at hcar
    rw [List.nil_append, List.append_nil] at hcar
    exact ⟨hcar, hqueue, hunread⟩
  -- a refusal behind a waiting response would be an exception
  · intro hall e he
    obtain ⟨pre, post, htr⟩ := List.append_of_mem he
    obtain ⟨s, out, -, hrep, hstep⟩ := at_event htr
    cases hbad : e.refusedBehindResponse with
    | false => rfl
    | true =>
      obtain ⟨hsend, hnot⟩ := hstep.refused hrep (hdisk e he) hbad
      exact absurd (hall pre e post htr hsend).2 hnot

/-- A connection whose response has been delivered: the next request is refused, and the page is
all that the client gets. -/
theorem page_not_injected_delivered :
    ∃ (pre post : List (Entry .shipped .bodiless)) (e : Entry .shipped .bodiless)
      (st : Status .shipped .bodiless), Run (pre ++ e :: post) st ∧ e.sends503 = true ∧
        e.conn.fastMode = false ∧
        (callsOf pre).flatMap (·.serverIn) = (callsOf pre).flatMap (·.clientOut) := by
  obtain ⟨tr, st, hrun, hdisk, htr⟩ := exists_run_diskOk (L := .bodiless)
    [(.slowSwitch, {}),
      (.clientReadable, { clientReads := [.data (ascii "GET / HTTP/1.1\r\n\r\n")] }),
      (.serverReadable false, { serverReads := [.data (ascii "HTTP/1.1 204 No Content\r\n\r\n")] }),
      (.clientWritable, { clientWrites := [.wrote 100] }),
      (.clientReadable,
        { clientReads := [.data (ascii "GET / HTTP/1.1\r\n\r\n")], connectOk := false })]
    (fun (tr : List (Entry .shipped _)) _ =>
      tr.all (fun e => !e.refusedBehindResponse && !e.dropsLastRead) &&
        cut 4 tr fun _ e _ => e.sends503 && !e.conn.fastMode)
    (by decide +kernel) (by simp [Io.DiskOk])
  obtain ⟨hok, hcut⟩ := Bool.and_eq_true_iff.mp htr
  simp only [List.all_eq_true, Bool.and_eq_true, Bool.not_eq_true'] at hok
  obtain ⟨pre, e, post, rfl, he⟩ := of_cut hcut
  obtain ⟨hsend, hslow⟩ := Bool.and_eq_true_iff.mp he
  have hall := (page_not_injected hrun hdisk fun x hx => (hok x hx).2).mp fun x hx => (hok x hx).1
  exact ⟨pre, post, e, st, hrun, hsend, by simpa using hslow, (hall pre e post rfl hsend).1⟩

/-- The response has been received, and three bytes of it delivered, when the next request finds
no server: the page follows those three bytes. -/
theorem page_injected :
    ∃ (pre post : List (Entry .shipped .bodiless)) (e : Entry .shipped .bodiless)
      (st : Status .shipped .bodiless), Run (pre ++ e :: post) st ∧
        (∀ x ∈ pre ++ e :: post, x.io.DiskOk ∧ x.dropsLastRead = false) ∧ e.sends503 = true ∧
        (callsOf pre).flatMap (·.clientOut) = ascii "HTT" ∧ e.conn.unreadResponse ≠ [] := by
  obtain ⟨tr, st, hrun, hdisk, htr⟩ := exists_run_diskOk (L := .bodiless)
    [(.slowSwitch, {}),
      (.clientReadable, { clientReads := [.data (ascii "GET / HTTP/1.1\r\n\r\n")] }),
      (.serverReadable false, { serverReads := [.data (ascii "HTTP/1.1 204 No Content\r\n\r\n")] }),
      (.clientWritable, { clientWrites := [.wrote 2] }),
      (.clientReadable,
        { clientReads := [.data (ascii "GET / HTTP/1.1\r\n\r\n")], connectOk := false })]
    (fun (tr : List (Entry .shipped _)) _ =>
      tr.all (!·.dropsLastRead) &&
        cut 4 tr fun pre e _ => e.sends503 && !e.conn.unreadResponse.isEmpty &&
          (callsOf pre).flatMap (·.clientOut) == ascii "HTT")
    (by decide +kernel) (by simp [Io.DiskOk])
  obtain ⟨hkept, hcut⟩ := Bool.and_eq_true_iff.mp htr
  simp only [List.all_eq_true, Bool.not_eq_true'] at hkept
  obtain ⟨pre, e, post, rfl, he⟩ := of_cut hcut
  simp only [Bool.and_eq_true, beq_iff_eq, Bool.not_eq_true', List.isEmpty_eq_false_iff] at he
  obtain ⟨⟨hsend, hwaits⟩, hout⟩ := he
  exact ⟨pre, post, e, st, hrun, fun x hx => ⟨hdisk x hx, hkept x hx⟩, hsend, hout, hwaits⟩

end LSProxy
