import LSProxy.Safety.Handover

/-!
# Framing the response of an exchange

In slow mode each request gets a server connection of its own, and the parser decides when the
response on it is complete. Two things can go wrong, and both depend only on how messages fall into
reads.

* `response_framing` — whether a response has a body depends on the method of its request, and
  the parser keeps one method, that of the last message it has completed. It is the method of the
  dispatched request, the first one to end in the read, exactly when the last one to end in it has
  the same method.
* `final_response_awaited` — the exchange ends with the first end of a message, which is that of an
  interim response when a read gets no further.

Both are read off the events of llhttp: `Llhttp.methods` lists the methods of the requests that end
in some bytes, `HttpParser.hear` the statuses of the responses that do.
-/

namespace LSProxy

open Session

variable {cfg : Config} {L : Llhttp}

/-! ### Messages of unannounced length -/

/-- Where a reader of such messages stands: before a message, behind an initial `H`, in the headers
of a request or of a response with so many bytes of the closing `CR LF CR LF` behind it, in the
version or the status of a response, or in the body of one. -/
inductive Framed
  | start
  | initial
  | request (method : UInt8) (matched : Fin 4)
  | version
  | status (code : ℕ)
  | response (code : ℕ) (matched : Fin 4)
  | body

/-- How much of `CR LF CR LF` is matched after one more byte; `none` is all of it. -/
def Framed.advance (matched : Fin 4) (b : UInt8) : Option (Fin 4) :=
  if matched = 3 ∧ b = 10 then none
  else if matched = 1 ∧ b = 10 then some 2
  else if b = 13 then some (if matched = 2 then 3 else 1)
  else some 0

/-- llhttp as it behaves on `GET` and `HEAD` requests without a body, and on responses whose length
no header announces: they end with their headers where the status or `on_headers_complete` says so,
and else with the connection. -/
def Llhttp.framed : Llhttp where
  State := Framed
  init := .start
  step bodiless s b :=
    match s with
    | .start =>
      if b = 71 then some (.request 1 0, []) else if b = 72 then some (.initial, []) else none
    | .initial =>
      if b = 69 then some (.request httpHead 0, [])
      else if b = 84 then some (.version, []) else none
    | .request method matched =>
      match Framed.advance matched b with
      | some matched => some (.request method matched, [])
      | none => some (.start, [.headersComplete 0, .messageComplete method])
    | .version => some (if b = 32 then .status 0 else .version, [])
    | .status code =>
      if 48 ≤ b ∧ b ≤ 57 then some (.status (10 * code + (b.toNat - 48)), [])
      else some (.response code (if b = 13 then 1 else 0), [])
    | .response code matched =>
      match Framed.advance matched b with
      | some matched => some (.response code matched, [])
      | none =>
        if bodiless code || code < 200 || code == 204 || code == 304 then
          some (.start, [.headersComplete code, .messageComplete 0])
        else some (.body, [.headersComplete code])
    | .body => some (.body, [])

/-! ### What the parser remembers -/

/-- The method that comes with the end of a message. -/
def ParseEvent.method : ParseEvent → Option UInt8
  | .headersComplete _ => none
  | .messageComplete method => some method

/-- The methods of the requests that end in some bytes read from a state, in order. -/
def Llhttp.methods (L : Llhttp) : L.State → Bytes → List UInt8
  | _, [] => []
  | s, b :: bs =>
    match L.step (fun _ => false) s b with
    | some (s', es) => es.filterMap ParseEvent.method ++ L.methods s' bs
    | none => []

theorem getLastD_append {α : Type} (l l' : List α) (d : α) :
    (l ++ l').getLastD d = l'.getLastD (l.getLastD d) := by
  induction l generalizing d with
  | nil => rfl
  | cons a l ih => rw [List.cons_append, List.getLastD_cons, List.getLastD_cons, ih]

namespace HttpParser

/-- `last_method` is that of the last message that has ended. -/
theorem foldl_handle_lastMethod (pos : ℕ) (es : List ParseEvent) (p : HttpParser L) :
    (es.foldl (handle pos) p).lastMethod
      = (es.filterMap ParseEvent.method).getLastD p.lastMethod := by
  induction es generalizing p with
  | nil => rfl
  | cons e es ih =>
    rw [List.foldl_cons, ih]
    cases e with
    | headersComplete status => rfl
    | messageComplete method =>
      show _ = (method :: es.filterMap ParseEvent.method).getLastD p.lastMethod
      rw [List.getLastD_cons]
      rfl

theorem filterMap_method_eq_nil {es : List ParseEvent} :
    es.filterMap ParseEvent.method = [] ↔ es.any (·.isMessageComplete) = false := by
  induction es with
  | nil => exact ⟨fun _ => rfl, fun _ => rfl⟩
  | cons e es ih =>
    cases e with
    | headersComplete status => exact ih
    | messageComplete method => exact ⟨fun h => (List.cons_ne_nil _ _ h).elim, fun h => by cases h⟩

/-- One byte, event by event. -/
theorem parseByte_eq_some {p p' : HttpParser L} {pos : ℕ} {b : UInt8}
    (h : p.parseByte pos b = some p') :
    ∃ s es, L.step p.onHeadersComplete p.state b = some (s, es) ∧
      p' = es.foldl (handle pos) { p with state := s } := by
  obtain ⟨⟨s, es⟩, hstep, rfl⟩ := Option.map_eq_some_iff.mp h
  exact ⟨s, es, hstep, rfl⟩

theorem onHeadersComplete_request {p : HttpParser L} (hp : p.settings = .request) :
    p.onHeadersComplete = fun _ => false := by
  funext status
  rw [onHeadersComplete, hp]

/-- **After a chunk of requests, `last_method` is that of the last one that ends in it.** -/
theorem execute_lastMethod {p p' : HttpParser L} {i : ℕ} {bs : Bytes}
    (hp : p.settings = .request) (h : p.execute i bs = some p') :
    p'.lastMethod = (L.methods p.state bs).getLastD p.lastMethod := by
  induction bs generalizing p i with
  | nil =>
    obtain rfl := Option.some.inj h
    rfl
  | cons b bs ih =>
    obtain ⟨p₁, h₁, h₂⟩ := Option.bind_eq_some_iff.mp h
    have hp₁ : p₁.settings = .request := (parseByte_settings h₁).trans hp
    obtain ⟨s, es, hstep, rfl⟩ := parseByte_eq_some h₁
    rw [onHeadersComplete_request hp] at hstep
    have hmethods : L.methods p.state (b :: bs)
        = es.filterMap ParseEvent.method ++ L.methods s bs := by
      rw [Llhttp.methods, hstep]
    -- the default is what the bytes before have left
    rw [ih hp₁ h₂, foldl_handle_lastMethod, foldl_handle_state, hmethods, getLastD_append]

/-- **The first end-of-message pointer belongs to the first request that ends in the chunk.** -/
theorem execute_firstMethod {p p' : HttpParser L} {i k : ℕ} {bs : Bytes}
    (hp : p.settings = .request) (hnone : p.firstEom = none) (h : p.execute i bs = some p')
    (hk : p'.firstEom = some k) :
    ∃ j m, k = i + j ∧ (L.methods p.state (bs.take j)).head? = some m ∧
      (L.methods p.state bs).head? = some m := by
  induction bs generalizing p i with
  | nil =>
    obtain rfl := Option.some.inj h
    rw [hnone] at hk
    cases hk
  | cons b bs ih =>
    obtain ⟨p₁, h₁, h₂⟩ := Option.bind_eq_some_iff.mp h
    have hp₁ : p₁.settings = .request := (parseByte_settings h₁).trans hp
    obtain ⟨s, es, hstep, rfl⟩ := parseByte_eq_some h₁
    rw [onHeadersComplete_request hp] at hstep
    have hmethods : ∀ bs, L.methods p.state (b :: bs)
        = es.filterMap ParseEvent.method ++ L.methods s bs := by
      intro bs
      rw [Llhttp.methods, hstep]
    cases hes : es.any (·.isMessageComplete) with
    | false =>
      -- nothing ends with this byte
      rw [foldl_handle_quiet hes] at h₂
      obtain ⟨j, m, rfl, htake, hall⟩ := ih (p := { p with state := s }) hp hnone h₂
      have hnil := filterMap_method_eq_nil.mpr hes
      refine ⟨j + 1, m, by omega, ?_, ?_⟩
      · rw [List.take_succ_cons, hmethods, hnil]
        exact htake
      · rw [hmethods, hnil]
        exact hall
    | true =>
      -- later ends leave the pointer alone
      have hfirst : (es.foldl (handle (i + 1)) { p with state := s }).firstEom = some (i + 1) := by
        rw [(foldl_handle_eom hes _).2]
        show some (p.firstEom.getD (i + 1)) = _
        rw [hnone]
        rfl
      have hsome := execute_firstEom_some hp₁ hfirst h₂
      obtain rfl := Option.some.inj (hk.symm.trans hsome)
      obtain ⟨m, ms, hm⟩ : ∃ m ms, es.filterMap ParseEvent.method = m :: ms := by
        apply List.exists_cons_of_ne_nil
        intro hnil
        rw [filterMap_method_eq_nil.mp hnil] at hes
        cases hes
      refine ⟨1, m, rfl, ?_, ?_⟩
      · rw [List.take_succ_cons, hmethods, hm]
        rfl
      · rw [hmethods, hm]
        rfl

/-- As long as no message ends, `last_method` stays. -/
theorem execute_quiet {p p' : HttpParser L} {i : ℕ} {bs : Bytes} (h : p.execute i bs = some p')
    (hlast : p'.lastEom = none) : p.lastEom = none ∧ p'.lastMethod = p.lastMethod := by
  induction bs generalizing p i with
  | nil =>
    obtain rfl := Option.some.inj h
    exact ⟨hlast, rfl⟩
  | cons b bs ih =>
    obtain ⟨p₁, h₁, h₂⟩ := Option.bind_eq_some_iff.mp h
    obtain ⟨s, es, -, rfl⟩ := parseByte_eq_some h₁
    obtain ⟨hnone, hmethod⟩ := ih h₂
    -- an end anywhere in the chunk would have set `last_end_of_msg`
    cases hes : es.any (·.isMessageComplete) with
    | false =>
      rw [foldl_handle_quiet hes] at hnone hmethod
      exact ⟨hnone, hmethod⟩
    | true =>
      rw [(foldl_handle_eom hes _).1] at hnone
      cases hnone

end HttpParser

/-! ### The method of the dispatched request -/

/-- The event connects a server for a request received in slow mode. -/
def Entry.opensExchange (e : Entry cfg L) : Bool :=
  !e.conn.fastMode && e.calls.contains .connect

/-- What `Client::recv_to_buffer_slowly` reads. -/
def Entry.requestData (e : Entry cfg L) : Bytes := (readAll e.io.clientReads cfg.sockIoBufSize).data

/-- What `Server::recv_to_buffer_slowly` reads. -/
def Entry.responseData (e : Entry cfg L) : Bytes :=
  (readAll e.io.serverReads cfg.sockIoBufSize).data

/-- The method of the request that is dispatched, the one that ends at
`get_first_end_of_msg()`. -/
def Entry.dispatchedMethod (e : Entry cfg L) : Option UInt8 := do
  let p ← e.conn.parser
  let p' ← p.doParse e.requestData
  let k ← p'.firstEom
  (L.methods p.state (e.requestData.take k)).head?

/-- The method of the last request that ends in what is read. -/
def Entry.lastReadMethod (e : Entry cfg L) : Option UInt8 := do
  let p ← e.conn.parser
  (L.methods p.state e.requestData).getLast?

/-- The parser is in the state `q` while the event reads a response, before the end of any
message. -/
def Entry.Reaches (e : Entry cfg L) (q : HttpParser L) : Prop :=
  e.cb = .serverReadable false ∧ ∃ p bs, e.conn.parser = some p ∧ bs <+: e.responseData ∧
    { p with firstEom := none, lastEom := none }.execute 0 bs = some q ∧ q.lastEom = none

/-- In an exchange the parser reads responses, and `last_method` is `method`. -/
def Phase.AnswersTo (method : UInt8) : Phase cfg L → Prop
  | .exchange p .. => p.settings = .response ∧ p.lastMethod = method
  | _ => False

/-- The same of an outcome. -/
def Outcome.AnswersTo (method : UInt8) : Outcome cfg L → Prop
  | .live s => s.phase.AnswersTo method
  | _ => True

/-- Only the dispatch of a request opens an exchange. -/
theorem Session.Step.of_opensExchange {s : Session cfg L} {c : Connection cfg L} {cb : Callback}
    {io : Io} {calls : List Call} {out : Outcome cfg L} (h : Step s cb io calls out)
    (hrep : Rep s c) (ho : (⟨c, cb, io, calls⟩ : Entry cfg L).opensExchange = true) :
    ∃ n p p' b r tmp stale cw k, s = ⟨n, .idle p b stale cw⟩ ∧
      p.doParse (readAll io.clientReads cfg.sockIoBufSize).data = some p' ∧
      p'.firstEom = some k ∧
      out = .live ⟨n, .exchange p'.switchToResponseMode { b with request := r, tmp := tmp } stale
        cw true⟩ := by
  obtain ⟨hslow, hcontains⟩ := Bool.and_eq_true_iff.mp ho
  have hconnect : Call.connect ∈ calls := List.contains_iff_mem.mp hcontains
  cases h with
  | idleDispatch hread heof hp hk h =>
    subst hread
    cases h with
    | connect => exact ⟨_, _, _, _, _, _, _, _, _, rfl, hp, hk, rfl⟩
    | storeFault | tmpFault | refused => exact absurd hconnect (by simp)
  -- the connection of fast mode is no exchange
  | freshConnect =>
    cases hrep
    cases hslow
  | fastClientReadable h => cases h <;> exact absurd hconnect (by simp)
  | fastServerReadable h => cases h <;> exact absurd hconnect (by simp)
  | transitionDeliver h | idleDeliver h | exchangeDeliver h | slowReplyDeliver h
    | slowReplyDone h => cases h <;> exact absurd hconnect (by simp)
  | monitorDrop => exact absurd hconnect (by split <;> simp)
  | _ => exact absurd hconnect (by simp)

/-- A step that opens an exchange leaves the method of the last request that ended in the read. -/
theorem Session.Step.opens_answersTo {s : Session cfg L} {c : Connection cfg L} {cb : Callback}
    {io : Io} {calls : List Call} {out : Outcome cfg L} (h : Step s cb io calls out)
    (hrep : Rep s c) (hmode : s.phase.ParserMode)
    (ho : (⟨c, cb, io, calls⟩ : Entry cfg L).opensExchange = true) :
    ∃ m μ, (⟨c, cb, io, calls⟩ : Entry cfg L).dispatchedMethod = some m ∧
      (⟨c, cb, io, calls⟩ : Entry cfg L).lastReadMethod = some μ ∧ out.AnswersTo μ := by
  obtain ⟨n, p, p', b, r, tmp, stale, cw, k, rfl, hp, hk, rfl⟩ := h.of_opensExchange hrep ho
  obtain ⟨j, m, hj, htake, hall⟩ :=
    HttpParser.execute_firstMethod (p := { p with firstEom := none, lastEom := none }) hmode
      rfl hp hk
  obtain rfl : k = j := by omega
  have hlast := HttpParser.execute_lastMethod
    (p := { p with firstEom := none, lastEom := none }) hmode hp
  -- the request dispatched has ended in the read, so one has
  have hne : L.methods p.state (readAll io.clientReads cfg.sockIoBufSize).data ≠ [] := by
    intro hnil
    rw [show L.methods p.state _ = [] from hnil] at hall
    cases hall
  refine ⟨m, (L.methods p.state _).getLast hne, ?_, ?_, rfl, ?_⟩
  · cases hrep
    simpa [Entry.dispatchedMethod, Entry.requestData, hp, hk] using htake
  · cases hrep
    simpa [Entry.lastReadMethod, Entry.requestData] using List.getLast?_eq_some_getLast hne
  · show p'.lastMethod = _
    rw [hlast, List.getLastD_eq_getLast?]
    show (L.methods p.state _).getLast?.getD p.lastMethod = _
    rw [List.getLast?_eq_some_getLast hne]
    rfl

/-- In an exchange that does not end, `last_method` stays. -/
theorem Session.Step.answersTo {s : Session cfg L} {cb : Callback} {io : Io} {calls : List Call}
    {out : Outcome cfg L} {μ : UInt8} (h : Step s cb io calls out) (ha : s.phase.AnswersTo μ)
    (hopen : .closeServer ∉ calls) : out.AnswersTo μ := by
  cases h with
  | exchangeMalformedReply | exchangeMalformedDelete | exchangeEnd =>
    exact absurd hopen (by simp)
  | exchangeRead _ _ hp hend =>
    -- the read has not ended a message
    have hlast := Option.not_isSome_iff_eq_none.mp fun hsome => hend (.inr hsome)
    obtain ⟨-, hmethod⟩ := HttpParser.execute_quiet hp hlast
    exact ⟨(HttpParser.doParse_settings hp).trans ha.1, hmethod.trans ha.2⟩
  | exchangeSend | exchangeSwap | exchangeDeliver | monitorKeep | signalSlow => exact ha
  | monitorSwitch _ hfast _ h => exact absurd ha (by cases h <;> exact id)
  | signalSwitch h => exact absurd ha (by cases h <;> exact id)
  | idleDispatch _ _ _ _ h => exact ha.elim
  | exchangeFault | monitorDrop | monitorFault | signalFault => trivial
  | _ => exact ha.elim

/-- What the parser of such a connection looks like. -/
theorem Rep.answersTo {s : Session cfg L} {c : Connection cfg L} {μ : UInt8} {p : HttpParser L}
    (hrep : Rep s c) (ha : s.phase.AnswersTo μ) (hp : c.parser = some p) :
    p.settings = .response ∧ p.lastMethod = μ := by
  cases hrep with
  | exchange =>
    obtain rfl := Option.some.inj hp
    exact ha
  | _ => exact ha.elim

/-- Between its opening and the closing of its server an exchange answers to one method. -/
theorem Run.answersTo {pre post : List (Entry cfg L)} {e : Entry cfg L} {st : Status cfg L}
    (h : Run (pre ++ e :: post) st) (he : e.opensExchange = true)
    (hopen : .closeServer ∉ callsOf post) :
    ∃ m μ out, e.dispatchedMethod = some m ∧ e.lastReadMethod = some μ ∧
      Outcome.AnswersTo μ out ∧ out.Represents st := by
  rw [List.append_cons] at h
  obtain ⟨st₁, hpre, hpost⟩ := h.split
  obtain ⟨st₀, hpre, he'⟩ := hpre.split
  -- up to the event the parser is that of the phase, the event sets the method, and what follows
  -- keeps it
  obtain ⟨out₀, hrep₀, hmode⟩ := hpre.invariant (I := fun _ out => out.ParserMode) trivial
    (fun hI _ hstep => hstep.parserMode hI)
  obtain ⟨s₀, out₁, rfl, hrep, hstep, hout₁⟩ := he'.step hrep₀
  obtain ⟨m, μ, hm, hμ, hanswers⟩ := hstep.opens_answersTo hrep hmode he
  obtain ⟨out₂, hout₂, hI⟩ := hpost.invariant
    (I := fun tr out => .closeServer ∉ callsOf tr → out.AnswersTo μ) hout₁ (fun _ => hanswers)
    (by
      intro tr s c cb io calls out hI _ hstep hopen
      rw [callsOf_append, callsOf_singleton, List.mem_append, not_or] at hopen
      exact hstep.answersTo (hI hopen.1) hopen.2)
  exact ⟨m, μ, out₂, hm, hμ, hI hopen, hout₂⟩

/-- **The response is framed by the method of its request**, exactly when that is also the method
of the last request that ended in the same read. Let the event `e` dispatch a request, and let the
parser be in the state `q` while a later event reads from the server connected for it, before the
end of any response: `last_method` is the method of the request dispatched if and only if the last
request in the read has this method too. If so, a response has no body exactly when it answers a
`HEAD` request or has status 304. -/
theorem response_framing {pre mid post : List (Entry cfg L)} {e x : Entry cfg L}
    {st : Status cfg L} {q : HttpParser L} (h : Run (pre ++ e :: (mid ++ x :: post)) st)
    (he : e.opensExchange = true) (hmid : .closeServer ∉ callsOf mid) (hx : x.Reaches q) :
    ∃ m, e.dispatchedMethod = some m ∧
      (q.lastMethod = m ↔ e.lastReadMethod = some m) ∧
      (q.lastMethod = m →
        ∀ status, q.onHeadersComplete status = (status == 304 || m == httpHead)) := by
  rw [← List.cons_append, ← List.append_assoc] at h
  obtain ⟨st₁, hpre, hpost⟩ := h.split
  obtain rfl := hpost.head
  obtain ⟨m, μ, out, hm, hμ, hanswers, hrep⟩ := hpre.answersTo he hmid
  obtain ⟨s, rfl, hrep⟩ := hrep.live
  obtain ⟨-, p, bs, hparser, -, hexec, hlast⟩ := hx
  -- before the end of a message the parser has what it had at the beginning of the read
  have hq := (HttpParser.execute_quiet hexec hlast).2
  have hset := HttpParser.execute_settings hexec
  obtain ⟨hresponse, hmethod⟩ := hrep.answersTo hanswers hparser
  refine ⟨m, hm, ?_, fun heq status => ?_⟩
  · rw [hq, hμ, Option.some.injEq]
    show p.lastMethod = m ↔ μ = m
    rw [hmethod]
  · simp only [HttpParser.onHeadersComplete, hset, hresponse]
    show (status == 304 || q.lastMethod == httpHead) = _
    rw [heq]

/-- A `HEAD` request in a read of its own: its response has no body. -/
theorem response_framing_head :
    ∃ (pre mid post : List (Entry .shipped .framed)) (e x : Entry .shipped .framed)
      (st : Status .shipped .framed) (q : HttpParser .framed),
      Run (pre ++ e :: (mid ++ x :: post)) st ∧ e.opensExchange = true ∧ x.Reaches q ∧
        e.dispatchedMethod = some httpHead ∧ q.onHeadersComplete 200 = true := by
  obtain ⟨tr, st, hrun, htr⟩ := exists_run (L := .framed)
    [(.slowSwitch, {}),
      (.clientReadable, { clientReads := [.data (ascii "HEAD / HTTP/1.1\r\n\r\n")] }),
      (.serverReadable false, { serverReads := [.data (ascii "HTTP/1.1 200 OK\r\n\r\n")] })]
    (fun (tr : List (Entry .shipped _)) _ => cut 1 tr fun _ e post => e.opensExchange &&
      e.dispatchedMethod == some httpHead && e.lastReadMethod == some httpHead &&
        cut 0 post fun mid x _ => mid.isEmpty && x.cb == .serverReadable false &&
          (ascii "HTTP/1.1 200 OK\r\n\r").isPrefixOf x.responseData &&
          x.conn.parser.any fun p =>
            (HttpParser.execute { p with firstEom := none, lastEom := none } 0
              (ascii "HTTP/1.1 200 OK\r\n\r")).any (·.lastEom.isNone))
    (by decide +kernel)
  obtain ⟨pre, e, post, rfl, he⟩ := of_cut htr
  simp only [Bool.and_eq_true, beq_iff_eq] at he
  obtain ⟨⟨⟨hopens, hmethod⟩, hlast⟩, hcut⟩ := he
  obtain ⟨mid, x, post, rfl, hx⟩ := of_cut hcut
  simp only [Bool.and_eq_true, beq_iff_eq, List.isEmpty_iff, List.isPrefixOf_iff_prefix,
    Option.any_eq_true, Option.isNone_iff_eq_none] at hx
  obtain ⟨⟨⟨rfl, hcb⟩, hpre⟩, p, hp, q, hq, hnone⟩ := hx
  have hreaches : x.Reaches q := ⟨hcb, p, _, hp, hpre, hq, hnone⟩
  obtain ⟨m, hm, hiff, hframe⟩ := response_framing hrun hopens (by simp) hreaches
  obtain rfl := Option.some.inj (hm.symm.trans hmethod)
  exact ⟨pre, [], post, e, x, st, q, hrun, hopens, hreaches, hmethod,
    hframe (hiff.mpr hlast) 200⟩

/-- A `HEAD` and a `GET` request in one read: the response to the first is given a body, and the
server's connection stays open to wait for it. -/
theorem response_misframed :
    ∃ (pre mid post : List (Entry .shipped .framed)) (e x : Entry .shipped .framed)
      (st : Status .shipped .framed) (q : HttpParser .framed),
      Run (pre ++ e :: (mid ++ x :: post)) st ∧ e.opensExchange = true ∧ mid = [] ∧ x.Reaches q ∧
        e.dispatchedMethod = some httpHead ∧ q.lastMethod ≠ httpHead ∧
        q.onHeadersComplete 200 = false ∧ .closeServer ∉ x.calls := by
  obtain ⟨tr, st, hrun, htr⟩ := exists_run (L := .framed)
    [(.slowSwitch, {}),
      (.clientReadable,
        { clientReads := [.data (ascii "HEAD / HTTP/1.1\r\n\r\nGET /b HTTP/1.1\r\n\r\n")] }),
      (.serverReadable false, { serverReads := [.data (ascii "HTTP/1.1 200 OK\r\n\r\n")] })]
    (fun (tr : List (Entry .shipped _)) _ => cut 1 tr fun _ e post => e.opensExchange &&
      e.dispatchedMethod == some httpHead &&
        cut 0 post fun mid x _ => mid.isEmpty && x.cb == .serverReadable false &&
          !x.calls.contains .closeServer &&
          (ascii "HTTP/1.1 200 OK\r\n\r").isPrefixOf x.responseData &&
          x.conn.parser.any fun p =>
            (HttpParser.execute { p with firstEom := none, lastEom := none } 0
              (ascii "HTTP/1.1 200 OK\r\n\r")).any fun q =>
                q.lastEom.isNone && q.lastMethod != httpHead && !q.onHeadersComplete 200)
    (by decide +kernel)
  obtain ⟨pre, e, post, rfl, he⟩ := of_cut htr
  simp only [Bool.and_eq_true, beq_iff_eq] at he
  obtain ⟨⟨hopens, hmethod⟩, hcut⟩ := he
  obtain ⟨mid, x, post, rfl, hx⟩ := of_cut hcut
  simp only [Bool.and_eq_true, beq_iff_eq, bne_iff_ne, Bool.not_eq_true', List.isEmpty_iff,
    List.isPrefixOf_iff_prefix, List.contains_eq_mem, decide_eq_false_iff_not,
    Option.any_eq_true, Option.isNone_iff_eq_none] at hx
  obtain ⟨⟨⟨⟨rfl, hcb⟩, hclose⟩, hpre⟩, p, hp, q, hq, ⟨hnone, hne⟩, hframe⟩ := hx
  exact ⟨pre, [], post, e, x, st, q, hrun, hopens, rfl, ⟨hcb, p, _, hp, hpre, hq, hnone⟩,
    hmethod, hne, hframe, hclose⟩

/-! ### The end of the response -/

/-- What has been heard of the responses on a connection: the status of the one being read, and the
statuses of those that have ended. -/
structure Heard where
  current : ℕ := 0
  ended : List ℕ := []

/-- One event of the parser. -/
def Heard.note (h : Heard) : ParseEvent → Heard
  | .headersComplete status => { h with current := status }
  | .messageComplete _ => { h with ended := h.ended ++ [h.current] }

/-- What is heard while the parser reads the bytes from position `i` on. -/
def HttpParser.hear : HttpParser L → ℕ → Heard → Bytes → Heard
  | _, _, h, [] => h
  | p, i, h, b :: bs =>
    match L.step p.onHeadersComplete p.state b with
    | some (s, es) =>
      hear (es.foldl (handle (i + 1)) { p with state := s }) (i + 1) (es.foldl Heard.note h) bs
    | none => h

theorem Heard.foldl_note_quiet {es : List ParseEvent} (hes : es.any (·.isMessageComplete) = false)
    (h : Heard) : (es.foldl note h).ended = h.ended := by
  induction es generalizing h with
  | nil => rfl
  | cons e es ih =>
    rw [List.any_cons, Bool.or_eq_false_iff] at hes
    cases e with
    | headersComplete status => exact ih hes.2 { h with current := status }
    | messageComplete method => cases hes.1

/-- What has ended is not forgotten. -/
theorem Heard.foldl_note_ended_ne_nil {es : List ParseEvent} {h : Heard}
    (hor : es.any (·.isMessageComplete) = true ∨ h.ended ≠ []) :
    (es.foldl note h).ended ≠ [] := by
  induction es generalizing h with
  | nil => exact hor.resolve_left Bool.false_ne_true
  | cons e es ih =>
    cases e with
    | headersComplete status => exact ih (h := { h with current := status }) hor
    | messageComplete method =>
      exact ih (h := { h with ended := h.ended ++ [h.current] }) (.inr (by simp))

namespace HttpParser

theorem hear_cons {p : HttpParser L} {i : ℕ} {h : Heard} {b : UInt8} {bs : Bytes} {s : L.State}
    {es : List ParseEvent} (hstep : L.step p.onHeadersComplete p.state b = some (s, es)) :
    p.hear i h (b :: bs) = (es.foldl (handle (i + 1)) { p with state := s }).hear (i + 1)
      (es.foldl Heard.note h) bs := by
  rw [hear, hstep]

/-- As long as `last_end_of_msg` is not set, no end has been heard. -/
theorem hear_quiet {p p' : HttpParser L} {i : ℕ} {bs : Bytes} {h : Heard}
    (hexec : p.execute i bs = some p') (hlast : p'.lastEom = none) :
    (p.hear i h bs).ended = h.ended := by
  induction bs generalizing p i h with
  | nil => rfl
  | cons b bs ih =>
    obtain ⟨p₁, h₁, h₂⟩ := Option.bind_eq_some_iff.mp hexec
    obtain ⟨s, es, hstep, rfl⟩ := parseByte_eq_some h₁
    -- an end in this byte would have set `last_end_of_msg` for good
    rw [hear_cons hstep, ih h₂]
    cases hes : es.any (·.isMessageComplete) with
    | false => exact Heard.foldl_note_quiet hes h
    | true =>
      obtain ⟨hnone, -⟩ := execute_quiet h₂ hlast
      rw [(foldl_handle_eom hes _).1] at hnone
      cases hnone

/-- Where it is set by the chunk, an end has been heard. -/
theorem hear_ended {p p' : HttpParser L} {i : ℕ} {bs : Bytes} {h : Heard}
    (hexec : p.execute i bs = some p')
    (hor : p.lastEom = none ∧ p'.lastEom.isSome = true ∨ h.ended ≠ []) :
    (p.hear i h bs).ended ≠ [] := by
  induction bs generalizing p i h with
  | nil =>
    obtain rfl := Option.some.inj hexec
    rcases hor with ⟨hnone, hsome⟩ | hne
    · rw [hnone] at hsome
      cases hsome
    · exact hne
  | cons b bs ih =>
    obtain ⟨p₁, h₁, h₂⟩ := Option.bind_eq_some_iff.mp hexec
    obtain ⟨s, es, hstep, rfl⟩ := parseByte_eq_some h₁
    rw [hear_cons hstep]
    apply ih h₂
    -- it is this byte that ends a message, or a later one, or it had ended before
    rcases hor with ⟨hnone, hsome⟩ | hne
    · cases hes : es.any (·.isMessageComplete) with
      | false =>
        rw [foldl_handle_quiet hes]
        exact .inl ⟨hnone, hsome⟩
      | true => exact .inr (Heard.foldl_note_ended_ne_nil (.inl hes))
    · exact .inr (Heard.foldl_note_ended_ne_nil (.inr hne))

end HttpParser

/-- The event runs `Server::recv_to_buffer_slowly`. -/
def Entry.readsResponse (e : Entry cfg L) : Bool :=
  e.cb == .serverReadable false && !e.conn.fastMode && !e.conn.inTransition

/-- The server closes its connection. -/
def Entry.responseEof (e : Entry cfg L) : Bool :=
  (readAll e.io.serverReads cfg.sockIoBufSize).hasEof

/-- `do_parse` throws `ParserError`. -/
def Entry.responseMalformed (e : Entry cfg L) : Bool :=
  e.conn.parser.any fun p => (p.doParse e.responseData).isNone

/-- What has been heard after one more event. -/
def Heard.after (h : Heard) (e : Entry cfg L) : Heard :=
  if e.opensExchange then {}
  else if e.readsResponse then
    e.conn.parser.elim h fun p =>
      HttpParser.hear { p with firstEom := none, lastEom := none } 0 h e.responseData
  else h

/-- What has been heard, at the end of a trace, on the last server connection opened in slow
mode. -/
def heard (tr : List (Entry cfg L)) : Heard := tr.foldl Heard.after {}

/-- A read of a response gets to the end of a message, but only of interim ones. -/
def stopsAtInterim (pre : List (Entry cfg L)) (x : Entry cfg L) : Bool :=
  x.readsResponse && !x.responseEof && !x.responseMalformed &&
    !(heard (pre ++ [x])).ended.isEmpty && (heard (pre ++ [x])).ended.all (· < 200)

/-- What has been stored in `response_buf`, fetched or not. -/
def Connection.storedResponse (c : Connection cfg L) : Bytes :=
  c.client.responseBuf.elim [] (·.content)

/-- Slow mode waits for the final response. -/
structure AwaitsFinal (tr : List (Entry cfg L)) (st : Status cfg L) : Prop where
  /-- A read that closes the server's connection has got to the end of a final response, or to the
  end of the stream, or has not been parsed. -/
  closes : ∀ pre x post, tr = pre ++ x :: post → x.readsResponse = true → .closeServer ∈ x.calls →
    x.responseEof = true ∨ x.responseMalformed = true ∨
      ∃ status ∈ (heard (pre ++ [x])).ended, 200 ≤ status
  /-- Until then the server is there, and the client is not read. -/
  paused : ∀ pre e post c, tr = pre ++ e :: post → e.opensExchange = true →
    .closeServer ∉ callsOf post → st = .live c → c.server.isSome = true ∧ c.client.readEvt = false
  /-- What is read of the response is stored, when the disk loses nothing. -/
  stores : (∀ e ∈ tr, e.io.DiskOk) → ∀ pre e post c, tr = pre ++ e :: post →
    e.opensExchange = true → .connect ∉ callsOf post → st = .live c →
      c.storedResponse = e.conn.storedResponse ++ (callsOf post).flatMap (·.serverIn)

theorem heard_concat (tr : List (Entry cfg L)) (e : Entry cfg L) :
    heard (tr ++ [e]) = (heard tr).after e := List.foldl_concat ..

/-- Only the opening of an exchange and the reads in it change what has been heard. -/
theorem Heard.after_other {h : Heard} {e : Entry cfg L} (hconnect : .connect ∉ e.calls)
    (hcb : e.cb ≠ .serverReadable false) : h.after e = h := by
  have hopens : e.opensExchange = false := by simp [Entry.opensExchange, hconnect]
  have hreads : e.readsResponse = false := by simp [Entry.readsResponse, hcb]
  rw [Heard.after, hopens, hreads]
  rfl

/-- An exchange goes on as long as no end of a message has been heard. -/
def Phase.Unheard (h : Heard) : Phase cfg L → Prop
  | .exchange .. => h.ended = []
  | _ => True

/-- The same of an outcome. -/
def Outcome.Unheard (h : Heard) : Outcome cfg L → Prop
  | .live s => s.phase.Unheard h
  | _ => True

/-- What a read of an exchange hears. -/
theorem Rep.heard_exchange {n : Counts} {p : HttpParser L} {b : SlowBufs}
    {stale : Option (Circularbuf cfg.sockIoBufSize)} {cw sw : Bool} {c : Connection cfg L}
    {io : Io} {calls : List Call} {o : ReadOutcome} (hrep : Rep ⟨n, .exchange p b stale cw sw⟩ c)
    (ho : readAll io.serverReads cfg.sockIoBufSize = o) (hconnect : .connect ∉ calls) (h : Heard) :
    h.after ⟨c, .serverReadable false, io, calls⟩
      = HttpParser.hear { p with firstEom := none, lastEom := none } 0 h o.data := by
  subst ho
  cases hrep with
  | exchange =>
    have hopens : Entry.opensExchange (L := L) ⟨⟨slowClient n b false cw stale,
        some { readEvt := true, writeEvt := sw }, some p, false, false⟩, .serverReadable false, io,
        calls⟩ = false := by
      simp [Entry.opensExchange, hconnect]
    rw [Heard.after, hopens]
    rfl

theorem Session.Step.unheard {s : Session cfg L} {c : Connection cfg L} {cb : Callback} {io : Io}
    {calls : List Call} {out : Outcome cfg L} {h : Heard} (hu : s.phase.Unheard h) (hrep : Rep s c)
    (hstep : Step s cb io calls out) : out.Unheard (h.after ⟨c, cb, io, calls⟩) := by
  cases hstep with
  | freshConnect _ h | fastClientReadable h => cases h <;> trivial
  | fastServerReadable h => cases h <;> trivial
  | idleDispatch _ _ _ _ h =>
    cases h with
    | connect =>
      -- a new exchange begins
      cases hrep
      rfl
    | storeFault | tmpFault | refused => trivial
  -- a read that goes on has not heard an end
  | exchangeRead ho _ hp hend =>
    have hlast := Option.not_isSome_iff_eq_none.mp fun hsome => hend (.inr hsome)
    rw [hrep.heard_exchange ho (by simp)]
    exact (HttpParser.hear_quiet hp hlast).trans hu
  | exchangeSend | exchangeSwap =>
    rw [Heard.after_other (by simp) (by simp)]
    exact hu
  | exchangeDeliver h =>
    rw [Heard.after_other (by cases h <;> simp) (by simp)]
    exact hu
  | monitorKeep | signalSlow =>
    rw [Heard.after_other (by simp) (by simp)]
    exact hu
  | monitorSwitch _ _ _ h | signalSwitch h => cases h <;> trivial
  | _ => trivial

/-- A read of a response that closes the server's connection. -/
theorem Session.Step.closes {s : Session cfg L} {c : Connection cfg L} {cb : Callback} {io : Io}
    {calls : List Call} {out : Outcome cfg L} {h : Heard} (hrep : Rep s c)
    (hstep : Step s cb io calls out)
    (hreads : (⟨c, cb, io, calls⟩ : Entry cfg L).readsResponse = true)
    (hclose : .closeServer ∈ calls) :
    (⟨c, cb, io, calls⟩ : Entry cfg L).responseEof = true ∨
      (⟨c, cb, io, calls⟩ : Entry cfg L).responseMalformed = true ∨
      (h.after ⟨c, cb, io, calls⟩).ended ≠ [] := by
  obtain ⟨⟨hcb, hslow⟩, hsettled⟩ := by
    simpa only [Entry.readsResponse, Bool.and_eq_true, beq_iff_eq] using hreads
  subst hcb
  cases hstep with
  | fastServerReadable =>
    cases hrep
    cases hslow
  | transitionEof =>
    cases hrep
    cases hsettled
  | exchangeMalformedReply ho _ hp | exchangeMalformedDelete ho _ hp =>
    -- the parser refuses the response
    right; left
    cases hrep
    simp [Entry.responseMalformed, Entry.responseData, ho, hp]
  | exchangeEnd ho _ hp hend =>
    -- the end of the stream, or the end of a message
    rcases hend with heof | hsome
    · left
      rw [Entry.responseEof, ho]
      exact heof
    · right; right
      rw [hrep.heard_exchange ho (by simp)]
      exact HttpParser.hear_ended hp (.inl ⟨rfl, hsome⟩)
  | exchangeFault | exchangeRead | transitionFault | transitionRead =>
    exact absurd hclose (by simp)

/-- A read that gets to the end of a message closes the server's connection, when the disk loses
nothing. -/
theorem Session.Step.closes_of_ended {s : Session cfg L} {c : Connection cfg L} {cb : Callback}
    {io : Io} {calls : List Call} {out : Outcome cfg L} {h : Heard} (hu : s.phase.Unheard h)
    (hrep : Rep s c) (hstep : Step s cb io calls out) (hdisk : io.DiskOk)
    (hreads : (⟨c, cb, io, calls⟩ : Entry cfg L).readsResponse = true)
    (hended : (h.after ⟨c, cb, io, calls⟩).ended ≠ []) : .closeServer ∈ calls := by
  obtain ⟨⟨hcb, hslow⟩, hsettled⟩ := by
    simpa only [Entry.readsResponse, Bool.and_eq_true, beq_iff_eq] using hreads
  subst hcb
  cases hstep with
  | fastServerReadable =>
    cases hrep
    cases hslow
  | transitionEof | transitionFault | transitionRead =>
    cases hrep
    cases hsettled
  -- the disk has not failed
  | exchangeFault _ hstore =>
    rw [hdisk] at hstore
    cases hstore
  | exchangeMalformedReply | exchangeMalformedDelete | exchangeEnd => simp
  | exchangeRead ho _ hp hend =>
    have hlast := Option.not_isSome_iff_eq_none.mp fun hsome => hend (.inr hsome)
    rw [hrep.heard_exchange ho (by simp)] at hended
    exact absurd ((HttpParser.hear_quiet hp hlast).trans hu) hended

/-! ### What is stored of the response -/

/-- Slow mode with a server or after it, with `bs` in `response_buf`. -/
def Phase.Stores (bs : Bytes) : Phase cfg L → Prop
  | .idle _ b _ _ | .exchange _ b _ _ _ | .slowReply b _ => b.sent ++ b.unread = bs
  | _ => False

/-- The same of an outcome. -/
def Outcome.Stores (bs : Bytes) : Outcome cfg L → Prop
  | .live s => s.phase.Stores bs
  | _ => True

theorem Rep.stores {s : Session cfg L} {c : Connection cfg L} {bs : Bytes} (hrep : Rep s c)
    (hs : s.phase.Stores bs) : c.storedResponse = bs := by
  cases hrep with
  | idle | exchange | slowReply => exact hs
  | fresh | fast | reply | transition => exact hs.elim

/-- Delivering moves the reading cursor. -/
theorem Session.Deliver.stores {b b' : SlowBufs} {io : Io} {calls : List Call} {cw : Bool}
    (h : Deliver cfg b io calls b' cw) :
    b'.sent ++ b'.unread = b.sent ++ b.unread ∧ calls.flatMap (·.serverIn) = [] := by
  cases h with
  | some _ hw =>
    have hpre : (writeAll io.clientWrites (b.unread.take cfg.sockIoBufSize)).data <+: b.unread :=
      (writeAll_isPrefix _ _).trans (List.take_prefix _ _)
    rw [hw] at hpre
    refine ⟨?_, rfl⟩
    calc
      _ = b.sent ++ (_ ++ b.unread.drop _) := List.append_assoc ..
      _ = b.sent ++ b.unread := by rw [List.prefix_iff_eq_append.mp hpre]
  | none => exact ⟨rfl, rfl⟩

/-- A step that opens no connection stores what it reads. -/
theorem Session.Step.stores {s : Session cfg L} {cb : Callback} {io : Io} {calls : List Call}
    {out : Outcome cfg L} {bs : Bytes} (h : Step s cb io calls out) (hdisk : io.DiskOk)
    (hs : s.phase.Stores bs) (hconnect : .connect ∉ calls) :
    out.Stores (bs ++ calls.flatMap (·.serverIn)) := by
  have keep : ∀ {cs : List Call}, cs.flatMap (·.serverIn) = [] →
      bs ++ cs.flatMap (·.serverIn) = bs := fun hnil => by rw [hnil, List.append_nil]
  cases h with
  | idleMalformedReply | idleRead | exchangeSend | exchangeSwap | monitorKeep | signalSlow =>
    rw [keep rfl]
    exact hs
  | idleDispatch _ _ _ _ h =>
    cases h with
    | connect => exact absurd hconnect (by simp)
    | storeFault | tmpFault | refused => trivial
  | idleDeliver h | exchangeDeliver h | slowReplyDeliver h =>
    obtain ⟨hsame, hnone⟩ := h.stores
    rw [keep hnone]
    exact hsame.trans hs
  -- `Server::recv_to_buffer_slowly` stores before it looks at what the parser says
  | exchangeMalformedReply _ hstore | exchangeEnd _ hstore | exchangeRead _ hstore =>
    rw [hdisk] at hstore
    obtain rfl := Option.some.inj hstore
    subst hs
    show _ ++ (_ ++ List.take _ _) = _
    simp
  | monitorSwitch _ hfast _ h => exact absurd hs (by cases h <;> exact id)
  | signalSwitch h => exact absurd hs (by cases h <;> exact id)
  | idleEof | idleMalformedDelete | idleFault | exchangeFault | exchangeMalformedDelete
    | slowReplyDone | monitorDrop | monitorFault | signalFault => trivial
  | _ => exact hs.elim

/-- Opening an exchange stores nothing. -/
theorem Session.Step.opens_stores {s : Session cfg L} {c : Connection cfg L} {cb : Callback}
    {io : Io} {calls : List Call} {out : Outcome cfg L} (h : Step s cb io calls out)
    (hrep : Rep s c) (ho : (⟨c, cb, io, calls⟩ : Entry cfg L).opensExchange = true) :
    out.Stores c.storedResponse := by
  obtain ⟨n, p, p', b, r, tmp, stale, cw, k, rfl, -, -, rfl⟩ := h.of_opensExchange hrep ho
  have hstores : (Phase.idle p b stale cw).Stores (b.sent ++ b.unread) := rfl
  exact (hrep.stores hstores).symm

/-- Until the server's connection is closed the client is not read. -/
theorem Run.paused {pre post : List (Entry cfg L)} {e : Entry cfg L} {c : Connection cfg L}
    (h : Run (pre ++ e :: post) (.live c)) (he : e.opensExchange = true)
    (hopen : .closeServer ∉ callsOf post) : c.server.isSome = true ∧ c.client.readEvt = false := by
  obtain ⟨_, _, out, _, _, hanswers, hrep⟩ := h.answersTo he hopen
  obtain ⟨s, rfl, hrep⟩ := hrep.live
  cases hrep with
  | exchange => exact ⟨rfl, rfl⟩
  | _ => exact hanswers.elim

/-- Until the next exchange is opened `response_buf` receives what is read from the server. -/
theorem Run.stores {pre post : List (Entry cfg L)} {e : Entry cfg L} {c : Connection cfg L}
    (h : Run (pre ++ e :: post) (.live c)) (he : e.opensExchange = true)
    (hdisk : ∀ x ∈ pre ++ e :: post, x.io.DiskOk) (hconnect : .connect ∉ callsOf post) :
    c.storedResponse = e.conn.storedResponse ++ (callsOf post).flatMap (·.serverIn) := by
  rw [List.append_cons] at h hdisk
  obtain ⟨st₁, hpre, hpost⟩ := h.split
  obtain ⟨st₀, hpre, he'⟩ := hpre.split
  obtain ⟨out₀, hrep₀, -⟩ := hpre.invariant (I := fun _ _ => True) trivial fun _ _ _ => trivial
  obtain ⟨s₀, out₁, rfl, hrep, hstep, hout₁⟩ := he'.step hrep₀
  obtain ⟨out, hout, hI⟩ := hpost.invariant_of (P := fun x => x.io.DiskOk)
    (I := fun tr out => .connect ∉ callsOf tr →
      out.Stores (e.conn.storedResponse ++ (callsOf tr).flatMap (·.serverIn))) hout₁
    (fun _ => (List.append_nil e.conn.storedResponse).symm ▸ hstep.opens_stores hrep he)
    (by
      intro tr s c cb io calls out hI _ hstep hd hno
      rw [callsOf_append, callsOf_singleton, List.mem_append, not_or] at hno
      rw [callsOf_append, callsOf_singleton, List.flatMap_append, ← List.append_assoc]
      exact hstep.stores hd (hI hno.1) hno.2)
    fun x hx => hdisk x (List.mem_append_right _ hx)
  obtain ⟨s, rfl, hrep⟩ := hout.live
  exact hrep.stores (hI hconnect)

/-- **Slow mode waits for the final response**, in every run in which no read of a response gets to
the end of a message but only of interim ones; and, when the disk loses nothing, in no other run. -/
theorem final_response_awaited {tr : List (Entry cfg L)} {st : Status cfg L} (h : Run tr st) :
    ((∀ pre x post, tr = pre ++ x :: post → stopsAtInterim pre x = false) → AwaitsFinal tr st) ∧
      ((∀ e ∈ tr, e.io.DiskOk) → AwaitsFinal tr st →
        ∀ pre x post, tr = pre ++ x :: post → stopsAtInterim pre x = false) := by
  -- at any event nothing has been heard of the exchange that is open
  have at_event : ∀ {pre x post}, tr = pre ++ x :: post → ∃ s out,
      s.phase.Unheard (heard pre) ∧ Rep s x.conn ∧ Step s x.cb x.io x.calls out := by
    rintro pre x post rfl
    refine h.step_of (I := fun tr out => out.Unheard (heard tr)) (P := fun _ => True) trivial
      (fun hu hrep hstep _ => ?_) fun _ _ => trivial
    rw [heard_concat]
    exact hstep.unheard hu hrep
  refine ⟨fun hok => ⟨?_, ?_, ?_⟩, ?_⟩
  · intro pre x post htr hreads hclose
    obtain ⟨s, out, hu, hrep, hstep⟩ := at_event htr
    rw [heard_concat]
    rcases hstep.closes (h := heard pre) hrep hreads hclose with heof | hmalformed | hended
    · exact .inl heof
    · exact .inr (.inl hmalformed)
    · by_contra hnot
      push Not at hnot
      obtain ⟨heof, hparsed, hinterim⟩ := hnot
      -- such a read has stopped at an interim response
      have hstop := hok pre x post htr
      simp only [stopsAtInterim, heard_concat, hreads, Bool.true_and, Bool.and_eq_false_iff,
        Bool.not_eq_false', List.isEmpty_iff, List.all_eq_false, decide_eq_true_eq] at hstop
      rcases hstop with ((h | h) | h) | ⟨status, hmem, hfinal⟩
      · exact heof h
      · exact hparsed h
      · exact hended h
      · exact hfinal (hinterim status hmem)
  · rintro pre e post c rfl he hopen rfl
    exact h.paused he hopen
  · rintro hdisk pre e post c rfl he hconnect rfl
    exact h.stores he hdisk hconnect
  -- the other way round: a read that stops at an interim response closes too early
  · intro hdisk hawaits pre x post htr
    obtain ⟨s, out, hu, hrep, hstep⟩ := at_event htr
    have hx : x ∈ tr := htr ▸ List.mem_append_right _ List.mem_cons_self
    cases hstop : stopsAtInterim pre x with
    | false => rfl
    | true =>
      obtain ⟨⟨⟨⟨hreads, heof⟩, hparsed⟩, hended⟩, hinterim⟩ := by
        simpa only [stopsAtInterim, Bool.and_eq_true, Bool.not_eq_true'] using hstop
      have hne : (heard (pre ++ [x])).ended ≠ [] := List.isEmpty_eq_false_iff.mp hended
      rw [heard_concat] at hne
      have hclose := hstep.closes_of_ended hu hrep (hdisk x hx) hreads hne
      rcases hawaits.closes pre x post htr hreads hclose with h | h | ⟨status, hmem, hfinal⟩
      · rw [heof] at h
        cases h
      · rw [hparsed] at h
        cases h
      · have hlt := List.all_eq_true.mp hinterim status hmem
        exact absurd hfinal (by simpa using hlt)

/-- An interim response and the final one in one read. -/
theorem final_response_awaited_continue :
    ∃ (tr : List (Entry .shipped .framed)) (st : Status .shipped .framed),
      Run tr st ∧ (heard tr).ended = [100, 204] ∧ AwaitsFinal tr st := by
  obtain ⟨tr, st, hrun, htr⟩ := exists_run (L := .framed)
    [(.slowSwitch, {}),
      (.clientReadable, { clientReads := [.data (ascii "GET / HTTP/1.1\r\n\r\n")] }),
      (.serverReadable false,
        { serverReads := [.data (ascii "HTTP/1.1 100 Continue\r\n\r\nHTTP/1.1 204 OK\r\n\r\n")] })]
    (fun (tr : List (Entry .shipped _)) _ => (heard tr).ended == [100, 204] &&
      (List.range tr.length).all fun n => cut n tr fun pre x _ => !stopsAtInterim pre x)
    (by decide +kernel)
  simp only [Bool.and_eq_true, beq_iff_eq, List.all_eq_true] at htr
  refine ⟨tr, st, hrun, htr.1, (final_response_awaited hrun).1 ?_⟩
  rintro pre x post rfl
  have hcut := htr.2 pre.length (by simp)
  rw [cut_append] at hcut
  simpa using hcut

/-- An interim response in a read of its own: the server's connection is closed and the client is
read again, before anything of the final response has come. -/
theorem final_response_lost :
    ∃ (tr : List (Entry .shipped .framed)) (c : Connection .shipped .framed),
      Run tr (.live c) ∧ (∀ e ∈ tr, e.io.DiskOk) ∧ (heard tr).ended = [100] ∧ c.server = none ∧
        c.client.readEvt = true ∧ ¬ AwaitsFinal tr (.live c) := by
  obtain ⟨tr, st, hrun, hdisk, htr⟩ := exists_run_diskOk (L := .framed)
    [(.slowSwitch, {}),
      (.clientReadable, { clientReads := [.data (ascii "GET / HTTP/1.1\r\n\r\n")] }),
      (.serverReadable false, { serverReads := [.data (ascii "HTTP/1.1 100 Continue\r\n\r\n")] })]
    (fun (tr : List (Entry .shipped _)) st => (heard tr).ended == [100] &&
      (st.isLiveWith fun c => c.server.isNone && c.client.readEvt) &&
      cut 2 tr fun pre x post => x.readsResponse && x.calls.contains .closeServer &&
        !x.responseEof && !x.responseMalformed && (heard (pre ++ [x])).ended == [100] &&
        post.isEmpty)
    (by decide +kernel) (by simp [Io.DiskOk])
  simp only [Bool.and_eq_true, beq_iff_eq] at htr
  obtain ⟨⟨hended, hst⟩, hcut⟩ := htr
  obtain ⟨c, rfl, hc⟩ := Status.isLiveWith_iff.mp hst
  obtain ⟨hnone, hread⟩ := Bool.and_eq_true_iff.mp hc
  refine ⟨tr, c, hrun, hdisk, hended, Option.isNone_iff_eq_none.mp hnone, hread, fun hawaits => ?_⟩
  obtain ⟨pre, x, post, htr, hx⟩ := of_cut hcut
  simp only [Bool.and_eq_true, beq_iff_eq, Bool.not_eq_true', List.contains_iff_mem] at hx
  obtain ⟨⟨⟨⟨⟨hreads, hclose⟩, heof⟩, hparsed⟩, hheard⟩, -⟩ := hx
  rcases hawaits.closes pre x post htr hreads hclose with h | h | ⟨status, hmem, hfinal⟩
  · rw [heof] at h
    cases h
  · rw [hparsed] at h
    cases h
  · rw [hheard, List.mem_singleton] at hmem
    omega

end LSProxy
