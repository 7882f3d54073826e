import LSProxy.Lib.Scanner
import LSProxy.Model.SysIo

/-!
# The HTTP parser

`class HttpParser` of `ls_proxy.h` and the two callbacks of `ls_proxy.cpp`. The automaton behind
it, llhttp, is a library outside the repository and stays a parameter (`Llhttp`): it reads one
byte at a time, so that its behaviour cannot depend on how the bytes are cut into calls, and it
reports the events the proxy listens to. A `messageComplete` reported on a byte stands for
`on_message_complete` called with a pointer one past that byte.

With the request settings the marks of the automaton form a `Scanner` (`Llhttp.requests`).
`doParse_last` and `doParse_first` say what the two end-of-message pointers mean in its terms: the
last one starts the message in progress, the first one ends the first whole message.
-/

namespace LSProxy

/-- What llhttp tells the proxy while it reads a byte. -/
inductive ParseEvent
  | headersComplete (status : ℕ)
  | messageComplete (method : UInt8)
  deriving DecidableEq, Repr

/-- Does the event end a message? -/
def ParseEvent.isMessageComplete : ParseEvent → Bool
  | .headersComplete _ => false
  | .messageComplete _ => true

/-- llhttp, initialised with `HTTP_BOTH`. A step takes the answer of `on_headers_complete` to a
status code (`true` for a message without a body); `none` is an error. -/
structure Llhttp where
  State : Type
  init : State
  step : (ℕ → Bool) → State → UInt8 → Option (State × List ParseEvent)

/-- llhttp under the request settings, which have no `on_headers_complete`. -/
def Llhttp.requests (L : Llhttp) : Scanner L.State UInt8 where
  step s b := (L.step (fun _ => false) s b).map fun r => (r.1, r.2.any (·.isMessageComplete))

/-- Which of `request_settings` and `response_settings` is installed. -/
inductive Settings
  | request
  | response
  deriving DecidableEq, Repr

/-- `HTTP_HEAD`. -/
def httpHead : UInt8 := 2

/-- `class HttpParser`. The two end-of-message pointers are offsets into the data of the last
`do_parse`. -/
structure HttpParser (L : Llhttp) where
  state : L.State
  settings : Settings := .request
  lastMethod : UInt8 := 0
  firstEom : Option ℕ := none
  lastEom : Option ℕ := none

namespace HttpParser

variable {L : Llhttp}

/-- `HttpParser::HttpParser`. -/
def new (L : Llhttp) : HttpParser L := { state := L.init }

/-- `reset_parser`. -/
def resetParser (p : HttpParser L) (settings : Settings) : HttpParser L :=
  { p with state := L.init, settings := settings }

/-- `switch_to_request_mode`. -/
def switchToRequestMode (p : HttpParser L) : HttpParser L := p.resetParser .request

/-- `switch_to_response_mode`. -/
def switchToResponseMode (p : HttpParser L) : HttpParser L := p.resetParser .response

/-- `headers_complete_cb`: messages that must not have a body. -/
def headersCompleteCb (p : HttpParser L) (status : ℕ) : Bool :=
  status == 304 || p.lastMethod == httpHead

/-- What the installed settings answer to the end of the headers. -/
def onHeadersComplete (p : HttpParser L) (status : ℕ) : Bool :=
  match p.settings with
  | .request => false
  | .response => p.headersCompleteCb status

/-- `message_complete_cb`, with `pos` one past the end of the message. -/
def messageCompleteCb (p : HttpParser L) (pos : ℕ) (method : UInt8) : HttpParser L :=
  { p with
    firstEom := if p.firstEom.isNone then some pos else p.firstEom
    lastEom := some pos
    lastMethod := method }

/-- The effect of an event on the parser object. -/
def handle (pos : ℕ) (p : HttpParser L) : ParseEvent → HttpParser L
  | .headersComplete _ => p
  | .messageComplete method => p.messageCompleteCb pos method

/-- Read one byte, the one before position `pos`. -/
def parseByte (p : HttpParser L) (pos : ℕ) (b : UInt8) : Option (HttpParser L) :=
  (L.step p.onHeadersComplete p.state b).map fun r =>
    r.2.foldl (handle pos) { p with state := r.1 }

/-- `llhttp_execute` on the bytes from position `i` on. -/
def execute : HttpParser L → ℕ → Bytes → Option (HttpParser L)
  | p, _, [] => some p
  | p, i, b :: bs => (p.parseByte (i + 1) b).bind fun p' => execute p' (i + 1) bs

/-- `HttpParser::do_parse`; `none` is `ParserError`. -/
def doParse (p : HttpParser L) (data : Bytes) : Option (HttpParser L) :=
  { p with firstEom := none, lastEom := none }.execute 0 data

/-! ### Settings are kept -/

theorem foldl_handle_settings (pos : ℕ) (es : List ParseEvent) (p : HttpParser L) :
    (es.foldl (handle pos) p).settings = p.settings := by
  induction es generalizing p with
  | nil => rfl
  | cons e es ih =>
    rw [List.foldl_cons, ih]
    cases e <;> rfl

theorem foldl_handle_state (pos : ℕ) (es : List ParseEvent) (p : HttpParser L) :
    (es.foldl (handle pos) p).state = p.state := by
  induction es generalizing p with
  | nil => rfl
  | cons e es ih =>
    rw [List.foldl_cons, ih]
    cases e <;> rfl

theorem parseByte_settings {p p' : HttpParser L} {pos : ℕ} {b : UInt8}
    (h : p.parseByte pos b = some p') : p'.settings = p.settings := by
  obtain ⟨r, -, rfl⟩ := Option.map_eq_some_iff.mp h
  exact foldl_handle_settings _ _ _

theorem execute_settings {p p' : HttpParser L} {i : ℕ} {bs : Bytes}
    (h : p.execute i bs = some p') : p'.settings = p.settings := by
  induction bs generalizing p i with
  | nil => rw [← Option.some.inj h]
  | cons b bs ih =>
    obtain ⟨p₁, h₁, h₂⟩ := Option.bind_eq_some_iff.mp h
    rw [ih h₂, parseByte_settings h₁]

/-- Parsing leaves the settings alone. -/
theorem doParse_settings {p p' : HttpParser L} {data : Bytes} (h : p.doParse data = some p') :
    p'.settings = p.settings :=
  execute_settings (p := { p with firstEom := none, lastEom := none }) h

/-! ### The pointers lie in the data -/

theorem foldl_handle_firstEom (pos : ℕ) (es : List ParseEvent) (p : HttpParser L) :
    (es.foldl (handle pos) p).firstEom = p.firstEom ∨
      (es.foldl (handle pos) p).firstEom = some pos := by
  induction es generalizing p with
  | nil => exact Or.inl rfl
  | cons e es ih =>
    rw [List.foldl_cons]
    cases e with
    | headersComplete status => exact ih p
    | messageComplete method =>
      -- the callback sets the pointer only if it is not set
      have hcb : (p.messageCompleteCb pos method).firstEom = p.firstEom ∨
          (p.messageCompleteCb pos method).firstEom = some pos := by
        simp only [messageCompleteCb]
        split
        · exact Or.inr rfl
        · exact Or.inl rfl
      rcases ih (p.messageCompleteCb pos method) with h | h
      · rw [handle, h]
        exact hcb
      · exact Or.inr h

theorem execute_firstEom_le {p p' : HttpParser L} {i k : ℕ} {bs : Bytes}
    (h : p.execute i bs = some p') (hp : ∀ j, p.firstEom = some j → j ≤ i)
    (hk : p'.firstEom = some k) : k ≤ i + bs.length := by
  induction bs generalizing p i with
  | nil =>
    rw [← Option.some.inj h] at hk
    exact hp k hk
  | cons b bs ih =>
    obtain ⟨p₁, h₁, h₂⟩ := Option.bind_eq_some_iff.mp h
    obtain ⟨r, -, rfl⟩ := Option.map_eq_some_iff.mp h₁
    have hle := ih h₂ (by
      intro j hj
      rcases foldl_handle_firstEom (i + 1) r.2 { p with state := r.1 } with he | he
      · exact Nat.le_succ_of_le (hp j (he.symm.trans hj))
      · rw [he] at hj
        exact (Option.some.inj hj).ge)
    rw [List.length_cons]
    omega

theorem doParse_firstEom_le {p p' : HttpParser L} {data : Bytes} {k : ℕ}
    (h : p.doParse data = some p') (hk : p'.firstEom = some k) : k ≤ data.length := by
  have := execute_firstEom_le h (by simp) hk
  omega

/-! ### One byte of a request -/

/-- Events none of which ends a message change nothing. -/
theorem foldl_handle_quiet {pos : ℕ} {es : List ParseEvent}
    (h : es.any (·.isMessageComplete) = false) (p : HttpParser L) :
    es.foldl (handle pos) p = p := by
  induction es with
  | nil => rfl
  | cons e es ih =>
    simp only [List.any_cons, Bool.or_eq_false_iff] at h
    cases e with
    | headersComplete status => exact ih h.2
    | messageComplete method => exact absurd h.1 (by simp [ParseEvent.isMessageComplete])

/-- Events one of which ends a message set both pointers. -/
theorem foldl_handle_eom {pos : ℕ} {es : List ParseEvent}
    (h : es.any (·.isMessageComplete) = true) (p : HttpParser L) :
    (es.foldl (handle pos) p).lastEom = some pos ∧
      (es.foldl (handle pos) p).firstEom = some (p.firstEom.getD pos) := by
  induction es generalizing p with
  | nil => simp at h
  | cons e es ih =>
    cases e with
    | headersComplete status =>
      simp only [List.any_cons, ParseEvent.isMessageComplete, Bool.false_or] at h
      exact ih h p
    | messageComplete method =>
      have hfirst : (p.messageCompleteCb pos method).firstEom = some (p.firstEom.getD pos) := by
        simp only [messageCompleteCb]
        cases p.firstEom <;> rfl
      change (es.foldl (handle pos) (p.messageCompleteCb pos method)).lastEom = _ ∧
        (es.foldl (handle pos) (p.messageCompleteCb pos method)).firstEom = _
      -- later ends in the same byte have the same position
      cases hes : es.any (·.isMessageComplete) with
      | false =>
        rw [foldl_handle_quiet hes]
        exact ⟨rfl, hfirst⟩
      | true =>
        obtain ⟨hl, hf⟩ := ih hes (p.messageCompleteCb pos method)
        exact ⟨hl, by rw [hf, hfirst]; rfl⟩

/-- One byte of a request, in terms of the scanner. -/
theorem parseByte_request {p p' : HttpParser L} {pos : ℕ} {b : UInt8}
    (hp : p.settings = .request) (h : p.parseByte pos b = some p') :
    (L.requests.step p.state b = some (p'.state, false) ∧ p'.lastEom = p.lastEom ∧
        p'.firstEom = p.firstEom) ∨
      (L.requests.step p.state b = some (p'.state, true) ∧ p'.lastEom = some pos ∧
        p'.firstEom = some (p.firstEom.getD pos)) := by
  -- the request settings have no `on_headers_complete`
  have hanswer : p.onHeadersComplete = fun _ => false := by
    funext status
    simp [onHeadersComplete, hp]
  obtain ⟨⟨s, es⟩, hstep, rfl⟩ := Option.map_eq_some_iff.mp h
  rw [hanswer] at hstep
  have hscan : L.requests.step p.state b = some (s, es.any (·.isMessageComplete)) := by
    simp [Llhttp.requests, hstep]
  rw [foldl_handle_state, hscan]
  cases hes : es.any (·.isMessageComplete) with
  | false =>
    left
    rw [foldl_handle_quiet hes]
    exact ⟨rfl, rfl, rfl⟩
  | true =>
    right
    exact ⟨rfl, foldl_handle_eom hes _⟩

/-! ### A chunk of requests -/

theorem execute_last {p p' : HttpParser L} {i : ℕ} {bs : Bytes} (hp : p.settings = .request)
    (h : p.execute i bs = some p') (pr : Scanner.Progress L.State UInt8) (hpr : pr.now = p.state) :
    (p'.lastEom = p.lastEom ∧ L.requests.quiet p.state bs = some p'.state) ∨
      ∃ k start, k ≤ bs.length ∧ p'.lastEom = some (i + k) ∧
        L.requests.track pr bs = some ⟨start, bs.drop k, p'.state⟩ := by
  induction bs generalizing p i pr with
  | nil =>
    left
    rw [← Option.some.inj h]
    exact ⟨rfl, rfl⟩
  | cons b bs ih =>
    obtain ⟨p₁, h₁, h₂⟩ := Option.bind_eq_some_iff.mp h
    have hp₁ : p₁.settings = .request := (parseByte_settings h₁).trans hp
    rcases parseByte_request hp h₁ with ⟨hstep, hlast, -⟩ | ⟨hstep, hlast, -⟩
    · -- the byte ends no message
      have htrack : L.requests.trackStep pr b = some ⟨pr.start, pr.seen ++ [b], p₁.state⟩ := by
        simp [Scanner.trackStep, hpr, hstep]
      rcases ih hp₁ h₂ ⟨pr.start, pr.seen ++ [b], p₁.state⟩ rfl with
        ⟨hl, hq⟩ | ⟨k, start, hk, hl, ht⟩
      · left
        exact ⟨hl.trans hlast, by simp [Scanner.quiet, hstep, hq]⟩
      · right
        refine ⟨k + 1, start, by simpa using hk, by rw [hl]; congr 1; omega, ?_⟩
        simp only [Scanner.track, htrack, Option.bind_some, List.drop_succ_cons]
        exact ht
    · -- the byte ends a message, and the record starts anew
      right
      have htrack : L.requests.trackStep pr b = some ⟨p₁.state, [], p₁.state⟩ := by
        simp [Scanner.trackStep, hpr, hstep]
      rcases ih hp₁ h₂ ⟨p₁.state, [], p₁.state⟩ rfl with ⟨hl, hq⟩ | ⟨k, start, hk, hl, ht⟩
      · refine ⟨1, p₁.state, by simp, hl.trans hlast, ?_⟩
        simp only [Scanner.track, htrack, Option.bind_some, List.drop_succ_cons, List.drop_zero]
        exact Scanner.track_of_quiet hq
      · refine ⟨k + 1, start, by simpa using hk, by rw [hl]; congr 1; omega, ?_⟩
        simp only [Scanner.track, htrack, Option.bind_some, List.drop_succ_cons]
        exact ht

/-- **The last end-of-message pointer starts the message in progress.** After a chunk, what the
scanner has seen of it is the chunk from that pointer on, or, when no message ended, what it had
seen before and the chunk. -/
theorem doParse_last {p p' : HttpParser L} {data : Bytes} (hp : p.settings = .request)
    (h : p.doParse data = some p') (pr : Scanner.Progress L.State UInt8) (hpr : pr.now = p.state) :
    ∃ start, L.requests.track pr data = some ⟨start,
      match p'.lastEom with
      | some k => data.drop k
      | none => pr.seen ++ data, p'.state⟩ := by
  rcases execute_last (p := { p with firstEom := none, lastEom := none }) hp h pr hpr with
    ⟨hl, hq⟩ | ⟨k, start, -, hl, ht⟩
  · rw [hl]
    exact ⟨pr.start, Scanner.track_of_quiet (by rw [hpr]; exact hq)⟩
  · rw [hl, Nat.zero_add]
    exact ⟨start, ht⟩

/-- Once set, the first pointer stays. -/
theorem execute_firstEom_some {p p' : HttpParser L} {i k : ℕ} {bs : Bytes}
    (hp : p.settings = .request) (hfirst : p.firstEom = some k) (h : p.execute i bs = some p') :
    p'.firstEom = some k := by
  induction bs generalizing p i with
  | nil => rw [← Option.some.inj h, hfirst]
  | cons b bs ih =>
    obtain ⟨p₁, h₁, h₂⟩ := Option.bind_eq_some_iff.mp h
    have hp₁ : p₁.settings = .request := (parseByte_settings h₁).trans hp
    -- whether or not a message ends here, the pointer is set already
    rcases parseByte_request hp h₁ with ⟨-, -, hf⟩ | ⟨-, -, hf⟩
    · exact ih hp₁ (hf.trans hfirst) h₂
    · exact ih hp₁ (by rw [hf, hfirst]; rfl) h₂

theorem execute_first {p p' : HttpParser L} {i : ℕ} {bs : Bytes} (hp : p.settings = .request)
    (hfirst : p.firstEom = none) (h : p.execute i bs = some p') :
    (p'.firstEom = none ∧ L.requests.quiet p.state bs = some p'.state) ∨
      ∃ k t, k ≤ bs.length ∧ p'.firstEom = some (i + k) ∧
        L.requests.Completes p.state (bs.take k) t := by
  induction bs generalizing p i with
  | nil =>
    left
    rw [← Option.some.inj h]
    exact ⟨hfirst, rfl⟩
  | cons b bs ih =>
    obtain ⟨p₁, h₁, h₂⟩ := Option.bind_eq_some_iff.mp h
    have hp₁ : p₁.settings = .request := (parseByte_settings h₁).trans hp
    rcases parseByte_request hp h₁ with ⟨hstep, -, hf⟩ | ⟨hstep, -, hf⟩
    -- the byte belongs to the message that is first to end
    · rcases ih hp₁ (hf.trans hfirst) h₂ with ⟨hnone, hq⟩ | ⟨k, t, hk, hsome, hc⟩
      · left
        exact ⟨hnone, by simp [Scanner.quiet, hstep, hq]⟩
      · right
        refine ⟨k + 1, t, by simpa using hk, by rw [hsome]; congr 1; omega, ?_⟩
        have hb : L.requests.quiet p.state [b] = some p₁.state := by
          simp [Scanner.quiet, hstep]
        exact Scanner.Completes.of_quiet hb hc
    · -- the first mark: later ones leave the pointer alone
      right
      rw [hfirst, Option.getD_none] at hf
      refine ⟨1, p₁.state, by simp, ?_, [], b, p.state, by simp, rfl, hstep⟩
      exact execute_firstEom_some hp₁ hf h₂

/-- **The first end-of-message pointer ends the first whole message** of the chunk. -/
theorem doParse_first {p p' : HttpParser L} {data : Bytes} (hp : p.settings = .request)
    (h : p.doParse data = some p') :
    (p'.firstEom = none ∧ L.requests.quiet p.state data = some p'.state) ∨
      ∃ k t, k ≤ data.length ∧ p'.firstEom = some k ∧
        L.requests.Completes p.state (data.take k) t := by
  rcases execute_first (p := { p with firstEom := none, lastEom := none }) hp rfl h with
    hq | ⟨k, t, hk, hf, hc⟩
  · exact Or.inl hq
  · exact Or.inr ⟨k, t, hk, by rw [hf, Nat.zero_add], hc⟩

end HttpParser

/-! ### Messages without a body -/

/-- Where a reader of messages without a body stands: before a message, or inside one with so many
bytes of the closing `CR LF CR LF` behind it. -/
inductive Bodiless
  | start
  | inside (response : Bool) (matched : Fin 4)
  deriving DecidableEq, Repr

/-- There are four places in `CR LF CR LF`. -/
instance instNeZeroFour : NeZero 4 := ⟨by decide⟩

/-- llhttp as it behaves on `GET` requests and `204` responses, which have no body: a message
starts with a capital letter (`H` of a response) and ends with an empty line. -/
def Llhttp.bodiless : Llhttp where
  State := Bodiless
  init := .start
  step _ s b :=
    match s with
    | .start => if 65 ≤ b ∧ b ≤ 90 then some (.inside (b == 72) 0, []) else none
    | .inside r m =>
      if m = 3 ∧ b = 10 then
        some (.start, if r then [.headersComplete 204, .messageComplete 0]
          else [.headersComplete 0, .messageComplete 1])
      else if m = 1 ∧ b = 10 then some (.inside r 2, [])
      else if b = 13 then some (.inside r (if m = 2 then 3 else 1), [])
      else some (.inside r 0, [])

end LSProxy
