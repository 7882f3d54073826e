import LSProxy.Lib.Search
import LSProxy.Safety.Isolation

/-!
# The error page

`reply_with_503_unavailable` writes an HTTP response of its own: a header with the length of the
page, and as much of the page as `global_buffer` has room for. `test/helper.h` checks such a message
by reading it again: the number behind `Content-Length:` has to be what follows the empty line.

* `checkContentLengthMatched` — the check;
* `check_iff` — a beginning of the message passes just if it is all of the message;
* `page_checked` — so a page that a client has been sent passes just if neither the buffer nor the
  socket has cut it.
-/

namespace LSProxy

open Session Search

variable {cfg : Config} {L : Llhttp}

/-! ### Reading a number -/

/-- `isdigit`. -/
def isdigit (c : UInt8) : Bool := 48 ≤ c && c ≤ 57

/-- `isspace`. -/
def isspace (c : UInt8) : Bool := c == 32 || (9 ≤ c && c ≤ 13)

/-- The number that the digits at the front spell. -/
def decimal (s : Bytes) : ℕ := (s.takeWhile isdigit).foldl (fun n c => 10 * n + (c.toNat - 48)) 0

/-- `atoi`; a number that is not an `int` is undefined behaviour. -/
def atoi (s : Bytes) : Option ℤ :=
  let x : ℤ := match s.dropWhile isspace with
    | 45 :: s => -decimal s
    | 43 :: s => decimal s
    | s => decimal s
  if -2 ^ 31 ≤ x ∧ x < 2 ^ 31 then some x else none

/-- The digits of a number, as `to_string` writes them. -/
theorem ascii_toString (n : ℕ) :
    ascii (toString n) = (Nat.toDigits 10 n).map fun c => c.toNat.toUInt8 := by
  rw [ascii, Nat.toString_eq_repr, Nat.toList_repr]

theorem toNat_digit {n : ℕ} {c : Char} (hc : c ∈ Nat.toDigits 10 n) :
    c.toNat.toUInt8.toNat = c.toNat ∧ isdigit c.toNat.toUInt8 = true := by
  have hdigit := Nat.isDigit_of_mem_toDigits (by decide) (by decide) hc
  have hrange : 48 ≤ c.toNat ∧ c.toNat ≤ 57 := by
    simpa [Char.isDigit, UInt32.le_iff_toNat_le] using hdigit
  have hbyte : c.toNat.toUInt8.toNat = c.toNat := by
    rw [Nat.toUInt8_eq, UInt8.toNat_ofNat']
    exact Nat.mod_eq_of_lt (by omega)
  refine ⟨hbyte, ?_⟩
  rw [isdigit, Bool.and_eq_true, decide_eq_true_eq, decide_eq_true_eq, UInt8.le_iff_toNat_le,
    UInt8.le_iff_toNat_le, hbyte]
  exact hrange

/-- What `to_string` writes is read back, up to the end of the line. -/
theorem decimal_toString (n : ℕ) (s : Bytes) : decimal (ascii (toString n) ++ 13 :: s) = n := by
  have hall : ∀ d ∈ ascii (toString n), isdigit d = true := by
    rw [ascii_toString]
    intro d hd
    obtain ⟨c, hc, rfl⟩ := List.mem_map.mp hd
    exact (toNat_digit hc).2
  unfold decimal
  rw [List.takeWhile_append_of_pos hall, List.takeWhile_cons_of_neg (by decide), List.append_nil,
    ascii_toString, List.foldl_map]
  conv_rhs => rw [← Nat.ofDigitChars_ten_toDigits (n := n), Nat.ofDigitChars_eq_foldl]
  refine List.foldl_ext _ _ _ fun m c hc => ?_
  rw [(toNat_digit hc).1]
  rfl

/-- The number that `to_string` writes behind a blank. -/
theorem atoi_toString {n : ℕ} (hn : n < 2 ^ 31) (s : Bytes) :
    atoi (32 :: (ascii (toString n) ++ 13 :: s)) = some (n : ℤ) := by
  have hdecimal := decimal_toString n s
  have hne : ascii (toString n) ≠ [] := by
    rw [ascii_toString]
    simp
  obtain ⟨d, ds, hds⟩ := List.exists_cons_of_ne_nil hne
  have hd : isdigit d = true := by
    have hmem : d ∈ ascii (toString n) := hds ▸ List.mem_cons_self
    rw [ascii_toString] at hmem
    obtain ⟨c, hc, rfl⟩ := List.mem_map.mp hmem
    exact (toNat_digit hc).2
  -- the first digit is neither a blank nor a sign
  have hrange : 48 ≤ d.toNat ∧ d.toNat ≤ 57 := by
    simpa [isdigit, UInt8.le_iff_toNat_le] using hd
  have hspace : isspace d = false := by
    simp [isspace, ← UInt8.toNat_inj, UInt8.le_iff_toNat_le]
    omega
  have hplus : d ≠ 43 := by
    rintro rfl
    exact absurd hd (by decide)
  have hminus : d ≠ 45 := by
    rintro rfl
    exact absurd hd (by decide)
  rw [hds, List.cons_append] at hdecimal ⊢
  unfold atoi
  rw [List.dropWhile_cons_of_pos (by decide), List.dropWhile_cons_of_neg (by simp [hspace])]
  split
  · next heq => exact absurd (List.cons.inj heq).1 hminus
  · next heq => exact absurd (List.cons.inj heq).1 hplus
  · rw [hdecimal, if_pos (by omega)]

/-! ### The check -/

/-- `check_content_length_matched` of `test/helper.h`: the message has a `Content-Length:`, an empty
line after it, and as many bytes behind the line as the number says. -/
def checkContentLengthMatched (msg : Bytes) : Bool :=
  (after (ascii "\r\nContent-Length:") msg).any fun rest =>
    (after (ascii "\r\n\r\n") rest).any fun body =>
      (atoi rest).any fun length => length % 2 ^ 64 == (body.length : ℤ)

/-- The header of the page. -/
def pageHeader (cfg : Config) : Bytes :=
  ascii ("HTTP/1.1 503 Service Unavailable\r\nRetry-After: 60\r\n" ++
    "Connection: close\r\nContent-Length: " ++ toString cfg.page503.length ++ "\r\n\r\n")

theorem unavailable503_eq (cfg : Config) :
    unavailable503 cfg = (pageHeader cfg ++ cfg.page503).take cfg.sockIoBufSize := rfl

/-- What follows `Content-Length:` in the message. -/
theorem after_contentLength (cfg : Config) :
    after (ascii "\r\nContent-Length:") (pageHeader cfg ++ cfg.page503) =
      some (32 :: (ascii (toString cfg.page503.length) ++
        13 :: 10 :: 13 :: 10 :: cfg.page503)) := by
  have hheader : pageHeader cfg ++ cfg.page503 =
      ascii "HTTP/1.1 503 Service Unavailable\r\nRetry-After: 60\r\nConnection: close" ++
        (ascii "\r\nContent-Length:" ++ 32 :: (ascii (toString cfg.page503.length) ++
          13 :: 10 :: 13 :: 10 :: cfg.page503)) := by
    have hfront : ascii ("HTTP/1.1 503 Service Unavailable\r\nRetry-After: 60\r\n" ++
        "Connection: close\r\nContent-Length: ") =
        ascii "HTTP/1.1 503 Service Unavailable\r\nRetry-After: 60\r\nConnection: close" ++
          ascii "\r\nContent-Length:" ++ [32] := by decide
    have hline : ascii "\r\n\r\n" = [13, 10, 13, 10] := by decide
    have happend : ∀ s t : String, ascii (s ++ t) = ascii s ++ ascii t := by
      simp [ascii]
    rw [pageHeader, happend, happend, hfront, hline]
    simp
  rw [hheader, after_of_absent (by decide) (by decide)]

/-- **A beginning of the message passes the check** just if it is all of the message. -/
theorem check_iff {msg rest : Bytes} (h : pageHeader cfg ++ cfg.page503 = msg ++ rest)
    (hpage : cfg.page503.length < 2 ^ 31) :
    checkContentLengthMatched msg = true ↔ rest = [] := by
  have hlength := after_contentLength cfg
  -- the digits do not begin an empty line
  have hline : after (ascii "\r\n\r\n") (32 :: (ascii (toString cfg.page503.length) ++
      13 :: 10 :: 13 :: 10 :: cfg.page503)) = some cfg.page503 := by
    have hdigits : ∀ x ∈ 32 :: ascii (toString cfg.page503.length), x ≠ 13 := by
      intro x hx
      rcases List.mem_cons.mp hx with rfl | hx
      · decide
      · rw [ascii_toString] at hx
        obtain ⟨c, hc, rfl⟩ := List.mem_map.mp hx
        have hdigit := (toNat_digit hc).2
        rintro heq
        rw [heq] at hdigit
        exact absurd hdigit (by decide)
    exact (after_skip hdigits _).trans (after_head (List.prefix_append [13, 10, 13, 10] _))
  constructor
  · intro hcheck
    obtain ⟨found, hfound, hcheck⟩ := (Option.any_eq_true _ _).mp hcheck
    obtain ⟨body, hbody, hcheck⟩ := (Option.any_eq_true _ _).mp hcheck
    obtain ⟨length, hlen, hcheck⟩ := (Option.any_eq_true _ _).mp hcheck
    -- the same has been found in the whole message
    have hfound' := after_append hfound rest
    rw [← h, hlength] at hfound'
    have hbody' := after_append hbody rest
    rw [← Option.some.inj hfound', hline] at hbody'
    have hpage503 : cfg.page503 = body ++ rest := Option.some.inj hbody'
    have heq : found = 32 :: (ascii (toString cfg.page503.length) ++
        13 :: 10 :: 13 :: 10 :: body) := by
      refine (List.append_left_inj rest).mp ?_
      rw [← Option.some.inj hfound']
      conv_lhs => rw [hpage503]
      simp [← hpage503]
    rw [heq, atoi_toString hpage] at hlen
    obtain rfl := Option.some.inj hlen
    rw [beq_iff_eq] at hcheck
    have hlengths := congrArg List.length hpage503
    rw [List.length_append] at hlengths
    exact List.length_eq_zero_iff.mp (by omega)
  -- the whole message passes
  · rintro rfl
    rw [List.append_nil] at h
    subst h
    unfold checkContentLengthMatched
    rw [hlength, Option.any_some, hline, Option.any_some, atoi_toString hpage, Option.any_some,
      beq_iff_eq]
    omega

/-! ### Pages that are sent -/

/-- What a step sends as a page is a beginning of it. -/
theorem Session.Step.page_isPrefix {s : Session cfg L} {cb : Callback} {io : Io}
    {calls : List Call} {out : Outcome cfg L} {bs : Bytes} (h : Step s cb io calls out)
    (hbs : .page503 bs ∈ calls) : bs <+: unavailable503 cfg := by
  have fast : ∀ {n : Counts} {p : HttpParser L} {hist : Bytes}
      {cq sq : Circularbuf cfg.sockIoBufSize} {cw : Bool} {calls : List Call}
      {out : Outcome cfg L}, FastForwardToServer n p hist cq sq cw io calls out →
      .page503 bs ∉ calls := by
    intro n p hist cq sq cw calls out h
    cases h <;> simp
  have deliver : ∀ {b b' : SlowBufs} {calls : List Call} {cw : Bool},
      Deliver cfg b io calls b' cw → .page503 bs ∉ calls := by
    intro b b' calls cw h
    cases h <;> simp
  cases h with
  | freshRefused =>
    obtain rfl : bs = _ := by simpa using hbs
    exact writeAll_isPrefix _ _
  | freshConnect _ h => exact absurd (List.mem_of_ne_of_mem (by simp) hbs) (fast h)
  | fastClientReadable h => exact absurd hbs (fast h)
  | fastServerReadable h => cases h <;> simp at hbs
  | transitionDeliver h | idleDeliver h | exchangeDeliver h | slowReplyDeliver h =>
    exact absurd hbs (deliver h)
  | slowReplyDone h =>
    exact absurd ((List.mem_append.mp hbs).resolve_right (by simp)) (deliver h)
  | idleDispatch _ _ _ _ h =>
    cases h with
    | refused =>
      obtain rfl : bs = _ := by simpa using hbs
      exact writeAll_isPrefix _ _
    | _ => simp at hbs
  | monitorDrop =>
    have hnot := (List.mem_append.mp hbs).resolve_right (by simp)
    split at hnot <;> simp at hnot
  | _ => simp at hbs

/-- What an event of the process sends as a page is a beginning of it. -/
theorem Proxy.Owned.page_isPrefix {px : Proxy cfg L} (hown : px.Owned) {ev : Proxy.Event}
    {who : ℕ} {calls : List Call} {r : Except Fault (Proxy cfg L)} {bs : Bytes}
    (h : px.step ev = some (who, calls, r)) (hbs : .page503 bs ∈ calls) :
    bs <+: unavailable503 cfg := by
  rcases Proxy.step_cases h with ⟨io, rfl, -, rfl, -⟩ | ⟨b, c, cb, io, rfl, hc, hen, -, rfl, -⟩
  · unfold Proxy.acceptNew at hbs
    split at hbs
    · obtain rfl : bs = _ := by simpa using hbs
      exact writeAll_isPrefix _ _
    · cases hbs
  · obtain ⟨s, hrep⟩ := hown.rep b c hc
    obtain ⟨out, hstep, -⟩ := fire_step hrep hen io px.globalBuffer px.pool
    exact hstep.page_isPrefix hbs

/-- **Pages that have been sent.** In every execution, whoever is turned away, at the limit of
connections or because the server cannot be reached: what goes out is a beginning of the message of
no more than `SOCK_IO_BUF_SIZE` bytes, and it passes the check of the tests just if it is all of the
message, so that no client takes a page that has been cut for a whole one. -/
theorem page_checked {n : ℕ} {log : List Proxy.LogEntry} {r : Except Fault (Proxy cfg L)}
    (h : Proxy.RunFrom (Proxy.start cfg L n) log r) (hpage : cfg.page503.length < 2 ^ 31)
    {x : Proxy.LogEntry} (hx : x ∈ log) {bs : Bytes} (hbs : .page503 bs ∈ x.calls) :
    bs <+: pageHeader cfg ++ cfg.page503 ∧ bs.length ≤ cfg.sockIoBufSize ∧
      (checkContentLengthMatched bs = true ↔ bs = pageHeader cfg ++ cfg.page503) := by
  have hbegin : bs <+: unavailable503 cfg := by
    induction h with
    | start => cases hx
    | step h hstep ih =>
      rcases List.mem_append.mp hx with hx | hx
      · exact ih hx
      · obtain rfl := List.mem_singleton.mp hx
        exact (h.owned _ rfl).page_isPrefix hstep hbs
  have hmessage : bs <+: pageHeader cfg ++ cfg.page503 :=
    hbegin.trans (unavailable503_eq cfg ▸ List.take_prefix _ _)
  refine ⟨hmessage, hbegin.length_le.trans (unavailable503_length_le cfg), ?_⟩
  obtain ⟨rest, hrest⟩ := hmessage
  rw [check_iff hrest.symm hpage, ← hrest]
  simp

/-- A page of one line. -/
def Config.oneLine : Config := { Config.shipped with page503 := ascii "<h1>503</h1>" }

/-- The page is sent whole to a client whose server cannot be reached. -/
theorem page_checked_whole :
    ∃ (log : List Proxy.LogEntry) (r : Except Fault (Proxy .oneLine .bodiless)) (bs : Bytes),
      Proxy.RunFrom (Proxy.start .oneLine .bodiless 0) log r ∧
        (∃ x ∈ log, .page503 bs ∈ x.calls) ∧ checkContentLengthMatched bs = true := by
  obtain ⟨log, r, hrun, hlog⟩ := Proxy.exists_run (L := .bodiless) 0
    [.acceptNew {}, .fire 0 .clientReadable { connectOk := false, clientWrites := [.wrote 104] }]
    (fun log (_ : Except Fault (Proxy .oneLine _)) => log.any fun x => x.calls.any fun c =>
      match c with
      | .page503 bs => bs.length == 104
      | _ => false)
    (by decide +kernel)
  obtain ⟨x, hx, hcalls⟩ := List.any_eq_true.mp hlog
  obtain ⟨c, hc, hlength⟩ := List.any_eq_true.mp hcalls
  cases c with
  | page503 bs =>
    obtain ⟨hbegin, -, hiff⟩ := page_checked hrun (by decide) hx hc
    have hwhole : bs.length = (pageHeader .oneLine ++ Config.oneLine.page503).length :=
      (beq_iff_eq.mp hlength).trans (by decide +kernel)
    exact ⟨log, r, bs, hrun, ⟨x, hx, hc⟩, hiff.mpr (hbegin.eq_of_length hwhole)⟩
  | _ => cases hlength

end LSProxy
