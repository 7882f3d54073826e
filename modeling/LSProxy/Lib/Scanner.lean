import Mathlib.Data.List.Basic
import Mathlib.Data.Option.Basic

/-!
# Scanners: automata that mark message ends

A `Scanner` reads a stream one element at a time, may refuse an element, and marks the elements
that end a message. The file says what the messages of a stream are, independently of how a
reader cuts the stream into chunks:

* `Scanner.quiet s xs` — the state after `xs` from `s`, provided no element of `xs` ends a
  message;
* `Scanner.Completes s xs s'` — `xs` is one whole message from `s`: its last element, and no
  earlier one, ends a message;
* `Scanner.track` — the elements read since the last mark, with the state they started from;
* `Scanner.Parses r s ms rest s'` — the stream `ms.flatten ++ rest` is the messages `ms`, the
  first read from `s` and the others from the restart state `r`, then an unfinished `rest`.

`Completes` is a prefix code (`Completes.unique`), so a stream has at most one decomposition
(`Parses.unique`): "the `k`-th message of the stream" is well defined.
-/

/-- An automaton over `α` that may refuse an element (`none`) and marks the elements that end a
message (`true`). -/
structure Scanner (S α : Type*) where
  step : S → α → Option (S × Bool)

namespace Scanner

variable {S α : Type*} (sc : Scanner S α)

/-- The state after `xs` when no element of `xs` is refused or ends a message. -/
def quiet : S → List α → Option S
  | s, [] => some s
  | s, x :: xs =>
    match sc.step s x with
    | some (s', false) => quiet s' xs
    | _ => none

/-- `xs` is exactly one message from `s`. -/
def Completes (s : S) (xs : List α) (s' : S) : Prop :=
  ∃ pre x t, xs = pre ++ [x] ∧ sc.quiet s pre = some t ∧ sc.step t x = some (s', true)

/-- What a reader knows about the message in progress: the state it started in, its elements so
far, and the present state. -/
structure Progress (S α : Type*) where
  start : S
  seen : List α
  now : S

/-- A reader that starts a message in `s`. -/
def Progress.init (s : S) : Progress S α := ⟨s, [], s⟩

/-- Account for one element. -/
def trackStep (p : Progress S α) (x : α) : Option (Progress S α) :=
  match sc.step p.now x with
  | some (s', true) => some ⟨s', [], s'⟩
  | some (s', false) => some ⟨p.start, p.seen ++ [x], s'⟩
  | none => none

/-- Account for a run of elements. -/
def track : Progress S α → List α → Option (Progress S α)
  | p, [] => some p
  | p, x :: xs => (sc.trackStep p x).bind fun p' => track p' xs

/-- The stream `ms.flatten ++ rest` read from `s`: whole messages `ms`, each but the first
started in `r`, and an unfinished `rest` that ends in `s'`. -/
inductive Parses (r : S) : S → List (List α) → List α → S → Prop
  | rest {s s' : S} {rest : List α} (h : sc.quiet s rest = some s') : Parses r s [] rest s'
  | cons {s t s' : S} {m : List α} {ms : List (List α)} {rest : List α}
      (hm : sc.Completes s m t) (htail : Parses r r ms rest s') : Parses r s (m :: ms) rest s'

variable {sc}

/-! ### Quiet runs -/

@[simp] theorem quiet_nil (s : S) : sc.quiet s [] = some s := rfl

theorem quiet_append (s : S) (xs ys : List α) :
    sc.quiet s (xs ++ ys) = (sc.quiet s xs).bind fun t => sc.quiet t ys := by
  induction xs generalizing s with
  | nil => rfl
  | cons x xs ih =>
    simp only [List.cons_append, quiet]
    rcases sc.step s x with _ | ⟨s', _ | _⟩
    · rfl
    · exact ih s'
    · rfl

theorem quiet_concat {s t u : S} {xs : List α} {x : α} (h : sc.quiet s xs = some t)
    (hx : sc.step t x = some (u, false)) : sc.quiet s (xs ++ [x]) = some u := by
  rw [quiet_append, h, Option.bind_some]
  simp [quiet, hx]

/-! ### Whole messages -/

/-- A quiet beginning and a message from where it stopped make one message. -/
theorem Completes.of_quiet {s t s' : S} {xs ys : List α} (h : sc.quiet s xs = some t)
    (hc : sc.Completes t ys s') : sc.Completes s (xs ++ ys) s' := by
  obtain ⟨pre, x, u, rfl, hq, hx⟩ := hc
  refine ⟨xs ++ pre, x, u, by rw [List.append_assoc], ?_, hx⟩
  rw [quiet_append, h, Option.bind_some, hq]

/-- A stream that begins with a whole message is not quiet. -/
theorem Completes.not_quiet {s s' : S} {xs : List α} (h : sc.Completes s xs s') (ys : List α) :
    sc.quiet s (xs ++ ys) = none := by
  obtain ⟨pre, x, t, rfl, hq, hx⟩ := h
  rw [List.append_assoc, quiet_append, hq, Option.bind_some]
  simp [quiet, hx]

/-- **Messages form a prefix code.** Two messages from the same state that begin the same stream
are equal. -/
theorem Completes.unique {s s₁ s₂ : S} {a b x y : List α} (ha : sc.Completes s a s₁)
    (hb : sc.Completes s b s₂) (h : a ++ x = b ++ y) : a = b := by
  -- otherwise the shorter one lies inside the quiet part of the longer one
  have aux : ∀ {a b : List α} {s₁ s₂ : S}, sc.Completes s a s₁ → sc.Completes s b s₂ →
      a <+: b → a = b := by
    intro a b s₁ s₂ ha hb hab
    obtain ⟨c, rfl⟩ := hab
    obtain ⟨pre, z, t, hz, hq, -⟩ := hb
    rcases List.eq_nil_or_concat c with rfl | ⟨c', w, rfl⟩
    · simp
    · rw [List.concat_eq_append, ← List.append_assoc] at hz
      obtain ⟨hpre, -⟩ := List.append_inj' hz rfl
      rw [← hpre, ha.not_quiet c'] at hq
      exact absurd hq (by simp)
  rcases List.append_eq_append_iff.mp h with ⟨c, hc, -⟩ | ⟨c, hc, -⟩
  · exact aux ha hb ⟨c, hc.symm⟩
  · exact (aux hb ha ⟨c, hc.symm⟩).symm

/-! ### Tracking the message in progress -/

theorem track_append (p : Progress S α) (xs ys : List α) :
    sc.track p (xs ++ ys) = (sc.track p xs).bind fun q => sc.track q ys := by
  induction xs generalizing p with
  | nil => rfl
  | cons x xs ih =>
    simp only [List.cons_append, track]
    cases sc.trackStep p x with
    | none => rfl
    | some q => exact ih q

/-- What is tracked is an unfinished message. -/
def Progress.Sound (sc : Scanner S α) (p : Progress S α) : Prop :=
  sc.quiet p.start p.seen = some p.now

theorem Progress.Sound.step {p q : Progress S α} {x : α} (h : p.Sound sc)
    (hq : sc.trackStep p x = some q) : q.Sound sc := by
  unfold trackStep at hq
  split at hq
  · obtain rfl := Option.some.inj hq
    exact quiet_nil _
  · next s' hstep =>
    obtain rfl := Option.some.inj hq
    exact quiet_concat h hstep
  · exact absurd hq (by simp)

theorem Progress.Sound.track {p q : Progress S α} {xs : List α} (h : p.Sound sc)
    (hq : sc.track p xs = some q) : q.Sound sc := by
  induction xs generalizing p with
  | nil => exact Option.some.inj hq ▸ h
  | cons x xs ih =>
    obtain ⟨p', hp', hrest⟩ := Option.bind_eq_some_iff.mp hq
    exact ih (h.step hp') hrest

/-- A quiet run only adds to what has been seen. -/
theorem track_of_quiet {p : Progress S α} {xs : List α} {s : S}
    (h : sc.quiet p.now xs = some s) :
    sc.track p xs = some ⟨p.start, p.seen ++ xs, s⟩ := by
  induction xs generalizing p with
  | nil =>
    obtain rfl := Option.some.inj h
    simp [track]
  | cons x xs ih =>
    simp only [quiet] at h
    simp only [track, trackStep]
    rcases hx : sc.step p.now x with _ | ⟨s', _ | _⟩
    · simp [hx] at h
    · simp only [hx] at h
      rw [Option.bind_some, ih h]
      simp
    · simp [hx] at h

/-! ### Decomposing a stream -/

theorem Parses.rest_quiet {r s s' : S} {rest : List α} (h : sc.Parses r s [] rest s') :
    sc.quiet s rest = some s' := by
  cases h with
  | rest h => exact h

/-- The rest is read from where the last message left the scanner. -/
theorem Parses.quiet_rest {r s s' : S} {ms : List (List α)} {rest : List α}
    (h : sc.Parses r s ms rest s') :
    sc.quiet (if ms.isEmpty then s else r) rest = some s' := by
  induction h with
  | rest h => exact h
  | cons _ _ ih =>
    rw [ite_self] at ih
    exact ih

/-- Reading on inside the unfinished rest. -/
theorem Parses.extend {r s t s' : S} {ms : List (List α)} {rest xs : List α}
    (h : sc.Parses r s ms rest t) (hx : sc.quiet t xs = some s') :
    sc.Parses r s ms (rest ++ xs) s' := by
  induction h with
  | rest h => exact .rest (by rw [quiet_append, h, Option.bind_some, hx])
  | cons hm _ ih => exact .cons hm (ih hx)

/-- Completing the unfinished rest closes one more message, and the next starts in `r`. -/
theorem Parses.complete {r s t u : S} {ms : List (List α)} {rest xs : List α}
    (h : sc.Parses r s ms rest t) (hx : sc.Completes t xs u) :
    sc.Parses r s (ms ++ [rest ++ xs]) [] r := by
  induction h with
  | rest h => exact .cons (Completes.of_quiet h hx) (.rest rfl)
  | cons hm _ ih => exact .cons hm (ih hx)

/-- **A stream has one decomposition.** -/
theorem Parses.unique {r s s₁ s₂ : S} {ms₁ ms₂ : List (List α)} {rest₁ rest₂ : List α}
    (h₁ : sc.Parses r s ms₁ rest₁ s₁) (h₂ : sc.Parses r s ms₂ rest₂ s₂)
    (h : ms₁.flatten ++ rest₁ = ms₂.flatten ++ rest₂) : ms₁ = ms₂ ∧ rest₁ = rest₂ := by
  induction h₁ generalizing ms₂ with
  | rest hq =>
    cases h₂ with
    | rest _ => exact ⟨rfl, by simpa using h⟩
    | cons hm _ =>
      -- the quiet side cannot begin with a whole message
      simp only [List.flatten_nil, List.nil_append, List.flatten_cons, List.append_assoc] at h
      rw [h, hm.not_quiet] at hq
      exact absurd hq (by simp)
  | cons hm _ ih =>
    cases h₂ with
    | rest hq =>
      simp only [List.flatten_nil, List.nil_append, List.flatten_cons, List.append_assoc] at h
      rw [← h, hm.not_quiet] at hq
      exact absurd hq (by simp)
    | cons hm' htail' =>
      simp only [List.flatten_cons, List.append_assoc] at h
      obtain rfl := hm.unique hm' h
      obtain ⟨rfl, rfl⟩ := ih htail' (List.append_cancel_left h)
      exact ⟨rfl, rfl⟩

end Scanner
