import LSProxy.Lib.Channel

/-!
# Bounded queues

A first-in first-out queue that holds at most `cap` elements. Two things happen at it: a list is
offered, and the queue lets in the first elements of it, as many as there is room for; or a list
leaves at the front.

* `Step cap q e q'` — the event `e` turns the queue `q` into `q'`;
* `Run cap q₀ es q` — the events `es`, one after another.

A run never exceeds the bound (`Run.length_le`), and what was let in is, in order, what has left
followed by what is still there (`Run.carries`).
-/

namespace BoundedQueue

variable {α : Type*} {cap : ℕ}

/-- What happens at a queue. -/
inductive Event (α : Type*)
  /-- `xs` is offered, and the first `taken` elements are let in. -/
  | offered (xs : List α) (taken : ℕ)
  /-- `xs` leaves. -/
  | emitted (xs : List α)

/-- What an event lets in. -/
@[simp] def Event.entering : Event α → List α
  | .offered xs taken => xs.take taken
  | .emitted _ => []

/-- What an event lets out. -/
@[simp] def Event.leaving : Event α → List α
  | .offered _ _ => []
  | .emitted xs => xs

/-- One event at a queue of capacity `cap`. -/
inductive Step (cap : ℕ) : List α → Event α → List α → Prop
  | offered (q xs : List α) :
      Step cap q (.offered xs (min xs.length (cap - q.length)))
        (q ++ xs.take (min xs.length (cap - q.length)))
  | emitted (q xs : List α) : Step cap (xs ++ q) (.emitted xs) q

/-- A list of events, from the queue `q₀` on. -/
inductive Run (cap : ℕ) (q₀ : List α) : List (Event α) → List α → Prop
  | start : Run cap q₀ [] q₀
  | step {es : List (Event α)} {q q' : List α} {e : Event α} (h : Run cap q₀ es q)
      (hs : Step cap q e q') : Run cap q₀ (es ++ [e]) q'

/-- What there is room for is let in whole. -/
theorem Step.offered_all {q xs : List α} (h : xs.length ≤ cap - q.length) :
    Step cap q (.offered xs xs.length) (q ++ xs) := by
  have hs : Step cap q _ _ := Step.offered q xs
  rw [Nat.min_eq_left h, List.take_length] at hs
  exact hs

/-- Everything may leave at once. -/
theorem Step.drained (q : List α) : Step cap q (.emitted q) [] := by
  have hs : Step cap (q ++ []) _ _ := Step.emitted [] q
  rw [List.append_nil] at hs
  exact hs

/-- No event exceeds the bound. -/
theorem Step.length_le {q q' : List α} {e : Event α} (hs : Step cap q e q')
    (hq : q.length ≤ cap) : q'.length ≤ cap := by
  cases hs with
  | offered q xs =>
    rw [List.length_append, List.length_take]
    omega
  | emitted q' xs =>
    rw [List.length_append] at hq
    exact Nat.le_trans (Nat.le_add_left _ _) hq

/-- An event keeps the order. -/
theorem Step.carries {q q' : List α} {e : Event α} (hs : Step cap q e q') :
    Carries Event.entering Event.leaving q [e] q' := by
  unfold Carries
  cases hs with
  | offered q xs => rw [List.flatMap_singleton, List.flatMap_singleton]; rfl
  | emitted q' xs =>
    rw [List.flatMap_singleton, List.flatMap_singleton]
    show xs ++ q' ++ [] = xs ++ q'
    rw [List.append_nil]

/-- **The bound holds throughout.** -/
theorem Run.length_le {q₀ q : List α} {es : List (Event α)} (h : Run cap q₀ es q)
    (hq₀ : q₀.length ≤ cap) : q.length ≤ cap := by
  induction h with
  | start => exact hq₀
  | step _ hs ih => exact hs.length_le ih

/-- **What was let in has left, or is still there**, in order. -/
theorem Run.carries {q₀ q : List α} {es : List (Event α)} (h : Run cap q₀ es q) :
    Carries Event.entering Event.leaving q₀ es q := by
  induction h with
  | start => exact .idle rfl rfl
  | step _ hs ih => exact ih.append hs.carries

end BoundedQueue
