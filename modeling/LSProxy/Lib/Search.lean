import Mathlib.Data.List.Infix

/-!
# Searching a list for a pattern

`after pat s` is what follows the first occurrence of the pattern `pat` in the list `s`, and `none`
if there is no occurrence.

* `after_append` — what is found in a list is found at the same place in a longer one;
* `after_of_absent` — the pattern is found behind what does not have it;
* `after_skip` — what cannot begin the pattern is passed over.
-/

namespace Search

variable {α : Type*} [DecidableEq α] {pat s r : List α}

/-- What follows the first occurrence of `pat`. -/
def after (pat : List α) : List α → Option (List α)
  | [] => if pat = [] then some [] else none
  | x :: xs => if pat <+: x :: xs then some ((x :: xs).drop pat.length) else after pat xs

theorem after_head (h : pat <+: s) : after pat s = some (s.drop pat.length) := by
  cases s with
  | nil =>
    obtain rfl := List.prefix_nil.mp h
    rfl
  | cons x xs =>
    unfold after
    rw [if_pos h]

theorem after_cons {x : α} (h : ¬ pat <+: x :: s) : after pat (x :: s) = after pat s := by
  rw [after, if_neg h]

/-- The pattern and what follows it are in the list. -/
theorem length_le_of_after (h : after pat s = some r) : pat.length + r.length ≤ s.length := by
  induction s with
  | nil =>
    unfold after at h
    split at h
    · next hnil =>
      obtain rfl := Option.some.inj h
      simp [hnil]
    · cases h
  | cons x xs ih =>
    by_cases hpre : pat <+: x :: xs
    · rw [after_head hpre] at h
      obtain rfl := Option.some.inj h
      have hle := hpre.length_le
      rw [List.length_drop]
      omega
    · rw [after_cons hpre] at h
      exact (ih h).trans (Nat.le_succ _)

/-- **A longer list** has the first occurrence at the same place. -/
theorem after_append (h : after pat s = some r) (t : List α) :
    after pat (s ++ t) = some (r ++ t) := by
  induction s with
  | nil =>
    unfold after at h
    split at h
    · next hnil =>
      obtain rfl := Option.some.inj h
      subst hnil
      exact after_head List.nil_prefix
    · cases h
  | cons x xs ih =>
    by_cases hpre : pat <+: x :: xs
    · rw [after_head hpre] at h
      obtain rfl := Option.some.inj h
      rw [after_head (hpre.trans (List.prefix_append _ t)),
        List.drop_append_of_le_length hpre.length_le]
    · rw [after_cons hpre] at h
      -- an occurrence at the front would be within the shorter list
      have hlong : ¬ pat <+: x :: (xs ++ t) := by
        intro hlong
        have hle := length_le_of_after h
        refine hpre (List.prefix_of_prefix_length_le hlong (List.prefix_append (x :: xs) t) ?_)
        rw [List.length_cons]
        omega
      rw [List.cons_append, after_cons hlong]
      exact ih h

/-- **The pattern is found** behind a list that, with all but the last element of the pattern, does
not have it. -/
theorem after_of_absent {xs : List α} (hpat : pat ≠ [])
    (h : after pat (xs ++ pat.dropLast) = none) (t : List α) :
    after pat (xs ++ (pat ++ t)) = some t := by
  induction xs with
  | nil =>
    rw [List.nil_append, after_head (List.prefix_append pat t), List.drop_left]
  | cons x xs ih =>
    rw [List.cons_append] at h ⊢
    by_cases hpre : pat <+: x :: (xs ++ pat.dropLast)
    · rw [after_head hpre] at h
      cases h
    · rw [after_cons hpre] at h
      have hlong : ¬ pat <+: x :: (xs ++ (pat ++ t)) := by
        intro hlong
        have hfront : x :: (xs ++ pat.dropLast) <+: x :: (xs ++ (pat ++ t)) := by
          rw [List.cons_prefix_cons, List.prefix_append_right_inj]
          exact ⟨rfl, (List.dropLast_prefix pat).trans (List.prefix_append pat t)⟩
        refine hpre (List.prefix_of_prefix_length_le hlong hfront ?_)
        have hpos := List.length_pos_iff.mpr hpat
        rw [List.length_cons, List.length_append, List.length_dropLast]
        omega
      rw [after_cons hlong]
      exact ih h

/-- **What cannot begin the pattern** is passed over. -/
theorem after_skip {xs : List α} {x₀ : α} (h : ∀ x ∈ xs, x ≠ x₀) (s : List α) :
    after (x₀ :: pat) (xs ++ s) = after (x₀ :: pat) s := by
  induction xs with
  | nil => rfl
  | cons x xs ih =>
    obtain ⟨hx, hxs⟩ := List.forall_mem_cons.mp h
    rw [List.cons_append, after_cons fun hpre => hx (List.cons_prefix_cons.mp hpre).1.symm]
    exact ih hxs

end Search
