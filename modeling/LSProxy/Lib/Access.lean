import Mathlib.Data.Finset.Basic

/-!
# Accesses, and those that dangle

Things are made, used and given up, one access after the other. An access dangles when the thing
it uses or gives up is not there at that moment: it has been given up before, or was never made.

* `leaves` — what there is after an access;
* `dangling` — the accesses of a list that dangle, from what there is at its beginning on.

A list of accesses is taken apart by `dangling_append`: what its second half finds is what its
first half leaves.
-/

/-- Something is done with a thing. -/
inductive Access (α : Type*)
  | acquire (a : α)
  | use (a : α)
  | release (a : α)
  deriving DecidableEq

namespace Access

variable {α : Type*} [DecidableEq α] {s : Finset α}

/-- What there is after the access. -/
@[simp] def leaves (s : Finset α) : Access α → Finset α
  | .acquire a => insert a s
  | .use _ => s
  | .release a => s.erase a

/-- The access finds the thing it uses or gives up. -/
def finds (s : Finset α) : Access α → Bool
  | .acquire _ => true
  | .use a | .release a => decide (a ∈ s)

/-- The accesses that use or give up what is not there. -/
def dangling : Finset α → List (Access α) → List (Access α)
  | _, [] => []
  | s, x :: xs =>
    if x.finds s then dangling (x.leaves s) xs else x :: dangling (x.leaves s) xs

@[simp] theorem dangling_nil (s : Finset α) : dangling s [] = [] := rfl

@[simp] theorem dangling_acquire (a : α) (xs : List (Access α)) :
    dangling s (.acquire a :: xs) = dangling (insert a s) xs := rfl

@[simp] theorem dangling_use {a : α} (h : a ∈ s) (xs : List (Access α)) :
    dangling s (.use a :: xs) = dangling s xs := if_pos (decide_eq_true h)

@[simp] theorem dangling_use_gone {a : α} (h : a ∉ s) (xs : List (Access α)) :
    dangling s (.use a :: xs) = .use a :: dangling s xs := if_neg (by simpa [finds] using h)

@[simp] theorem dangling_release {a : α} (h : a ∈ s) (xs : List (Access α)) :
    dangling s (.release a :: xs) = dangling (s.erase a) xs := if_pos (decide_eq_true h)

/-- The second half of a list finds what the first one leaves. -/
theorem dangling_append (s : Finset α) (xs ys : List (Access α)) :
    dangling s (xs ++ ys) = dangling s xs ++ dangling (xs.foldl leaves s) ys := by
  induction xs generalizing s with
  | nil => rfl
  | cons x xs ih =>
    rw [List.cons_append, dangling, dangling, ih, List.foldl_cons]
    split
    · rfl
    · rw [List.cons_append]

/-- Things that are there can be used as often as one likes. -/
theorem dangling_uses {β : Type*} {f : β → α} {xs : List β} (h : ∀ x ∈ xs, f x ∈ s) :
    dangling s (xs.map fun x => .use (f x)) = [] := by
  induction xs with
  | nil => rfl
  | cons x xs ih =>
    obtain ⟨hx, hxs⟩ := List.forall_mem_cons.mp h
    rw [List.map_cons, dangling_use hx]
    exact ih hxs

/-- Using things leaves what there is. -/
theorem leaves_uses {β : Type*} (s : Finset α) (f : β → α) (xs : List β) :
    (xs.map fun x => .use (f x)).foldl leaves s = s := by
  induction xs with
  | nil => rfl
  | cons x xs ih => exact ih

/-- What is not given up stays. -/
theorem mem_leaves {a : α} {xs : List (Access α)} (ha : a ∈ s) (hkept : .release a ∉ xs) :
    a ∈ xs.foldl leaves s := by
  induction xs generalizing s with
  | nil => exact ha
  | cons x xs ih =>
    obtain ⟨hx, hxs⟩ := not_or.mp (List.mem_cons.not.mp hkept)
    refine ih ?_ hxs
    cases x with
    | acquire b => exact Finset.mem_insert_of_mem ha
    | use b => exact ha
    | release b => exact Finset.mem_erase.mpr ⟨fun hab => hx (hab ▸ rfl), ha⟩

/-- What is not made again can be given up before or after. -/
theorem leaves_erase {a : α} {xs : List (Access α)} (hnew : .acquire a ∉ xs) (s : Finset α) :
    xs.foldl leaves (s.erase a) = (xs.foldl leaves s).erase a := by
  induction xs generalizing s with
  | nil => rfl
  | cons x xs ih =>
    obtain ⟨hx, hxs⟩ := not_or.mp (List.mem_cons.not.mp hnew)
    rw [List.foldl_cons, List.foldl_cons, ← ih hxs]
    congr 1
    cases x with
    | acquire b =>
      have hba : b ≠ a := fun hba => hx (hba ▸ rfl)
      exact (Finset.erase_insert_of_ne hba).symm
    | use b => rfl
    | release b => exact Finset.erase_right_comm

end Access
