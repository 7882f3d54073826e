import Mathlib.Data.List.Basic
import Mathlib.Data.List.TakeDrop

/-!
# Segments of a list and overwriting in place

A block of memory and the bytes of a file are both lists that are written *in place*: the
new data replaces what lies under it, the rest stays. This file gives the two operations the
developments above use for that:

* `slice xs a b` — the elements at positions `a, …, b - 1`;
* `overwrite xs i ys` — `xs` with `ys` laid down from position `i` on. Past the end of `xs`
  the list grows, and a gap between the end and `i` is filled with `default`, which is what a
  file system does with a hole.

The lemmas say how the two interact: a slice that ends before the written segment or starts
after it is untouched, the written segment reads back as `ys`, and writing at the end is
appending. Everything is stated over an arbitrary element type.
-/

namespace Segment

variable {α : Type*}

/-- The elements of `xs` at positions `a, …, b - 1`. -/
def slice (xs : List α) (a b : ℕ) : List α := (xs.drop a).take (b - a)

/-- `xs` with `ys` laid down from position `i` on, a hole being filled with `default`. -/
def overwrite [Inhabited α] (xs : List α) (i : ℕ) (ys : List α) : List α :=
  xs.take i ++ List.replicate (i - xs.length) default ++ ys ++ xs.drop (i + ys.length)

/-! ### Slices -/

theorem length_slice {xs : List α} {a b : ℕ} (hb : b ≤ xs.length) :
    (slice xs a b).length = b - a := by
  simp only [slice, List.length_take, List.length_drop]
  omega

@[simp] theorem slice_self (xs : List α) (a : ℕ) : slice xs a a = [] := by
  simp [slice]

/-- Adjacent slices join. -/
theorem slice_append {xs : List α} {a b c : ℕ} (hab : a ≤ b) (hbc : b ≤ c) :
    slice xs a b ++ slice xs b c = slice xs a c := by
  have hc : c - a = (b - a) + (c - b) := by omega
  have hdrop : xs.drop b = (xs.drop a).drop (b - a) := by
    rw [List.drop_drop, Nat.add_sub_cancel' hab]
  simp only [slice]
  rw [hc, List.take_add, hdrop]

/-- Dropping from a slice is starting later. -/
theorem drop_slice (xs : List α) (a b n : ℕ) :
    (slice xs a b).drop n = slice xs (a + n) b := by
  simp only [slice, List.drop_take, List.drop_drop]
  congr 1
  omega

/-! ### Overwriting -/

section Overwrite

variable [Inhabited α]

/-- Inside the list, overwriting needs no filling. -/
theorem overwrite_eq {xs : List α} {i : ℕ} (h : i ≤ xs.length) (ys : List α) :
    overwrite xs i ys = xs.take i ++ ys ++ xs.drop (i + ys.length) := by
  simp [overwrite, Nat.sub_eq_zero_of_le h]

/-- Writing inside the list keeps its length. -/
theorem length_overwrite {xs ys : List α} {i : ℕ} (h : i + ys.length ≤ xs.length) :
    (overwrite xs i ys).length = xs.length := by
  rw [overwrite_eq (by omega)]
  simp only [List.length_append, List.length_take, List.length_drop]
  omega

/-- Writing at the end is appending. -/
@[simp] theorem overwrite_length (xs ys : List α) : overwrite xs xs.length ys = xs ++ ys := by
  rw [overwrite_eq (Nat.le_refl _), List.take_length, List.drop_eq_nil_of_le (by omega),
    List.append_nil]

/-- Writing at the head puts the data in front of what it does not cover. -/
theorem overwrite_zero (xs ys : List α) : overwrite xs 0 ys = ys ++ xs.drop ys.length := by
  simp [overwrite]

/-- What lies before the written segment is untouched. -/
theorem slice_overwrite_before {xs ys : List α} {i a b : ℕ} (hb : b ≤ i) (hi : i ≤ xs.length) :
    slice (overwrite xs i ys) a b = slice xs a b := by
  have hlen : (xs.take i).length = i := by simp [hi]
  have hdrop : ((xs.take i ++ ys ++ xs.drop (i + ys.length)).drop a).take (b - a)
      = ((xs.take i).drop a).take (b - a) := by
    rw [List.append_assoc, List.drop_append, List.take_append_of_le_length]
    rw [List.length_drop, hlen]
    omega
  simp only [slice]
  rw [overwrite_eq hi, hdrop, List.drop_take, List.take_take]
  congr 1
  omega

/-- What lies after the written segment is untouched. -/
theorem slice_overwrite_after {xs ys : List α} {i a : ℕ} (ha : i + ys.length ≤ a)
    (hi : i ≤ xs.length) (b : ℕ) :
    slice (overwrite xs i ys) a b = slice xs a b := by
  have hlen : (xs.take i ++ ys).length = i + ys.length := by simp [hi]
  simp only [slice]
  rw [overwrite_eq hi, List.drop_append, hlen,
    List.drop_eq_nil_of_le (by rw [hlen]; exact ha), List.nil_append, List.drop_drop]
  congr 2
  omega

/-- The written segment reads back. -/
theorem slice_overwrite_self {xs : List α} {i : ℕ} (hi : i ≤ xs.length) (ys : List α) :
    slice (overwrite xs i ys) i (i + ys.length) = ys := by
  have hlen : (xs.take i).length = i := by simp [hi]
  simp only [slice]
  rw [overwrite_eq hi, List.append_assoc, List.drop_append, hlen, Nat.sub_self, List.drop_zero,
    List.drop_eq_nil_of_le (by omega), List.nil_append, Nat.add_sub_cancel_left,
    List.take_left]

end Overwrite

end Segment
