import Mathlib.Data.List.TakeDrop

/-!
# Readers

A reader hands out a list piece by piece: a fetch of at most `n` elements returns some of those
that come next. How long the pieces are is its own affair; what it reads is the list they make up.

* `Reads fetch s xs` — fetched from `s` on, in any sizes, the pieces are the beginning of `xs`,
  and nothing is returned exactly when all of `xs` has been;
* `Reads.of_step` — it is enough to look at one fetch;
* `Reads.unique` — a reader reads one list.
-/

namespace Reader

variable {σ α : Type*} {fetch : σ → ℕ → σ × List α}

/-- Fetch one size after another: the state at the end, and the pieces. -/
def fetches (fetch : σ → ℕ → σ × List α) : σ → List ℕ → σ × List (List α)
  | s, [] => (s, [])
  | s, n :: ns =>
    let r := fetch s n
    ((fetches fetch r.1 ns).1, r.2 :: (fetches fetch r.1 ns).2)

@[simp] theorem fetches_nil (s : σ) : fetches fetch s [] = (s, []) := rfl

@[simp] theorem fetches_cons (s : σ) (n : ℕ) (ns : List ℕ) : fetches fetch s (n :: ns)
    = ((fetches fetch (fetch s n).1 ns).1, (fetch s n).2 :: (fetches fetch (fetch s n).1 ns).2) :=
  rfl

theorem fetches_concat (s : σ) (ns : List ℕ) (n : ℕ) :
    fetches fetch s (ns ++ [n]) = ((fetch (fetches fetch s ns).1 n).1,
      (fetches fetch s ns).2 ++ [(fetch (fetches fetch s ns).1 n).2]) := by
  induction ns generalizing s with
  | nil => rfl
  | cons m ns ih => rw [List.cons_append, fetches_cons, ih, fetches_cons, List.cons_append]

/-- What is read from `s` on is `xs`. -/
def Reads (fetch : σ → ℕ → σ × List α) (s : σ) (xs : List α) : Prop :=
  ∀ ns : List ℕ, (∀ n ∈ ns, 0 < n) →
    (fetches fetch s ns).2.flatten <+: xs ∧
      ∀ n, 0 < n → ((fetch (fetches fetch s ns).1 n).2 = [] ↔ (fetches fetch s ns).2.flatten = xs)

/-- One fetch of a reader of `xs`: it returns the beginning of `xs`, nothing exactly if `xs` is
empty, and the rest is for the next fetch. -/
def StepReads (fetch : σ → ℕ → σ × List α) (R : σ → List α → Prop) : Prop :=
  ∀ s xs n, R s xs → 0 < n →
    (fetch s n).2 <+: xs ∧ ((fetch s n).2 = [] ↔ xs = []) ∧
      R (fetch s n).1 (xs.drop (fetch s n).2.length)

/-- **What every fetch keeps is what is read.** -/
theorem Reads.of_step {R : σ → List α → Prop} (hstep : StepReads fetch R) {s : σ} {xs : List α}
    (h : R s xs) : Reads fetch s xs := by
  intro ns hpos
  induction ns generalizing s xs with
  | nil =>
    refine ⟨List.nil_prefix, fun n hn => ?_⟩
    rw [fetches_nil, (hstep s xs n h hn).2.1]
    exact eq_comm
  | cons m ns ih =>
    obtain ⟨⟨rest, hrest⟩, -, hnext⟩ := hstep s xs m h (hpos m List.mem_cons_self)
    rw [← hrest, List.drop_left] at hnext
    obtain ⟨hpre, hend⟩ := ih hnext fun n hn => hpos n (List.mem_cons_of_mem m hn)
    rw [fetches_cons, ← hrest, List.flatten_cons]
    refine ⟨(List.prefix_append_right_inj _).mpr hpre, fun n hn => ?_⟩
    rw [hend n hn, List.append_cancel_left_eq]

/-- All of the list is handed out if one goes on fetching. -/
theorem Reads.exhausted {s : σ} {xs : List α} (h : Reads fetch s xs) :
    ∃ ns : List ℕ, (∀ n ∈ ns, 0 < n) ∧ (fetches fetch s ns).2.flatten = xs := by
  have key : ∀ k ≤ xs.length, ∃ ns : List ℕ, (∀ n ∈ ns, 0 < n) ∧
      k ≤ (fetches fetch s ns).2.flatten.length := by
    intro k
    induction k with
    | zero => exact fun _ => ⟨[], fun _ hn => absurd hn List.not_mem_nil, Nat.zero_le _⟩
    | succ k ih =>
      intro hk
      obtain ⟨ns, hpos, hlen⟩ := ih (by omega)
      by_cases hall : (fetches fetch s ns).2.flatten = xs
      · exact ⟨ns, hpos, by rw [hall]; exact hk⟩
      · -- the next fetch returns something
        have hne := ((h ns hpos).2 1 Nat.one_pos).not.mpr hall
        have hone := List.length_pos_iff.mpr hne
        refine ⟨ns ++ [1], ?_, ?_⟩
        · intro n hn
          rcases List.mem_append.mp hn with hn | hn
          · exact hpos n hn
          · rw [List.mem_singleton.mp hn]
            exact Nat.one_pos
        · rw [fetches_concat, List.flatten_concat, List.length_append]
          omega
  obtain ⟨ns, hpos, hlen⟩ := key xs.length (Nat.le_refl _)
  have hpre := (h ns hpos).1
  exact ⟨ns, hpos, hpre.eq_of_length (Nat.le_antisymm hpre.length_le hlen)⟩

/-- **A reader reads one list.** -/
theorem Reads.unique {s : σ} {xs ys : List α} (hx : Reads fetch s xs) (hy : Reads fetch s ys) :
    xs = ys := by
  obtain ⟨ns, hpos, hall⟩ := hx.exhausted
  have hnil := ((hx ns hpos).2 1 Nat.one_pos).mpr hall
  rw [← hall]
  exact ((hy ns hpos).2 1 Nat.one_pos).mp hnil

end Reader
