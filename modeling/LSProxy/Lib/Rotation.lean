import Mathlib.Order.Interval.Finset.Nat

/-!
# Rotations

A generator that goes round a cycle of places: each call returns the next place, and after the
last one comes the first again.

* `outputs next k s` — what `k` calls return, one after another;
* `probe next free k s` — call until a place is free, at most `k` times;
* `Rotates next view AtIndex place n` — in a state of index `i` the next call returns
  `place (i + 1)` and leaves a state of index `i + 1`, and `place` depends on the index modulo `n`
  only.

Any `n` calls, from wherever they start, return the `n` places of the cycle, each of them once
(`Rotates.outputs_perm`), so probing them finds a free one if there is one
(`Rotates.probe_eq_none_iff`).
-/

namespace Rotation

variable {σ α β : Type*}

/-- What `k` calls return. -/
def outputs (next : σ → σ × α) : ℕ → σ → List α
  | 0, _ => []
  | k + 1, s => (next s).2 :: outputs next k (next s).1

/-- Call until `free` accepts what is returned, at most `k` times. -/
def probe (next : σ → σ × α) (free : α → Bool) : ℕ → σ → σ × Option α
  | 0, s => (s, none)
  | k + 1, s => if free (next s).2 then ((next s).1, some (next s).2)
    else probe next free k (next s).1

/-! ### Probing -/

section Probe

variable {next : σ → σ × α} {free : α → Bool}

/-- Probing takes the first place that is free. -/
theorem probe_eq_find (k : ℕ) (s : σ) :
    (probe next free k s).2 = (outputs next k s).find? free := by
  induction k generalizing s with
  | zero => rfl
  | succ k ih =>
    unfold probe outputs
    by_cases hfree : free (next s).2
    · rw [if_pos hfree, List.find?_cons_of_pos hfree]
    · rw [if_neg hfree, List.find?_cons_of_neg hfree]
      exact ih _

/-- What probing takes has been returned, and is free. -/
theorem probe_some {k : ℕ} {s : σ} {a : α} (h : (probe next free k s).2 = some a) :
    a ∈ outputs next k s ∧ free a = true := by
  rw [probe_eq_find] at h
  exact ⟨List.mem_of_find?_eq_some h, List.find?_some h⟩

theorem probe_eq_none {k : ℕ} {s : σ} :
    (probe next free k s).2 = none ↔ ∀ a ∈ outputs next k s, free a = false := by
  rw [probe_eq_find, List.find?_eq_none]
  simp only [Bool.not_eq_true]

end Probe

/-! ### Cycles -/

/-- `next` goes round the places `place 0, …, place (n - 1)`, as they look through `view`: the
state of index `i` has just returned `place i`. -/
structure Rotates (next : σ → σ × α) (view : α → β) (AtIndex : σ → ℕ → Prop) (place : ℕ → β)
    (n : ℕ) : Prop where
  step : ∀ {s i}, AtIndex s i → AtIndex (next s).1 (i + 1)
  returns : ∀ {s i}, AtIndex s i → view (next s).2 = place (i + 1)
  cyclic : ∀ i, place (i % n) = place i

namespace Rotates

variable {next : σ → σ × α} {view : α → β} {AtIndex : σ → ℕ → Prop} {place : ℕ → β} {n : ℕ}

/-- The calls go through the places in order. -/
theorem outputs_eq (h : Rotates next view AtIndex place n) (k : ℕ) {s : σ} {i : ℕ}
    (hs : AtIndex s i) : (outputs next k s).map view = (List.range' (i + 1) k).map place := by
  induction k generalizing s i with
  | zero => rfl
  | succ k ih =>
    unfold outputs
    rw [List.map_cons, h.returns hs, ih (h.step hs), List.range'_succ, List.map_cons]

/-- **Any `n` calls return the places of the cycle**, each of them once. -/
theorem outputs_perm (h : Rotates next view AtIndex place n) {s : σ} {i : ℕ}
    (hs : AtIndex s i) :
    ((outputs next n s).map view).Perm ((List.range n).map place) := by
  have hmod : ((List.range' (i + 1) n).map (· % n)).Perm (List.range n) := by
    have hico := Nat.multiset_Ico_map_mod (i + 1) n
    rw [Multiset.Ico, Nat.Ico_eq_range', Nat.add_sub_cancel_left] at hico
    exact Multiset.coe_eq_coe.mp hico
  have hplace : (List.range' (i + 1) n).map place
      = ((List.range' (i + 1) n).map (· % n)).map place := by
    rw [List.map_map]
    exact List.map_congr_left fun j _ => (h.cyclic j).symm
  rw [h.outputs_eq n hs, hplace]
  exact hmod.map place

/-- They return just these. -/
theorem mem_outputs (h : Rotates next view AtIndex place n) {s : σ} {i : ℕ} (hs : AtIndex s i)
    {b : β} : b ∈ (outputs next n s).map view ↔ ∃ j < n, place j = b := by
  rw [(h.outputs_perm hs).mem_iff, List.mem_map]
  simp only [List.mem_range]

/-- If no two places of the cycle are the same, no two of the calls return the same. -/
theorem outputs_nodup (h : Rotates next view AtIndex place n) {s : σ} {i : ℕ} (hs : AtIndex s i)
    (hinj : ∀ j < n, ∀ k < n, place j = place k → j = k) :
    ((outputs next n s).map view).Nodup := by
  rw [(h.outputs_perm hs).nodup_iff]
  refine List.Nodup.map_on ?_ List.nodup_range
  intro j hj k hk heq
  exact hinj j (List.mem_range.mp hj) k (List.mem_range.mp hk) heq

/-- **Probing `n` times fails only if no place of the cycle is free.** -/
theorem probe_eq_none_iff (h : Rotates next view AtIndex place n) (free : β → Bool) {s : σ}
    {i : ℕ} (hs : AtIndex s i) :
    (probe next (fun a => free (view a)) n s).2 = none ↔ ∀ j < n, free (place j) = false := by
  rw [probe_eq_none]
  constructor
  · intro hall j hj
    obtain ⟨a, ha, hview⟩ := List.mem_map.mp ((h.mem_outputs hs).mpr ⟨j, hj, rfl⟩)
    rw [← hview]
    exact hall a ha
  · intro hall a ha
    obtain ⟨j, hj, hview⟩ := (h.mem_outputs hs).mp (List.mem_map_of_mem ha)
    rw [← hview]
    exact hall j hj

end Rotates

end Rotation
