import Mathlib.Data.Finset.Card

/-!
# Going round occupied places

A visitor goes round a cycle of `n` places. A place that is free it takes, a place that is occupied
costs it the visit; and places that are taken are given back at any time.

* `Run place M i held fails` — after `i` visits the places `held` are occupied, at most `M` at any
  time, and `fails` of the visits were in vain;
* `Round.arrive` — a visit is in vain only where a place has been held since the round began;
* `Run.round` — the account of the round that the visitor is in;
* `Run.fails_le` — so each round costs at most `M` visits, and the first round none.
-/

namespace Occupancy

variable {β : Type*} [DecidableEq β] {place : ℕ → β} {n M : ℕ}

/-- Visits and departures, one after another. -/
inductive Run (place : ℕ → β) (M : ℕ) : ℕ → Finset β → ℕ → Prop
  | start : Run place M 0 ∅ 0
  | taken {i fails : ℕ} {held : Finset β} (h : Run place M i held fails)
      (hfree : place (i + 1) ∉ held) (hroom : held.card < M) :
      Run place M (i + 1) (insert (place (i + 1)) held) fails
  | occupied {i fails : ℕ} {held : Finset β} (h : Run place M i held fails)
      (hheld : place (i + 1) ∈ held) : Run place M (i + 1) held (fails + 1)
  | released {i fails : ℕ} {held : Finset β} (h : Run place M i held fails) (b : β) :
      Run place M i (held.erase b) fails

theorem Run.card_le {i fails : ℕ} {held : Finset β} (h : Run place M i held fails) :
    held.card ≤ M := by
  induction h with
  | start => exact Nat.zero_le _
  | taken _ hfree hroom =>
    rw [Finset.card_insert_of_notMem hfree]
    exact hroom
  | occupied _ _ ih => exact ih
  | released _ b ih => exact (Finset.card_le_card (Finset.erase_subset b _)).trans ih

/-- The place has been visited in the round of `i`. -/
def Passed (place : ℕ → β) (n i : ℕ) (b : β) : Prop := ∃ j, i / n * n ≤ j ∧ j ≤ i ∧ place j = b

/-- The account of the round of `i`: the places `base` were occupied when it began, and `met` are
those of them that have been visited in vain. -/
structure Round (place : ℕ → β) (n M i : ℕ) (held : Finset β) (fails : ℕ) (base met : Finset β) :
    Prop where
  base_card : base.card ≤ if i < n then 0 else M
  met_subset : met ⊆ base
  met_passed : ∀ b ∈ met, Passed place n i b
  held_cases : ∀ b ∈ held, b ∈ base ∨ Passed place n i b
  fails_le : fails ≤ M * (i / n - 1) + met.card

omit [DecidableEq β] in
theorem passed_self (place : ℕ → β) (n i : ℕ) : Passed place n i (place i) :=
  ⟨i, Nat.div_mul_le_self i n, le_rfl, rfl⟩

omit [DecidableEq β] in
/-- What the rounds have cost so far. -/
theorem Round.fails_le_mul {i fails : ℕ} {held base met : Finset β} (hn : 0 < n)
    (h : Round place n M i held fails base met) : fails ≤ M * (i / n) := by
  have hmet := Finset.card_le_card h.met_subset
  have hbase := h.base_card
  have hfails := h.fails_le
  rcases Nat.lt_or_ge i n with hi | hi
  · rw [if_pos hi] at hbase
    rw [Nat.div_eq_of_lt hi] at hfails ⊢
    omega
  · rw [if_neg (by omega)] at hbase
    obtain ⟨k, hk⟩ := Nat.exists_eq_succ_of_ne_zero (Nat.div_pos hi hn).ne'
    rw [hk, Nat.succ_sub_one] at hfails
    rw [hk, Nat.mul_succ]
    omega

omit [DecidableEq β] in
/-- **The next visit** comes to a place that has not been visited in this round: if it is held, it
has been held since the round began. -/
theorem Round.arrive {i fails : ℕ} {held base met : Finset β} (hn : 0 < n)
    (hplace : ∀ i j, i < j → j < i + n → place i ≠ place j)
    (h : Round place n M i held fails base met) (hcard : held.card ≤ M) :
    ∃ base' met', Round place n M (i + 1) held fails base' met' ∧
      (place (i + 1) ∈ held → place (i + 1) ∈ base' ∧ place (i + 1) ∉ met') := by
  by_cases hdvd : n ∣ i + 1
  · -- the round begins with this visit
    have hdiv : (i + 1) / n = i / n + 1 := by
      rw [Nat.succ_div, if_pos hdvd]
    have hle : n ≤ i + 1 := Nat.le_of_dvd (Nat.succ_pos i) hdvd
    refine ⟨held, ∅, ⟨?_, Finset.empty_subset _, by simp, fun b hb => .inl hb, ?_⟩,
      fun hheld => ⟨hheld, Finset.notMem_empty _⟩⟩
    · rwa [if_neg (by omega)]
    · rw [hdiv, Nat.add_sub_cancel, Finset.card_empty]
      exact h.fails_le_mul hn
  · -- the round goes on
    have hdiv : (i + 1) / n = i / n := by
      rw [Nat.succ_div, if_neg hdvd, Nat.add_zero]
    have hround : i + 1 < i / n * n + n := by
      have hmod := Nat.mod_lt (i + 1) hn
      have hsum := Nat.div_add_mod' (i + 1) n
      rw [hdiv] at hsum
      omega
    have hpassed : ∀ b, Passed place n i b → Passed place n (i + 1) b := by
      rintro b ⟨j, hj, hji, hb⟩
      exact ⟨j, by rwa [hdiv], hji.trans (Nat.le_succ i), hb⟩
    have hnew : ¬ Passed place n i (place (i + 1)) := by
      rintro ⟨j, hj, hji, hb⟩
      exact hplace j (i + 1) (Nat.lt_succ_of_le hji) (by omega) hb
    refine ⟨base, met, ⟨?_, h.met_subset, fun b hb => hpassed b (h.met_passed b hb),
      fun b hb => (h.held_cases b hb).imp_right (hpassed b), by rw [hdiv]; exact h.fails_le⟩,
      fun hheld => ⟨(h.held_cases _ hheld).resolve_right hnew,
        fun hmet => hnew (h.met_passed _ hmet)⟩⟩
    have hbase := h.base_card
    have hlast : i + 1 ≠ n := by
      rintro rfl
      exact hdvd (Nat.dvd_refl _)
    split at hbase
    · rwa [if_pos (by omega)]
    · rwa [if_neg (by omega)]

/-- **The account of each round.** -/
theorem Run.round {i fails : ℕ} {held : Finset β} (hn : 0 < n)
    (hplace : ∀ i j, i < j → j < i + n → place i ≠ place j) (h : Run place M i held fails) :
    ∃ base met, Round place n M i held fails base met := by
  induction h with
  | start => exact ⟨∅, ∅, by simp, by simp, by simp, by simp, by simp⟩
  | @taken i fails held h _ _ ih =>
    obtain ⟨base, met, hr⟩ := ih
    obtain ⟨base', met', hr', -⟩ := hr.arrive hn hplace h.card_le
    refine ⟨base', met', hr'.base_card, hr'.met_subset, hr'.met_passed, fun b hb => ?_,
      hr'.fails_le⟩
    rcases Finset.mem_insert.mp hb with rfl | hb
    · exact .inr (passed_self place n (i + 1))
    · exact hr'.held_cases b hb
  | @occupied i fails held h hheld ih =>
    obtain ⟨base, met, hr⟩ := ih
    obtain ⟨base', met', hr', hnew⟩ := hr.arrive hn hplace h.card_le
    obtain ⟨hbase, hmet⟩ := hnew hheld
    refine ⟨base', insert (place (i + 1)) met', hr'.base_card,
      Finset.insert_subset hbase hr'.met_subset, fun b hb => ?_, hr'.held_cases, ?_⟩
    · rcases Finset.mem_insert.mp hb with rfl | hb
      · exact passed_self place n (i + 1)
      · exact hr'.met_passed b hb
    · rw [Finset.card_insert_of_notMem hmet]
      exact Nat.succ_le_succ hr'.fails_le
  | released h b ih =>
    obtain ⟨base, met, hr⟩ := ih
    exact ⟨base, met, hr.base_card, hr.met_subset, hr.met_passed,
      fun b' hb' => hr.held_cases b' (Finset.mem_of_mem_erase hb'), hr.fails_le⟩

/-- **Visits in vain** are at most `M` for each round but the first. -/
theorem Run.fails_le {i fails : ℕ} {held : Finset β} (hn : 0 < n)
    (hplace : ∀ i j, i < j → j < i + n → place i ≠ place j) (h : Run place M i held fails) :
    fails ≤ M * (i / n) := by
  obtain ⟨base, met, hr⟩ := h.round hn hplace
  exact hr.fails_le_mul hn

end Occupancy
