import Mathlib.Data.List.Basic
import Mathlib.Data.List.Forall2

/-!
# Simulations

Transition relations with labels, their runs, and simulations between them. A step of one system
may be matched by a run of several steps of the other; which labels that run may have is part of
the simulation. When every step is matched by one step with the same label, the two systems have
the same traces as soon as each simulates the other.

* `Runs` — the runs of a transition relation, with their labels;
* `Simulates`, `Simulates.runs` — a simulation, and the run that matches a run;
* `Reaches`, `Reaches.of_measure` — a state that is reached along steps that make a measure fall.
-/

namespace Simulation

variable {σ τ ℓ κ : Type*}

/-! ### Runs -/

/-- The runs of a transition relation from `s₀` on, with the labels of their steps. -/
inductive Runs (step : σ → ℓ → σ → Prop) (s₀ : σ) : List ℓ → σ → Prop
  | start : Runs step s₀ [] s₀
  | step {ls : List ℓ} {s s' : σ} {l : ℓ} (h : Runs step s₀ ls s) (hstep : step s l s') :
      Runs step s₀ (ls ++ [l]) s'

section Runs

variable {step : σ → ℓ → σ → Prop} {s₀ s s' : σ} {ls ls' : List ℓ} {l : ℓ}

theorem Runs.one (h : step s l s') : Runs step s [l] s' := .step .start h

theorem Runs.append (h : Runs step s₀ ls s) (h' : Runs step s ls' s') :
    Runs step s₀ (ls ++ ls') s' := by
  induction h' with
  | start => simpa using h
  | step _ hstep ih =>
    rw [← List.append_assoc]
    exact .step ih hstep

theorem Runs.cons (h : step s₀ l s) (h' : Runs step s ls s') : Runs step s₀ (l :: ls) s' :=
  (Runs.one h).append h'

theorem Runs.of_nil (h : Runs step s₀ [] s) : s = s₀ := by
  generalize hnil : ([] : List ℓ) = ls at h
  cases h with
  | start => rfl
  | step => exact absurd hnil (by simp)

end Runs

/-! ### Simulations -/

/-- Every step of the first system is matched by a run of the second, with labels that `word`
allows for its label. -/
def Simulates (step : σ → ℓ → σ → Prop) (step' : τ → κ → τ → Prop) (word : ℓ → List κ → Prop)
    (R : σ → τ → Prop) : Prop :=
  ∀ {s t l s'}, R s t → step s l s' → ∃ ks t', word l ks ∧ Runs step' t ks t' ∧ R s' t'

/-- Every step is matched by one step with the same label. -/
def SimulatesEach (step : σ → ℓ → σ → Prop) (step' : τ → ℓ → τ → Prop) (R : σ → τ → Prop) :
    Prop :=
  ∀ {s t l s'}, R s t → step s l s' → ∃ t', step' t l t' ∧ R s' t'

section Simulates

variable {step : σ → ℓ → σ → Prop} {step' : τ → κ → τ → Prop} {word : ℓ → List κ → Prop}
  {R : σ → τ → Prop} {s₀ s : σ} {t₀ : τ} {ls : List ℓ}

/-- **A run is matched by a run**, whose labels are allowed step by step. -/
theorem Simulates.runs (h : Simulates step step' word R) (hrun : Runs step s₀ ls s)
    (hR : R s₀ t₀) :
    ∃ kss t, List.Forall₂ word ls kss ∧ Runs step' t₀ kss.flatten t ∧ R s t := by
  induction hrun with
  | start => exact ⟨[], t₀, .nil, .start, hR⟩
  | step _ hstep ih =>
    obtain ⟨kss, t, hword, hrun, hR⟩ := ih
    obtain ⟨ks, t', hks, hrun', hR'⟩ := h hR hstep
    refine ⟨kss ++ [ks], t', List.rel_append hword (.cons hks .nil), ?_, hR'⟩
    rw [List.flatten_append, List.flatten_singleton]
    exact hrun.append hrun'

/-- A simulation step by step keeps the labels. -/
theorem SimulatesEach.runs {step' : τ → ℓ → τ → Prop} (h : SimulatesEach step step' R)
    (hrun : Runs step s₀ ls s) (hR : R s₀ t₀) : ∃ t, Runs step' t₀ ls t ∧ R s t := by
  induction hrun with
  | start => exact ⟨t₀, .start, hR⟩
  | step _ hstep ih =>
    obtain ⟨t, hrun, hR⟩ := ih
    obtain ⟨t', hstep', hR'⟩ := h hR hstep
    exact ⟨t', .step hrun hstep', hR'⟩

end Simulates

/-! ### Reaching a state -/

/-- Some run of at most `n` steps, at most `m` of them costly, with labels in `A`, leads from `s`
into `P`. -/
def Reaches (step : σ → ℓ → σ → Prop) (A : ℓ → Prop) (costly : ℓ → Bool) (P : σ → Prop) (n m : ℕ)
    (s : σ) : Prop :=
  ∃ ls s', Runs step s ls s' ∧ ls.length ≤ n ∧ ls.countP costly ≤ m ∧ (∀ l ∈ ls, A l) ∧ P s'

section Reaches

variable {step : σ → ℓ → σ → Prop} {A : ℓ → Prop} {costly : ℓ → Bool} {P : σ → Prop}
  {n n' m m' : ℕ} {s s' : σ} {l : ℓ}

theorem Reaches.here (h : P s) : Reaches step A costly P n m s :=
  ⟨[], s, .start, Nat.zero_le n, Nat.zero_le m, by simp, h⟩

theorem Reaches.cons (hstep : step s l s') (hl : A l) (h : Reaches step A costly P n m s') :
    Reaches step A costly P (n + 1) (m + if costly l then 1 else 0) s := by
  obtain ⟨ls, s'', hrun, hlen, hcost, hA, hP⟩ := h
  refine ⟨l :: ls, s'', .cons hstep hrun, by simpa using hlen, ?_, ?_, hP⟩
  · rw [List.countP_cons]
    exact Nat.add_le_add_right hcost _
  · rintro l' hl'
    rcases List.mem_cons.mp hl' with rfl | hl'
    · exact hl
    · exact hA l' hl'

theorem Reaches.mono (h : Reaches step A costly P n m s) (hn : n ≤ n') (hm : m ≤ m') :
    Reaches step A costly P n' m' s := by
  obtain ⟨ls, s', hrun, hlen, hcost, hA, hP⟩ := h
  exact ⟨ls, s', hrun, Nat.le_trans hlen hn, Nat.le_trans hcost hm, hA, hP⟩

/-- **A measure that falls.** From every state of `I` that is not in `P` yet, some step leads to
one of `I` with a smaller measure `μ`, and if it is costly with a smaller measure `ν`: then `P` is
reached, in as many steps as `μ` allows and as many costly ones as `ν` does. -/
theorem Reaches.of_measure {I : σ → Prop} (μ ν : σ → ℕ)
    (hstep : ∀ s, I s → P s ∨ ∃ l s', step s l s' ∧ A l ∧ I s' ∧ μ s' < μ s ∧
      ν s' + (if costly l then 1 else 0) ≤ ν s) (hs : I s) :
    Reaches step A costly P (μ s) (ν s) s := by
  induction hμ : μ s using Nat.strongRecOn generalizing s with
  | ind n ih =>
    rcases hstep s hs with hP | ⟨l, s', hst, hl, hs', hlt, hle⟩
    · exact .here hP
    · exact (Reaches.cons hst hl (ih (μ s') (hμ ▸ hlt) hs' rfl)).mono (by omega) hle

end Reaches

end Simulation
