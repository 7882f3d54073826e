import Mathlib.Data.List.Basic
import Mathlib.Data.List.Perm.Basic

/-!
# Sweeps

A loop that visits keys one after another, in a state that has a view at every key. A visit is
local when it changes the view at its own key only, and fails or not by what it finds there. Then
a loop over distinct keys does at each of them what a visit does, from what was there before the
loop, and the order of the keys does not matter.

* `Local` — local visits, and what they do at their key;
* `Local.foldlM_ok` — what a loop that does not fail leaves at every key;
* `Local.foldlM_ok_iff`, `Local.foldlM_error` — when it does not fail, and what it fails with;
* `Local.foldlM_perm` — two orders of the keys.
-/

namespace Sweep

variable {σ κ α ε : Type*}

/-- Visits are local in the states of `I`: `view s k` is what a visit of `k` sees, and `Done k`
relates it to what the visit leaves there. -/
structure Local (I : σ → Prop) (view : σ → κ → α) (Fails : κ → α → Prop) (Done : κ → α → α → Prop)
    (visit : σ → κ → Except ε σ) : Prop where
  fails_iff : ∀ {s k}, I s → ((∃ f, visit s k = .error f) ↔ Fails k (view s k))
  keeps : ∀ {s s' k}, I s → visit s k = .ok s' → I s'
  done : ∀ {s s' k}, I s → visit s k = .ok s' → Done k (view s k) (view s' k)
  frame : ∀ {s s' k k'}, I s → visit s k = .ok s' → k' ≠ k → view s' k' = view s k'

/-- A loop that does not fail begins with a visit that does not. -/
theorem foldlM_cons_ok {visit : σ → κ → Except ε σ} {s s' : σ} {k : κ} {ks : List κ} :
    (k :: ks).foldlM visit s = .ok s' ↔ ∃ s₁, visit s k = .ok s₁ ∧ ks.foldlM visit s₁ = .ok s' := by
  rw [List.foldlM_cons]
  cases visit s k with
  | error f =>
    constructor
    · intro h
      cases h
    · rintro ⟨s₁, h, -⟩
      cases h
  | ok s₁ =>
    constructor
    · exact fun h => ⟨s₁, rfl, h⟩
    · rintro ⟨s₁', h, h'⟩
      obtain rfl := Except.ok.inj h
      exact h'

section Local

variable {I : σ → Prop} {view : σ → κ → α} {Fails : κ → α → Prop} {Done : κ → α → α → Prop}
  {visit : σ → κ → Except ε σ} {s s' : σ} {ks ks' : List κ}

/-- **A loop over distinct keys** does at each key what a visit does from what was there before the
loop, and nothing elsewhere. -/
theorem Local.foldlM_ok (h : Local I view Fails Done visit) (hs : I s) (hks : ks.Nodup)
    (hloop : ks.foldlM visit s = .ok s') :
    I s' ∧ (∀ k ∈ ks, Done k (view s k) (view s' k)) ∧ ∀ k ∉ ks, view s' k = view s k := by
  induction ks generalizing s with
  | nil =>
    obtain rfl := Except.ok.inj hloop
    exact ⟨hs, by simp, fun _ _ => rfl⟩
  | cons k ks ih =>
    obtain ⟨hk, hks⟩ := List.nodup_cons.mp hks
    obtain ⟨s₁, hvisit, hloop⟩ := foldlM_cons_ok.mp hloop
    obtain ⟨hs', hdone, hframe⟩ := ih (h.keeps hs hvisit) hks hloop
    refine ⟨hs', fun k' hk' => ?_, fun k' hk' => ?_⟩
    · rcases List.mem_cons.mp hk' with rfl | hk'
      -- nothing comes back to the first key
      · rw [hframe k' hk]
        exact h.done hs hvisit
      · have hne : k' ≠ k := fun heq => hk (heq ▸ hk')
        rw [← h.frame hs hvisit hne]
        exact hdone k' hk'
    · obtain ⟨hne, hk'⟩ := not_or.mp (mt List.mem_cons.mpr hk')
      rw [hframe k' hk', h.frame hs hvisit hne]

/-- **A loop fails** just if a visit would fail from what was there before the loop. -/
theorem Local.foldlM_ok_iff (h : Local I view Fails Done visit) (hs : I s) (hks : ks.Nodup) :
    (∃ s', ks.foldlM visit s = .ok s') ↔ ∀ k ∈ ks, ¬ Fails k (view s k) := by
  induction ks generalizing s with
  | nil => exact iff_of_true ⟨s, rfl⟩ (by simp)
  | cons k ks ih =>
    obtain ⟨hk, hks⟩ := List.nodup_cons.mp hks
    rw [List.forall_mem_cons, ← h.fails_iff hs]
    cases hvisit : visit s k with
    | error f =>
      refine iff_of_false ?_ fun hok => hok.1 ⟨f, rfl⟩
      rintro ⟨s', hloop⟩
      obtain ⟨s₁, hvisit', -⟩ := foldlM_cons_ok.mp hloop
      cases hvisit.symm.trans hvisit'
    | ok s₁ =>
      have hrest : ∀ k' ∈ ks, view s₁ k' = view s k' := fun k' hk' =>
        h.frame hs hvisit fun heq => hk (heq ▸ hk')
      have hloop : (∃ s', (k :: ks).foldlM visit s = .ok s') ↔
          ∃ s', ks.foldlM visit s₁ = .ok s' := by
        simp only [foldlM_cons_ok, hvisit, Except.ok.injEq, exists_eq_left']
      rw [hloop, ih (h.keeps hs hvisit) hks]
      constructor
      · exact fun hall => ⟨by simp, fun k' hk' => hrest k' hk' ▸ hall k' hk'⟩
      · exact fun hall k' hk' => (hrest k' hk').symm ▸ hall.2 k' hk'

/-- What a loop fails with is what one of its visits fails with, from what was there before. -/
theorem Local.foldlM_error {f : ε} (h : Local I view Fails Done visit) (hs : I s) (hks : ks.Nodup)
    (hloop : ks.foldlM visit s = .error f) :
    ∃ k ∈ ks, ∃ s₁, I s₁ ∧ view s₁ k = view s k ∧ visit s₁ k = .error f := by
  induction ks generalizing s with
  | nil => cases hloop
  | cons k ks ih =>
    obtain ⟨hk, hks⟩ := List.nodup_cons.mp hks
    rw [List.foldlM_cons] at hloop
    cases hvisit : visit s k with
    | error f' =>
      rw [hvisit] at hloop
      obtain rfl := Except.error.inj hloop
      exact ⟨k, List.mem_cons_self, s, hs, rfl, hvisit⟩
    | ok s₁ =>
      rw [hvisit] at hloop
      obtain ⟨k', hk', s₂, hs₂, hview, hfail⟩ := ih (h.keeps hs hvisit) hks hloop
      refine ⟨k', List.mem_cons_of_mem k hk', s₂, hs₂, hview.trans ?_, hfail⟩
      exact h.frame hs hvisit fun heq => hk (heq ▸ hk')

/-- **The order of the keys does not matter**: in both orders the loop fails or in neither, and
where a visit decides up to `E` what it leaves, both leave the same up to `E`. -/
theorem Local.foldlM_perm (h : Local I view Fails Done visit) (hs : I s) (hks : ks.Nodup)
    (hperm : ks.Perm ks') {E : α → α → Prop} (hrefl : ∀ k ∉ ks, E (view s k) (view s k))
    (hE : ∀ {k x y}, Done k (view s k) x → Done k (view s k) y → E x y) :
    ((∃ s', ks.foldlM visit s = .ok s') ↔ ∃ s', ks'.foldlM visit s = .ok s') ∧
      ∀ {s₁ s₂}, ks.foldlM visit s = .ok s₁ → ks'.foldlM visit s = .ok s₂ →
        ∀ k, E (view s₁ k) (view s₂ k) := by
  have hks' := hperm.nodup_iff.mp hks
  constructor
  · rw [h.foldlM_ok_iff hs hks, h.foldlM_ok_iff hs hks']
    exact forall_congr' fun k => imp_congr_left hperm.mem_iff
  · intro s₁ s₂ h₁ h₂ k
    obtain ⟨-, hdone₁, hframe₁⟩ := h.foldlM_ok hs hks h₁
    obtain ⟨-, hdone₂, hframe₂⟩ := h.foldlM_ok hs hks' h₂
    by_cases hk : k ∈ ks
    · exact hE (hdone₁ k hk) (hdone₂ k (hperm.mem_iff.mp hk))
    · rw [hframe₁ k hk, hframe₂ k (mt hperm.mem_iff.mpr hk)]
      exact hrefl k hk

end Local

end Sweep
