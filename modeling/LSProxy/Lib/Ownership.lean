import Mathlib.Data.Set.Lattice

/-!
# Ownership of handles

Objects come and go, and each of them holds some handles. An object opens handles when it is
created and closes handles when it is destroyed, or passes them on to the objects created in its
place. A handle that is open but that no object holds is lost: nothing will ever close it.

* `Sound` — no handle has two owners, an object finds its handles open, and handles that are open
  have been used;
* `Change` — objects are destroyed, others are created, some handles are closed and some opened;
* `Evolves` — what any number of changes have in common: a new handle is one that has not been used
  before, and only a handle that has an owner is closed or passed on.

So what has been closed stays closed (`Evolves.gone`), what has been lost stays lost
(`Evolves.lost_subset`), and a change loses nothing just when the objects it creates take over
everything it leaves open (`Change.lossless_iff`).
-/

namespace Ownership

variable {ο α : Type*}

/-- The objects there are, the handles that are open, and those that have ever been used. -/
structure State (ο α : Type*) where
  objects : Set ο
  opened : Set α
  used : Set α

/-- The handles of some objects. -/
def heldBy (holds : ο → Set α) (xs : Set ο) : Set α := {a | ∃ x ∈ xs, a ∈ holds x}

section

variable (holds : ο → Set α)

/-- The handles that are open and have no owner. -/
def State.lost (s : State ο α) : Set α := s.opened \ heldBy holds s.objects

/-- The objects share no handles, and theirs are open. -/
structure Sound (s : State ο α) : Prop where
  unique : ∀ {x y : ο} {a : α}, x ∈ s.objects → y ∈ s.objects → a ∈ holds x → a ∈ holds y → x = y
  held_subset : heldBy holds s.objects ⊆ s.opened
  opened_subset : s.opened ⊆ s.used

/-- What changes of a state have in common. -/
structure Evolves (s s' : State ο α) : Prop where
  fresh : ∀ a ∈ s'.opened, a ∉ s.opened → a ∉ s.used
  used_subset : s.used ⊆ s'.used
  adopted : ∀ a ∈ heldBy holds s'.objects, a ∈ s.opened → a ∈ heldBy holds s.objects
  closed : ∀ a ∈ s.opened, a ∉ s'.opened → a ∈ heldBy holds s.objects

/-- The objects `dead` are destroyed, which closes the handles `closed`, the handles `made` are
opened, and the objects `born` are created, holding some of these and of what the dead ones leave
open. -/
structure Change (s s' : State ο α) (dead born : Set ο) (closed made : Set α) : Prop where
  objects : s'.objects = s.objects \ dead ∪ born
  opened : s'.opened = s.opened \ closed ∪ made
  used : s.used ⊆ s'.used
  made_used : made ⊆ s'.used
  dead_subset : dead ⊆ s.objects
  closed_subset : closed ⊆ heldBy holds dead
  fresh : ∀ a ∈ made, a ∉ s.used
  taken : heldBy holds born ⊆ heldBy holds dead \ closed ∪ made
  apart : ∀ {x y : ο} {a : α}, x ∈ born → y ∈ born → a ∈ holds x → a ∈ holds y → x = y

end

variable {holds : ο → Set α} {s s' s'' : State ο α}

theorem heldBy_mono {xs ys : Set ο} (h : xs ⊆ ys) : heldBy holds xs ⊆ heldBy holds ys := by
  rintro a ⟨x, hx, ha⟩
  exact ⟨x, h hx, ha⟩

@[simp] theorem heldBy_empty : heldBy holds ∅ = ∅ := by
  ext a
  exact ⟨fun ⟨_, hx, _⟩ => hx, fun ha => ha.elim⟩

@[simp] theorem heldBy_singleton (x : ο) : heldBy holds {x} = holds x := by
  ext a
  constructor
  · rintro ⟨y, rfl, ha⟩
    exact ha
  · intro ha
    exact ⟨x, rfl, ha⟩

/-! ### States over time -/

theorem Evolves.refl (s : State ο α) : Evolves holds s s where
  fresh _ ha hnot := absurd ha hnot
  used_subset := Set.Subset.rfl
  adopted _ ha _ := ha
  closed _ ha hnot := absurd ha hnot

theorem Evolves.trans (h : Evolves holds s s') (h' : Evolves holds s' s'') :
    Evolves holds s s'' := by
  refine ⟨fun a ha hnot => ?_, h.used_subset.trans h'.used_subset, fun a ha hopen => ?_,
    fun a hopen hnot => ?_⟩
  · by_cases hmid : a ∈ s'.opened
    · exact h.fresh a hmid hnot
    · intro hused
      exact h'.fresh a ha hmid (h.used_subset hused)
  · by_cases hmid : a ∈ s'.opened
    · exact h.adopted a (h'.adopted a ha hmid) hopen
    · exact h.closed a hopen hmid
  · by_cases hmid : a ∈ s'.opened
    · exact h.adopted a (h'.closed a hmid hnot) hopen
    · exact h.closed a hopen hmid

/-- What is closed stays closed. -/
theorem Evolves.gone (h : Evolves holds s s') {a : α} (hused : a ∈ s.used) (hnot : a ∉ s.opened) :
    a ∉ s'.opened := by
  intro ha
  exact h.fresh a ha hnot hused

/-- What is lost stays lost. -/
theorem Evolves.lost_subset (h : Evolves holds s s') : s.lost holds ⊆ s'.lost holds := by
  rintro a ⟨hopen, hfree⟩
  refine ⟨?_, fun hheld => hfree (h.adopted a hheld hopen)⟩
  by_contra hnot
  exact hfree (h.closed a hopen hnot)

/-- Nothing is lost altogether if nothing is lost on the way. -/
theorem Evolves.lossless_trans (h : Evolves holds s s') (h' : Evolves holds s' s'') :
    s''.lost holds ⊆ s.lost holds ↔
      s'.lost holds ⊆ s.lost holds ∧ s''.lost holds ⊆ s'.lost holds := by
  constructor
  · intro hsub
    exact ⟨h'.lost_subset.trans hsub, hsub.trans h.lost_subset⟩
  · rintro ⟨h₁, h₂⟩
    exact h₂.trans h₁

/-! ### One change -/

section Change

variable {dead born : Set ο} {closed made : Set α}

/-- Who survives a change holds nothing the dead held. -/
theorem Sound.not_dead (hs : Sound holds s) (h : Change holds s s' dead born closed made) {x : ο}
    {a : α} (hx : x ∈ s.objects \ dead) (ha : a ∈ holds x) : a ∉ heldBy holds dead := by
  rintro ⟨d, hd, had⟩
  obtain rfl := hs.unique hx.1 (h.dead_subset hd) ha had
  exact hx.2 hd

theorem Sound.used (hs : Sound holds s) {x : ο} {a : α} (hx : x ∈ s.objects) (ha : a ∈ holds x) :
    a ∈ s.used :=
  hs.opened_subset (hs.held_subset ⟨x, hx, ha⟩)

/-- Who survives a change holds nothing that is passed on or opened. -/
theorem Sound.not_taken (hs : Sound holds s) (h : Change holds s s' dead born closed made) {x : ο}
    {a : α} (hx : x ∈ s.objects \ dead) (ha : a ∈ holds x) : a ∉ heldBy holds born := by
  intro hborn
  rcases h.taken hborn with ⟨hdead, -⟩ | hmade
  · exact hs.not_dead h hx ha hdead
  · exact h.fresh a hmade (hs.used hx.1 ha)

theorem Change.sound (h : Change holds s s' dead born closed made) (hs : Sound holds s) :
    Sound holds s' := by
  refine ⟨fun {x y a} hx hy hax hay => ?_, ?_, ?_⟩
  · rw [h.objects] at hx hy
    -- two survivors, a survivor and a newborn, two newborns
    rcases hx with hx | hx <;> rcases hy with hy | hy
    · exact hs.unique hx.1 hy.1 hax hay
    · exact absurd ⟨y, hy, hay⟩ (hs.not_taken h hx hax)
    · exact absurd ⟨x, hx, hax⟩ (hs.not_taken h hy hay)
    · exact h.apart hx hy hax hay
  · rintro a ⟨x, hx, ha⟩
    rw [h.opened]
    rw [h.objects] at hx
    rcases hx with hx | hx
    · refine .inl ⟨hs.held_subset ⟨x, hx.1, ha⟩, fun hclosed => ?_⟩
      exact hs.not_dead h hx ha (h.closed_subset hclosed)
    · rcases h.taken ⟨x, hx, ha⟩ with ⟨hdead, hclosed⟩ | hmade
      · exact .inl ⟨hs.held_subset (heldBy_mono h.dead_subset hdead), hclosed⟩
      · exact .inr hmade
  · rw [h.opened]
    rintro a (⟨ha, -⟩ | ha)
    · exact h.used (hs.opened_subset ha)
    · exact h.made_used ha

theorem Change.evolves (h : Change holds s s' dead born closed made) (hs : Sound holds s) :
    Evolves holds s s' := by
  refine ⟨fun a ha hnot => ?_, h.used, ?_, fun a ha hnot => ?_⟩
  · rw [h.opened] at ha
    rcases ha with ⟨ha, -⟩ | ha
    · exact absurd ha hnot
    · exact h.fresh a ha
  · rintro a ⟨x, hx, ha⟩ hopen
    rw [h.objects] at hx
    rcases hx with hx | hx
    · exact ⟨x, hx.1, ha⟩
    · rcases h.taken ⟨x, hx, ha⟩ with ⟨hdead, -⟩ | hmade
      · exact heldBy_mono h.dead_subset hdead
      · exact absurd (hs.opened_subset hopen) (h.fresh a hmade)
  · -- it was one of those closed
    have hclosed : a ∈ closed := by
      by_contra hkept
      rw [h.opened] at hnot
      exact hnot (.inl ⟨ha, hkept⟩)
    exact heldBy_mono h.dead_subset (h.closed_subset hclosed)

/-- What a change loses: what it leaves open or opens, unless a new object holds it. -/
theorem Change.lost_eq (h : Change holds s s' dead born closed made) (hs : Sound holds s) :
    s'.lost holds = s.lost holds ∪ (heldBy holds dead \ closed ∪ made) \ heldBy holds born := by
  ext a
  constructor
  · rintro ⟨hopen, hfree⟩
    have hborn : a ∉ heldBy holds born := by
      rintro ⟨x, hx, ha⟩
      exact hfree ⟨x, by rw [h.objects]; exact .inr hx, ha⟩
    rw [h.opened] at hopen
    rcases hopen with ⟨hopen, hclosed⟩ | hmade
    · by_cases hheld : a ∈ heldBy holds s.objects
      · -- its owner has died
        obtain ⟨x, hx, ha⟩ := hheld
        have hdead : x ∈ dead := by
          by_contra hlive
          exact hfree ⟨x, by rw [h.objects]; exact .inl ⟨hx, hlive⟩, ha⟩
        exact .inr ⟨.inl ⟨⟨x, hdead, ha⟩, hclosed⟩, hborn⟩
      · exact .inl ⟨hopen, hheld⟩
    · exact .inr ⟨.inr hmade, hborn⟩
  · -- what the survivors do not hold, only a new object can
    have hfree : a ∉ heldBy holds born → (∀ x ∈ s.objects \ dead, a ∉ holds x) →
        a ∉ heldBy holds s'.objects := by
      rintro hborn hlive ⟨x, hx, ha⟩
      rw [h.objects] at hx
      rcases hx with hx | hx
      · exact hlive x hx ha
      · exact hborn ⟨x, hx, ha⟩
    rintro (hlost | ⟨⟨hdead, hclosed⟩ | hmade, hborn⟩)
    · exact (h.evolves hs).lost_subset hlost
    · refine ⟨?_, hfree hborn fun x hx ha => hs.not_dead h hx ha hdead⟩
      rw [h.opened]
      exact .inl ⟨hs.held_subset (heldBy_mono h.dead_subset hdead), hclosed⟩
    · refine ⟨?_, hfree hborn fun x hx ha => h.fresh a hmade (hs.used hx.1 ha)⟩
      rw [h.opened]
      exact .inr hmade

/-- A change loses nothing if the new objects hold everything it leaves open or opens. -/
theorem Change.lossless_iff (h : Change holds s s' dead born closed made) (hs : Sound holds s) :
    s'.lost holds ⊆ s.lost holds ↔ heldBy holds dead \ closed ∪ made ⊆ heldBy holds born := by
  rw [h.lost_eq hs]
  constructor
  · intro hsub a ha
    by_contra hborn
    obtain ⟨hopen, hfree⟩ := hsub (.inr ⟨ha, hborn⟩)
    rcases ha with ⟨hdead, -⟩ | hmade
    · exact hfree (heldBy_mono h.dead_subset hdead)
    · exact h.fresh a hmade (hs.opened_subset hopen)
  · rintro hsub a (hlost | ⟨ha, hborn⟩)
    · exact hlost
    · exact absurd (hsub ha) hborn

end Change

end Ownership
