import Mathlib.Data.Finset.Card
import Mathlib.Data.List.Count

/-!
# Lending from a pool

Clients come and go, and each is lent one thing when it is admitted: one from the pool while there
is any, else a new one. A client may give its thing back before it leaves. What is given back goes
to the pool, or is thrown away; the pool takes at most `cap`, and at most `limit` clients are
admitted at a time.

* `Step cap limit s e s'` — the event `e` turns the state `s` into `s'`;
* `Run cap limit s₀ es s` — the events `es`, one after another.

New things are made only when the pool is empty, so all there is then is with the clients: that is
why the things together never outnumber the clients that may be admitted (`Sound.total_le`).
-/

namespace Lending

variable {α : Type*} {cap limit : ℕ}

/-- How much is in the pool, who the clients are, and which of them hold something. -/
structure State (α : Type*) where
  pooled : ℕ
  clients : Finset α
  holders : Finset α

/-- What happens at a pool. -/
inductive Event (α : Type*)
  | admitted (a : α)
  | returned (a : α)
  | left (a : α)
  deriving DecidableEq

/-- The bounds on the pool, on the clients, and on what there is. -/
structure Sound (cap limit : ℕ) (s : State α) : Prop where
  pooled_le : s.pooled ≤ cap
  clients_le : s.clients.card ≤ limit
  holders_subset : s.holders ⊆ s.clients
  total_le : s.pooled + s.holders.card ≤ limit

/-- A pool that nothing has been lent from. -/
theorem Sound.initial {k : ℕ} (hcap : k ≤ cap) (hlimit : k ≤ limit) :
    Sound cap limit (⟨k, ∅, ∅⟩ : State α) :=
  ⟨hcap, Nat.zero_le _, Finset.Subset.refl _, hlimit⟩

variable [DecidableEq α]

/-- One event. -/
inductive Step (cap limit : ℕ) : State α → Event α → State α → Prop
  | reuse {k : ℕ} {cs hs : Finset α} {a : α} (hnew : a ∉ cs) (hlimit : cs.card < limit) :
      Step cap limit ⟨k + 1, cs, hs⟩ (.admitted a) ⟨k, insert a cs, insert a hs⟩
  | fresh {cs hs : Finset α} {a : α} (hnew : a ∉ cs) (hlimit : cs.card < limit) :
      Step cap limit ⟨0, cs, hs⟩ (.admitted a) ⟨0, insert a cs, insert a hs⟩
  | pooled {k : ℕ} {cs hs : Finset α} {a : α} (hheld : a ∈ hs) (hcap : k < cap) :
      Step cap limit ⟨k, cs, hs⟩ (.returned a) ⟨k + 1, cs, hs.erase a⟩
  | discarded {k : ℕ} {cs hs : Finset α} {a : α} (hheld : a ∈ hs) :
      Step cap limit ⟨k, cs, hs⟩ (.returned a) ⟨k, cs, hs.erase a⟩
  | left {k : ℕ} {cs hs : Finset α} {a : α} (hclient : a ∈ cs) (hfree : a ∉ hs) :
      Step cap limit ⟨k, cs, hs⟩ (.left a) ⟨k, cs.erase a, hs⟩

/-- A list of events, from the state `s₀` on. -/
inductive Run (cap limit : ℕ) (s₀ : State α) : List (Event α) → State α → Prop
  | start : Run cap limit s₀ [] s₀
  | step {es : List (Event α)} {s s' : State α} {e : Event α} (h : Run cap limit s₀ es s)
      (hs : Step cap limit s e s') : Run cap limit s₀ (es ++ [e]) s'

theorem Run.append {s₀ s s' : State α} {es es' : List (Event α)} (h : Run cap limit s₀ es s)
    (h' : Run cap limit s es' s') : Run cap limit s₀ (es ++ es') s' := by
  induction h' with
  | start =>
    rw [List.append_nil]
    exact h
  | step _ hs ih =>
    rw [← List.append_assoc]
    exact .step ih hs

theorem Step.sound {s s' : State α} {e : Event α} (hs : Step cap limit s e s')
    (h : Sound cap limit s) : Sound cap limit s' := by
  obtain ⟨hpool, hclients, hsub, htotal⟩ := h
  cases hs with
  | @reuse k cs hs a hnew hlimit =>
    -- what a newcomer takes, nobody holds
    have hfree : a ∉ hs := fun hheld => hnew (hsub hheld)
    refine ⟨Nat.le_of_succ_le hpool, ?_, Finset.insert_subset_insert a hsub, ?_⟩
    · show (insert a cs).card ≤ limit
      rw [Finset.card_insert_of_notMem hnew]
      exact hlimit
    · show k + (insert a hs).card ≤ limit
      rw [Finset.card_insert_of_notMem hfree, ← Nat.add_assoc, Nat.add_right_comm]
      exact htotal
  | @fresh cs hs a hnew hlimit =>
    have hfree : a ∉ hs := fun hheld => hnew (hsub hheld)
    refine ⟨hpool, ?_, Finset.insert_subset_insert a hsub, ?_⟩
    · show (insert a cs).card ≤ limit
      rw [Finset.card_insert_of_notMem hnew]
      exact hlimit
    · -- the pool is empty, so there is one thing for each holder
      show 0 + (insert a hs).card ≤ limit
      rw [Finset.card_insert_of_notMem hfree, Nat.zero_add]
      exact Nat.lt_of_le_of_lt (Finset.card_le_card hsub) hlimit
  | @pooled k cs hs a hheld hcap =>
    refine ⟨hcap, hclients, (Finset.erase_subset a hs).trans hsub, ?_⟩
    show k + 1 + (hs.erase a).card ≤ limit
    rw [Nat.add_assoc, Nat.add_comm 1, Finset.card_erase_add_one hheld]
    exact htotal
  | @discarded k cs hs a hheld =>
    refine ⟨hpool, hclients, (Finset.erase_subset a hs).trans hsub, ?_⟩
    exact (Nat.add_le_add_left (Finset.card_erase_le) k).trans htotal
  | @left k cs hs a hclient hfree =>
    refine ⟨hpool, Finset.card_erase_le.trans hclients, fun b hb => ?_, htotal⟩
    exact Finset.mem_erase.mpr ⟨fun heq => hfree (heq ▸ hb), hsub hb⟩

/-- **The bounds hold throughout.** -/
theorem Run.sound {s₀ s : State α} {es : List (Event α)} (h : Run cap limit s₀ es s)
    (h₀ : Sound cap limit s₀) : Sound cap limit s := by
  induction h with
  | start => exact h₀
  | step _ hs ih => exact hs.sound ih

/-- One event, counted for one client. -/
theorem Step.count {s s' : State α} {e : Event α} (hs : Step cap limit s e s')
    (hsub : s.holders ⊆ s.clients) (a : α) :
    [e].count (.returned a) + (if a ∈ s'.holders then 1 else 0)
      = [e].count (.admitted a) + (if a ∈ s.holders then 1 else 0) := by
  have lent : ∀ {cs hs : Finset α} {b : α}, b ∉ cs → hs ⊆ cs →
      [Event.admitted b].count (.returned a) + (if a ∈ insert b hs then 1 else 0)
        = [Event.admitted b].count (.admitted a) + (if a ∈ hs then 1 else 0) := by
    intro cs hs b hnew hsub
    by_cases hab : a = b
    · subst hab
      have hfree : a ∉ hs := fun hheld => hnew (hsub hheld)
      simp [hfree]
    · simp [hab, Ne.symm hab]
  have given : ∀ {hs : Finset α} {b : α}, b ∈ hs →
      [Event.returned b].count (.returned a) + (if a ∈ hs.erase b then 1 else 0)
        = [Event.returned b].count (.admitted a) + (if a ∈ hs then 1 else 0) := by
    intro hs b hheld
    by_cases hab : a = b
    · subst hab
      simp [hheld]
    · simp [hab, Ne.symm hab]
  -- leaving counts for nothing, since who leaves holds nothing
  cases hs with
  | reuse hnew | fresh hnew => exact lent hnew hsub
  | pooled hheld | discarded hheld => exact given hheld
  | left => simp

/-- **What a client gives back it was lent**: it has given back as often as it was admitted, less
what it still holds. -/
theorem Run.count {s₀ s : State α} {es : List (Event α)} (h : Run cap limit s₀ es s)
    (h₀ : Sound cap limit s₀) (a : α) :
    es.count (.returned a) + (if a ∈ s.holders then 1 else 0)
      = es.count (.admitted a) + (if a ∈ s₀.holders then 1 else 0) := by
  induction h with
  | start => rfl
  | @step es s s' e hrun hs ih =>
    have hone := hs.count (hrun.sound h₀).holders_subset a
    rw [List.count_append, List.count_append]
    omega

end Lending
