import Mathlib.Data.List.Basic

/-!
# First-in first-out channels

Events put elements into a channel (`src`) and take elements out of it (`dst`).

* `Carries src dst q es q'` — a channel that holds `q` before the events `es` holds `q'` after
  them, with nothing lost, repeated or overtaken on the way: what was in it and what goes in is what
  comes out and what is in it;
* `Relays src dst q es q'` — the same of a channel that may lose what it holds and what is put into
  it, but does nothing else to it: what comes out, followed by what is left, is a subsequence of
  what was in it, followed by what goes in.

A channel without loss relays (`Carries.relays`). Runs of either kind compose, what comes out of an
empty channel without loss is a prefix of what goes in (`Carries.isPrefix`), and what comes out of
an empty one with loss a subsequence of it (`Relays.sublist`).
-/

variable {ε α : Type*} {src dst : ε → List α} {q q' q'' : List α} {es es' : List ε}

/-- The channel holds `q` before the events and `q'` after them. -/
def Carries (src dst : ε → List α) (q : List α) (es : List ε) (q' : List α) : Prop :=
  q ++ es.flatMap src = es.flatMap dst ++ q'

/-- The channel holds `q` before the events and `q'` after them, and may have lost something. -/
def Relays (src dst : ε → List α) (q : List α) (es : List ε) (q' : List α) : Prop :=
  (es.flatMap dst ++ q').Sublist (q ++ es.flatMap src)

/-! ### Without loss -/

namespace Carries

/-- Events that neither put nor take leave the channel alone. -/
theorem idle (hsrc : es.flatMap src = []) (hdst : es.flatMap dst = []) :
    Carries src dst q es q := by
  unfold Carries
  rw [hsrc, hdst, List.append_nil, List.nil_append]

/-- One run after another. -/
theorem append (h : Carries src dst q es q') (h' : Carries src dst q' es' q'') :
    Carries src dst q (es ++ es') q'' := by
  unfold Carries at *
  rw [List.flatMap_append, List.flatMap_append, ← List.append_assoc, h, List.append_assoc, h',
    List.append_assoc]

/-- Of what is put into an empty channel a prefix has come out. -/
theorem isPrefix (h : Carries src dst [] es q) : es.flatMap dst <+: es.flatMap src := ⟨q, h.symm⟩

/-- A channel without loss is one that may lose something. -/
theorem relays (h : Carries src dst q es q') : Relays src dst q es q' := by
  unfold Carries at h
  unfold Relays
  rw [h]

end Carries

/-! ### With loss -/

namespace Relays

/-- What is left is lost. -/
theorem lose (h : Relays src dst q es q') (hsub : q''.Sublist q') : Relays src dst q es q'' :=
  ((List.Sublist.refl _).append hsub).trans h

/-- One run after another. -/
theorem append (h : Relays src dst q es q') (h' : Relays src dst q' es' q'') :
    Relays src dst q (es ++ es') q'' := by
  unfold Relays at *
  rw [List.flatMap_append, List.flatMap_append]
  calc
    (es.flatMap dst ++ es'.flatMap dst ++ q'').Sublist
        (es.flatMap dst ++ (q' ++ es'.flatMap src)) := by
      rw [List.append_assoc]
      exact (List.Sublist.refl _).append h'
    List.Sublist _ (q ++ es.flatMap src ++ es'.flatMap src) := by
      rw [← List.append_assoc]
      exact h.append (List.Sublist.refl _)
    _ = _ := List.append_assoc ..

/-- What comes out of an empty channel comes in the order in which it has been put in, and no more
often. -/
theorem sublist (h : Relays src dst [] es q) : (es.flatMap dst).Sublist (es.flatMap src) :=
  (List.sublist_append_left ..).trans h

/-- What is left in it has been put in. -/
theorem length_le (h : Relays src dst [] es q) : q.length ≤ (es.flatMap src).length :=
  ((List.sublist_append_right ..).trans h).length_le

end Relays
