import Mathlib.Data.List.TakeDrop
import Mathlib.Data.List.Induction

/-!
# Tapes

A tape is a list with one cursor. What is stored at its end is appended and the cursor stays at
the end; what is fetched is read on from the cursor; the cursor can be set back to the beginning,
and the tape can be cleared.

* `Tape.after t e` — the tape that the event `e` leaves;
* `Tape.Allows t e` — what an event returns is what the tape says it returns: a fetch reads on
  from the cursor, and returns nothing exactly at the end;
* `Tape.Run t₀ es t` — allowed events, one after another.

In a run, what is fetched after the cursor has been set back is the content from its beginning
(`Run.reading`), up to the first fetch that returns nothing, and no further (`Run.reading_end`).
-/

/-- A list and a cursor into it. -/
structure Tape (α : Type*) where
  content : List α
  pos : ℕ

namespace Tape

variable {α : Type*}

/-- What happens at a tape, with what comes back of it. -/
inductive Event (α : Type*)
  /-- `xs` is stored where the cursor stands. -/
  | stored (xs : List α)
  /-- A fetch returns `xs`. -/
  | fetched (xs : List α)
  /-- The cursor goes back to the beginning. -/
  | rewound
  /-- The content is dropped. -/
  | cleared
  /-- The tape is read from the beginning to the end, and `xs` is what comes of it. -/
  | copied (xs : List α)

/-- The empty tape. -/
def blank : Tape α := ⟨[], 0⟩

/-- The tape that an event leaves. -/
@[simp] def after (t : Tape α) : Event α → Tape α
  | .stored xs => ⟨t.content ++ xs, (t.content ++ xs).length⟩
  | .fetched xs => ⟨t.content, t.pos + xs.length⟩
  | .rewound => ⟨t.content, 0⟩
  | .cleared => blank
  | .copied _ => ⟨t.content, t.content.length⟩

/-- The cursor stands at the end. -/
def AtEnd (t : Tape α) : Prop := t.pos = t.content.length

/-- Storing is for the end of the tape, a fetch reads on and returns nothing exactly at the end,
a copy is of the whole content. -/
@[simp] def Allows (t : Tape α) : Event α → Prop
  | .stored _ => t.AtEnd
  | .fetched xs => xs <+: t.content.drop t.pos ∧ (xs = [] ↔ t.AtEnd)
  | .copied xs => xs = t.content
  | _ => True

/-- The tape that events leave, one after another. -/
def follow (t : Tape α) (es : List (Event α)) : Tape α := es.foldl after t

/-- What has been stored since the tape was last cleared. -/
def storedIn (es : List (Event α)) : List α :=
  es.foldl (fun xs e => match e with
    | .stored ys => xs ++ ys
    | .cleared => []
    | _ => xs) []

/-- Allowed events, one after another. -/
inductive Run (t₀ : Tape α) : List (Event α) → Tape α → Prop
  | start : Run t₀ [] t₀
  | step {es : List (Event α)} {t : Tape α} {e : Event α} (h : Run t₀ es t) (he : t.Allows e) :
      Run t₀ (es ++ [e]) (t.after e)

@[simp] theorem follow_concat (t : Tape α) (es : List (Event α)) (e : Event α) :
    t.follow (es ++ [e]) = (t.follow es).after e := by
  unfold follow
  rw [List.foldl_append, List.foldl_cons, List.foldl_nil]

/-- The content is what has been stored. -/
theorem follow_content (es : List (Event α)) : (blank.follow es).content = storedIn es := by
  induction es using List.reverseRecOn with
  | nil => rfl
  | append_singleton es e ih =>
    rw [follow_concat]
    unfold storedIn at ih ⊢
    rw [List.foldl_append, List.foldl_cons, List.foldl_nil, ← ih]
    cases e <;> rfl

/-- Reading stores nothing. -/
theorem storedIn_reading (pre : List (Event α)) (pieces : List (List α)) :
    storedIn (pre ++ .rewound :: pieces.map .fetched) = storedIn pre := by
  have hfetched : ∀ xs : List α, (pieces.map Event.fetched).foldl (fun xs e => match e with
      | .stored ys => xs ++ ys
      | .cleared => []
      | _ => xs) xs = xs := by
    intro xs
    induction pieces with
    | nil => rfl
    | cons _ _ ih => exact ih
  unfold storedIn
  rw [List.foldl_append, List.foldl_cons]
  exact hfetched _

variable {t₀ t : Tape α}

/-- A run ends with its last event. -/
theorem Run.of_concat {es : List (Event α)} {e : Event α} (h : Run t₀ (es ++ [e]) t) :
    ∃ t₁, Run t₀ es t₁ ∧ t₁.Allows e ∧ t = t₁.after e := by
  generalize hes : es ++ [e] = es' at h
  cases h with
  | start => exact absurd hes (by simp)
  | step h he =>
    obtain ⟨rfl, heq⟩ := List.append_inj' hes rfl
    obtain rfl := List.singleton_inj.mp heq
    exact ⟨_, h, he, rfl⟩

/-- **What is fetched after rewinding is the content from its beginning.** -/
theorem Run.reading {pre : List (Event α)} {pieces : List (List α)}
    (h : Run t₀ (pre ++ .rewound :: pieces.map .fetched) t) :
    pieces.flatten <+: t.content ∧ t.pos = pieces.flatten.length := by
  induction pieces using List.reverseRecOn generalizing t with
  | nil =>
    obtain ⟨t₁, -, -, rfl⟩ := h.of_concat
    exact ⟨List.nil_prefix, rfl⟩
  | append_singleton pieces xs ih =>
    rw [List.map_append, ← List.cons_append, ← List.append_assoc] at h
    obtain ⟨t₁, h₁, ⟨hxs, -⟩, rfl⟩ := h.of_concat
    obtain ⟨⟨rest, hrest⟩, hpos⟩ := ih h₁
    show (pieces ++ [xs]).flatten <+: t₁.content ∧ t₁.pos + xs.length = _
    rw [hpos, ← hrest, List.drop_left] at hxs
    rw [List.flatten_concat, List.length_append, hpos, ← hrest]
    exact ⟨(List.prefix_append_right_inj _).mpr hxs, rfl⟩

/-- **Nothing is returned exactly at the end.** -/
theorem Run.reading_end {pre : List (Event α)} {pieces : List (List α)} {xs : List α}
    (h : Run t₀ (pre ++ .rewound :: (pieces ++ [xs]).map .fetched) t) :
    xs = [] ↔ pieces.flatten = t.content := by
  rw [List.map_append, ← List.cons_append, ← List.append_assoc] at h
  obtain ⟨t₁, h₁, ⟨-, hend⟩, rfl⟩ := h.of_concat
  obtain ⟨hpre, hpos⟩ := h₁.reading
  show xs = [] ↔ pieces.flatten = t₁.content
  rw [hend, AtEnd, hpos]
  exact ⟨hpre.eq_of_length, fun heq => by rw [heq]⟩

end Tape
