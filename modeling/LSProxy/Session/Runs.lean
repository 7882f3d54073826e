import LSProxy.Model.Runs
import LSProxy.Session.Refinement

/-!
# Invariants of runs

Every run of a connection is a run of sessions, so an invariant of runs needs one proof over the
rules of `Session.Step` (`Run.invariant`). An invariant may speak about the trace so far, and a
property that holds only of runs whose events all meet a condition is an invariant that starts
with that condition (`Run.invariant_of`).

A property of connections that holds throughout a run (`Throughout`) is compared with a kind of
event that spoils it: without such events it holds throughout (`Run.throughout`), and where it
holds throughout there are none (`Run.of_throughout`).
-/

namespace LSProxy

open Session

variable {cfg : Config} {L : Llhttp}

/-- The outcome of a session stands for what has become of a connection. -/
def Outcome.Represents : Outcome cfg L → Status cfg L → Prop
  | .live s, .live c => Rep s c
  | .deleted, .deleted => True
  | .crashed f, .crashed f' => f = f'
  | _, _ => False

/-- A new connection is in the initial session, whatever history buffer it was given. -/
theorem represents_acceptNew (pool : List (Hist cfg)) (id : ℕ) :
    (Outcome.live (Session.initial cfg L)).Represents
      (.live (Connection.acceptNew L pool id).1) := by
  cases pool with
  | nil => exact Rep.fresh Hybridbuf.new_at
  | cons h pool => exact Rep.fresh (Hybridbuf.clear_at h.buf)

/-- One event of a connection is a step of its session. -/
theorem fire_step {s : Session cfg L} {c : Connection cfg L} {cb : Callback} (hrep : Rep s c)
    (hen : c.enabled cb = true) (io : Io) (g : Scratch cfg.sockIoBufSize)
    (pool : List (Hist cfg)) :
    ∃ out, Step s cb io (c.fire cb io g pool).calls out ∧
      out.Represents (c.fire cb io g pool).status := by
  obtain ⟨calls, out, hstep, ha⟩ := callback_refines hrep hen g pool [] io
  refine ⟨out, ?_⟩
  unfold Connection.fire
  unfold Agrees at ha
  split at ha
  · next hrun =>
    rw [hrun]
    refine ⟨?_, ha.1⟩
    rw [Effect.of, ha.2.1]
    exact hstep
  · next hrun =>
    rw [hrun]
    refine ⟨?_, trivial⟩
    rw [Effect.of, ha.1]
    exact hstep
  · next hrun =>
    rw [hrun]
    refine ⟨?_, ha.1.symm⟩
    rw [Effect.of, ha.2]
    exact hstep
  · exact ha.elim

/-- **Invariants of runs.** What holds at the start and is preserved by every step of a session
holds along every run of a connection. -/
theorem RunFrom.invariant {I : List (Entry cfg L) → Outcome cfg L → Prop} {st₀ : Status cfg L}
    {out₀ : Outcome cfg L} (hrep₀ : out₀.Represents st₀) (init : I [] out₀)
    (step : ∀ {tr s c cb io calls out}, I tr (.live s) → Rep s c → Step s cb io calls out →
      I (tr ++ [⟨c, cb, io, calls⟩]) out)
    {tr : List (Entry cfg L)} {st : Status cfg L} (h : RunFrom st₀ tr st) :
    ∃ out, out.Represents st ∧ I tr out := by
  induction h with
  | start => exact ⟨out₀, hrep₀, init⟩
  | fire io g pool _ hen ih =>
    obtain ⟨out, hrep, hI⟩ := ih
    cases out with
    | live s =>
      obtain ⟨out', hstep, hrep'⟩ := fire_step hrep hen io g pool
      exact ⟨out', hrep', step hI hrep hstep⟩
    | deleted => exact hrep.elim
    | crashed f => exact hrep.elim

/-- Invariants of the runs whose events all meet the condition `P`. -/
theorem RunFrom.invariant_of {P : Entry cfg L → Prop}
    {I : List (Entry cfg L) → Outcome cfg L → Prop} {st₀ : Status cfg L} {out₀ : Outcome cfg L}
    (hrep₀ : out₀.Represents st₀) (init : I [] out₀)
    (step : ∀ {tr s c cb io calls out}, I tr (.live s) → Rep s c → Step s cb io calls out →
      P ⟨c, cb, io, calls⟩ → I (tr ++ [⟨c, cb, io, calls⟩]) out)
    {tr : List (Entry cfg L)} {st : Status cfg L} (h : RunFrom st₀ tr st) (hP : ∀ e ∈ tr, P e) :
    ∃ out, out.Represents st ∧ I tr out := by
  obtain ⟨out, hrep, hI⟩ := h.invariant (I := fun tr out => (∀ e ∈ tr, P e) → I tr out) hrep₀
    (fun _ => init)
    (fun hI hrep hstep hP => step (hI fun e he => hP e (List.mem_append_left _ he)) hrep hstep
      (hP _ (by simp)))
  exact ⟨out, hrep, hI hP⟩

/-- Invariants of the runs from `accept_new` on. -/
theorem Run.invariant {I : List (Entry cfg L) → Outcome cfg L → Prop}
    (init : I [] (.live (Session.initial cfg L)))
    (step : ∀ {tr s c cb io calls out}, I tr (.live s) → Rep s c → Step s cb io calls out →
      I (tr ++ [⟨c, cb, io, calls⟩]) out)
    {tr : List (Entry cfg L)} {st : Status cfg L} (h : Run tr st) :
    ∃ out, out.Represents st ∧ I tr out := by
  obtain ⟨pool, id, h⟩ := h
  exact h.invariant (represents_acceptNew pool id) init step

theorem Run.invariant_of {P : Entry cfg L → Prop} {I : List (Entry cfg L) → Outcome cfg L → Prop}
    (init : I [] (.live (Session.initial cfg L)))
    (step : ∀ {tr s c cb io calls out}, I tr (.live s) → Rep s c → Step s cb io calls out →
      P ⟨c, cb, io, calls⟩ → I (tr ++ [⟨c, cb, io, calls⟩]) out)
    {tr : List (Entry cfg L)} {st : Status cfg L} (h : Run tr st) (hP : ∀ e ∈ tr, P e) :
    ∃ out, out.Represents st ∧ I tr out := by
  obtain ⟨pool, id, h⟩ := h
  exact h.invariant_of (represents_acceptNew pool id) init step hP

/-- A live connection is represented by a session. -/
theorem Outcome.Represents.live {out : Outcome cfg L} {c : Connection cfg L}
    (h : out.Represents (.live c)) : ∃ s, out = .live s ∧ Rep s c := by
  cases out with
  | live s => exact ⟨s, rfl, h⟩
  | deleted => exact h.elim
  | crashed f => exact h.elim

/-- A run of one event is a step of the session. -/
theorem RunFrom.step {st₀ st : Status cfg L} {e : Entry cfg L} {out₀ : Outcome cfg L}
    (h : RunFrom st₀ [e] st) (hrep₀ : out₀.Represents st₀) :
    ∃ s out, out₀ = .live s ∧ Rep s e.conn ∧ Step s e.cb e.io e.calls out ∧
      out.Represents st := by
  generalize htr : [e] = tr at h
  cases h with
  | start => exact absurd htr (by simp)
  | @fire tr c cb io g pool h hen =>
    rw [← List.nil_append [e]] at htr
    obtain ⟨rfl, he⟩ := List.append_inj' htr rfl
    obtain rfl := List.head_eq_of_cons_eq he
    obtain rfl := h.of_nil
    obtain ⟨s, rfl, hrep⟩ := hrep₀.live
    obtain ⟨out, hstep, hout⟩ := fire_step hrep hen io g pool
    exact ⟨s, out, rfl, hrep, hstep, hout⟩

/-- **At an event of a run** the invariant holds of what came before, and the event is a step of the
session that the connection is in. -/
theorem Run.step_of {P : Entry cfg L → Prop} {I : List (Entry cfg L) → Outcome cfg L → Prop}
    (init : I [] (.live (Session.initial cfg L)))
    (step : ∀ {tr s c cb io calls out}, I tr (.live s) → Rep s c → Step s cb io calls out →
      P ⟨c, cb, io, calls⟩ → I (tr ++ [⟨c, cb, io, calls⟩]) out)
    {pre post : List (Entry cfg L)} {e : Entry cfg L} {st : Status cfg L}
    (h : Run (pre ++ e :: post) st) (hP : ∀ x ∈ pre, P x) :
    ∃ s out, I pre (.live s) ∧ Rep s e.conn ∧ Step s e.cb e.io e.calls out := by
  obtain ⟨st₁, hpre, hpost⟩ := h.split
  obtain ⟨out₁, hrep₁, hI⟩ := hpre.invariant_of init step hP
  have hcons : RunFrom st₁ ([e] ++ post) st := hpost
  obtain ⟨st₂, he, -⟩ := hcons.split
  obtain ⟨s, out, rfl, hrep, hstep, -⟩ := he.step hrep₁
  exact ⟨s, out, hI, hrep, hstep⟩

/-! ### Properties of every state -/

/-- `Q` holds of the connection between any two events of a run, and at its end. -/
def Throughout (Q : Connection cfg L → Prop) (tr : List (Entry cfg L)) (st : Status cfg L) :
    Prop :=
  (∀ e ∈ tr, Q e.conn) ∧ ∀ c, st = .live c → Q c

section Throughout

variable {Q : Connection cfg L → Prop} {R : Phase cfg L → Prop} {spoils : Entry cfg L → Bool}
  (hQ : ∀ {s : Session cfg L} {c : Connection cfg L}, Rep s c → (Q c ↔ R s.phase))

include hQ

/-- **A property that only some events spoil** holds throughout a run without such events. -/
theorem Run.throughout (init : R .fresh)
    (step : ∀ {s c cb io calls s'}, R s.phase → Rep s c → Step s cb io calls (.live s') →
      spoils ⟨c, cb, io, calls⟩ = false → R s'.phase)
    {tr : List (Entry cfg L)} {st : Status cfg L} (h : Run tr st)
    (hok : ∀ e ∈ tr, spoils e = false) : Throughout Q tr st := by
  obtain ⟨out, hrep, htr, hlive⟩ := h.invariant_of
    (I := fun tr out => (∀ e ∈ tr, Q e.conn) ∧ ∀ s, out = .live s → R s.phase)
    (P := fun e => spoils e = false)
    ⟨by simp, fun s hs => Outcome.live.inj hs ▸ init⟩
    (by
      rintro tr s c cb io calls out ⟨htr, hlive⟩ hrep hstep hnot
      have hs := hlive s rfl
      refine ⟨fun e he => ?_, fun s' hs' => ?_⟩
      · rcases List.mem_append.mp he with he | he
        · exact htr e he
        · obtain rfl := List.mem_singleton.mp he
          exact (hQ hrep).mpr hs
      · subst hs'
        exact step hs hrep hstep hnot)
    hok
  refine ⟨htr, ?_⟩
  rintro c rfl
  obtain ⟨s, rfl, hrep⟩ := hrep.live
  exact (hQ hrep).mpr (hlive s rfl)

/-- **Events that spoil a property** do not occur where it holds throughout. -/
theorem Run.of_throughout {P : Entry cfg L → Prop}
    (step : ∀ {s c cb io calls out}, Rep s c → Step s cb io calls out → P ⟨c, cb, io, calls⟩ →
      spoils ⟨c, cb, io, calls⟩ = true → ∃ s', out = .live s' ∧ ¬ R s'.phase)
    {tr : List (Entry cfg L)} {st : Status cfg L} (h : Run tr st) (hP : ∀ e ∈ tr, P e)
    (hall : Throughout Q tr st) : ∀ e ∈ tr, spoils e = false := by
  obtain ⟨out, hrep, hI⟩ := h.invariant_of (P := P)
    (I := fun tr out => (∀ e ∈ tr, Q e.conn) → (∀ s, out = .live s → R s.phase) →
      ∀ e ∈ tr, spoils e = false)
    (fun _ _ e he => absurd he List.not_mem_nil)
    (by
      intro tr s c cb io calls out hI hrep hstep hp hall hout e he
      have hs : R s.phase := (hQ hrep).mp (hall ⟨c, cb, io, calls⟩ (by simp))
      rcases List.mem_append.mp he with he | he
      · refine hI (fun e he => hall e (List.mem_append_left _ he)) (fun s' hs' => ?_) e he
        obtain rfl := Outcome.live.inj hs'
        exact hs
      · obtain rfl := List.mem_singleton.mp he
        cases hbad : spoils ⟨c, cb, io, calls⟩ with
        | false => rfl
        | true =>
          obtain ⟨s', rfl, hnot⟩ := step hrep hstep hp hbad
          exact absurd (hout s' rfl) hnot)
    hP
  refine hI hall.1 fun s hs => ?_
  subst hs
  cases st with
  | live c => exact (hQ hrep).mp (hall.2 c rfl)
  | deleted => exact hrep.elim
  | crashed f => exact hrep.elim

end Throughout

end LSProxy
