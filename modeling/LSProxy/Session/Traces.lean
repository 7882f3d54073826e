import LSProxy.Lib.Simulation
import LSProxy.Safety.Isolation

/-!
# Connections and sessions have the same traces

What can be seen of an event of a connection is the callback, the results of its system calls and
what it does on the sockets (`Entry.observed`). A connection and the session it is in simulate each
other event by event, so they have the same traces.

* `Fires` — one event of a connection, as a transition of its status;
* `Session.Takes` — one step of a session, as a transition of its outcome;
* `trace_equivalence` — what the callbacks do over a whole run is what the sessions allow, and
  everything the sessions allow is done.
-/

namespace LSProxy

open Session Simulation

variable {cfg : Config} {L : Llhttp}

/-- What can be seen of an event. -/
structure Observation where
  cb : Callback
  io : Io
  calls : List Call

/-- What can be seen of an entry of a trace. -/
def Entry.observed (e : Entry cfg L) : Observation := ⟨e.cb, e.io, e.calls⟩

/-! ### The two systems -/

/-- One event of a connection, with the shared buffers in any state. -/
inductive Fires : Status cfg L → Observation → Status cfg L → Prop
  | fire {c : Connection cfg L} {cb : Callback} (io : Io) (g : Scratch cfg.sockIoBufSize)
      (pool : List (Hist cfg)) (hen : c.enabled cb = true) :
      Fires (.live c) ⟨cb, io, (c.fire cb io g pool).calls⟩ (c.fire cb io g pool).status

/-- One step of a session. -/
inductive Session.Takes : Outcome cfg L → Observation → Outcome cfg L → Prop
  | step {s : Session cfg L} {cb : Callback} {io : Io} {calls : List Call} {out : Outcome cfg L}
      (h : Step s cb io calls out) : Takes (.live s) ⟨cb, io, calls⟩ out

/-- The runs of a connection are those of the transitions of its status. -/
theorem runs_fires {st₀ st : Status cfg L} {obs : List Observation} :
    Runs Fires st₀ obs st ↔ ∃ tr, RunFrom st₀ tr st ∧ tr.map (·.observed) = obs := by
  constructor
  · intro h
    induction h with
    | start => exact ⟨[], .start, rfl⟩
    | step _ hstep ih =>
      obtain ⟨tr, htr, rfl⟩ := ih
      cases hstep with
      | fire io g pool hen => exact ⟨_, .fire io g pool htr hen, by simp [Entry.observed]⟩
  · rintro ⟨tr, htr, rfl⟩
    induction htr with
    | start => exact .start
    | fire io g pool _ hen ih =>
      rw [List.map_append]
      exact .step ih (.fire io g pool hen)

/-! ### The simulations -/

/-- An event of a connection is a step of its session. -/
theorem fires_simulated : SimulatesEach (@Fires cfg L) Session.Takes
    fun st out => out.Represents st := by
  rintro st out obs st' hrep ⟨io, g, pool, hen⟩
  obtain ⟨s, rfl, hrep⟩ := hrep.live
  obtain ⟨out', hstep, hrep'⟩ := fire_step hrep hen io g pool
  exact ⟨out', .step hstep, hrep'⟩

/-- **A step of a session is taken by every connection that is in it**, whatever the shared buffers
hold. -/
theorem takes_simulated : SimulatesEach (@Session.Takes cfg L) Fires
    fun out st => out.Represents st := by
  rintro out st obs out' hrep hstep
  cases hstep with
  | @step s cb io calls out' hstep =>
    cases st with
    | deleted => exact hrep.elim
    | crashed f => exact hrep.elim
    | live c =>
      have hen := hstep.enabled hrep
      obtain ⟨out₁, hstep₁, hrep₁⟩ := fire_step hrep hen io (.zero _) []
      -- the session decides what is done
      obtain ⟨rfl, rfl⟩ := hstep.unique hstep₁
      exact ⟨_, .fire io (.zero _) [] hen, hrep₁⟩

/-- A run of a connection is a run of its session. -/
theorem RunFrom.takes {st₀ st : Status cfg L} {out₀ : Outcome cfg L} {tr : List (Entry cfg L)}
    (h : RunFrom st₀ tr st) (hrep : out₀.Represents st₀) :
    ∃ out, Runs Takes out₀ (tr.map (·.observed)) out ∧ out.Represents st :=
  fires_simulated.runs (runs_fires.mpr ⟨tr, h, rfl⟩) hrep

/-- A run of a session is one of every connection that is in it. -/
theorem Session.runs_fired {st₀ : Status cfg L} {out₀ out : Outcome cfg L}
    {obs : List Observation} (h : Runs Takes out₀ obs out) (hrep : out₀.Represents st₀) :
    ∃ tr st, RunFrom st₀ tr st ∧ tr.map (·.observed) = obs ∧ out.Represents st := by
  obtain ⟨st, hrun, hout⟩ := takes_simulated.runs h hrep
  obtain ⟨tr, htr, hobs⟩ := runs_fires.mp hrun
  exact ⟨tr, st, htr, hobs, hout⟩

/-- What is given to an event: the callback and the results of its system calls. -/
def Observation.input (o : Observation) : Callback × Io := (o.cb, o.io)

/-- What a session does, and what becomes of it, is decided by what its events are given. -/
theorem Session.takes_unique {out₀ out out' : Outcome cfg L} {obs obs' : List Observation}
    (h : Runs Takes out₀ obs out) (h' : Runs Takes out₀ obs' out')
    (hinput : obs.map (·.input) = obs'.map (·.input)) : obs = obs' ∧ out = out' := by
  induction h generalizing obs' out' with
  | start =>
    obtain rfl : obs' = [] := by simpa using hinput.symm
    exact ⟨rfl, h'.of_nil.symm⟩
  | @step obs out₁ out₂ o _ hstep ih =>
    cases h' with
    | start => exact absurd hinput (by simp)
    | @step obs₁ out₁' _ o' h' hstep' =>
      rw [List.map_append, List.map_append] at hinput
      obtain ⟨hpre, hlast⟩ := List.append_inj' hinput rfl
      obtain ⟨rfl, rfl⟩ := ih h' hpre
      obtain ⟨hcb, hio⟩ := Prod.mk.inj (List.head_eq_of_cons_eq hlast)
      cases hstep with
      | step hstep =>
      cases hstep' with
      | step hstep' =>
      cases hcb
      cases hio
      obtain ⟨rfl, rfl⟩ := hstep.unique hstep'
      exact ⟨rfl, rfl⟩

/-- **Trace equivalence.** The callbacks of a connection, from `accept_new` on and whatever the
pool and the scratch buffer hold before each event, show just the traces the sessions have. Two
runs that are given the same show the same, and end in the same session. -/
theorem trace_equivalence (cfg : Config) (L : Llhttp) :
    (∀ obs, (∃ (tr : List (Entry cfg L)) (st : Status cfg L), Run tr st ∧
        tr.map (·.observed) = obs) ↔
      ∃ out : Outcome cfg L, Runs Takes (.live (Session.initial cfg L)) obs out) ∧
    ∀ (tr tr' : List (Entry cfg L)) (st st' : Status cfg L), Run tr st → Run tr' st' →
      tr.map (·.observed.input) = tr'.map (·.observed.input) →
      tr.map (·.observed) = tr'.map (·.observed) ∧
        ∃ out : Outcome cfg L, out.Represents st ∧ out.Represents st' := by
  refine ⟨fun obs => ⟨?_, ?_⟩, ?_⟩
  · rintro ⟨tr, st, ⟨pool, id, h⟩, rfl⟩
    obtain ⟨out, hrun, -⟩ := h.takes (represents_acceptNew pool id)
    exact ⟨out, hrun⟩
  · rintro ⟨out, hrun⟩
    obtain ⟨tr, st, h, hobs, -⟩ := Session.runs_fired hrun (represents_acceptNew [] 0)
    exact ⟨tr, st, ⟨[], 0, h⟩, hobs⟩
  · rintro tr tr' st st' ⟨pool, id, h⟩ ⟨pool', id', h'⟩ hinput
    obtain ⟨out, hrun, hrep⟩ := h.takes (represents_acceptNew pool id)
    obtain ⟨out', hrun', hrep'⟩ := h'.takes (represents_acceptNew pool' id')
    -- one session takes both, so they cannot differ
    obtain ⟨hobs, rfl⟩ := Session.takes_unique hrun hrun'
      (by simpa [Function.comp_def] using hinput)
    exact ⟨hobs, out, hrep, hrep'⟩

end LSProxy
