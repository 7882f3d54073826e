import Mathlib.Data.Finset.Option
import Mathlib.Data.Finset.Union
import LSProxy.Model.Process

/-!
# The loops over all connections

`monitor_data_rates` and the end of `main` go through the set that `get_all_connections` has put
together from the registered events. The set is an `unordered_set` of pointers, so the order of a
loop is any.

* `Process.getAllConnections` — `get_all_connections`;
* `Process.visit` — what a loop does to one connection;
* `Process.monitorDataRates`, `Process.clearUp` — the two loops, in a given order.
-/

namespace LSProxy

variable {cfg : Config} {L : Llhttp}

/-- `delete conn` outside the callbacks of the connection. -/
def Connection.deletion (conn : Connection cfg L) (io : Io)
    (globalBuffer : Scratch cfg.sockIoBufSize) (pool : List (Hist cfg)) : Effect cfg L :=
  .of ((Connection.delete io).run ⟨globalBuffer, pool, conn, []⟩)

namespace Process

/-- `get_all_connections`. -/
def getAllConnections (ps : Process cfg L) : Finset ℕ :=
  ps.registered.biUnion (·.associatedConn.toFinset)

/-- What has been done to connection `b` is over: it had the effect `e`. -/
def finish (ps : Process cfg L) (b : ℕ) (conn : Connection cfg L) (io : Io) (e : Effect cfg L) :
    Except Failure (Process cfg L) :=
  ((ps.proxy.settle b e).map fun px => ⟨px, ps.callbackTable b conn io e⟩).mapError .fault

/-- What `run` does to connection `b`, which a loop has come to. If the connection has been deleted,
its memory is looked into. -/
def visit (run : Connection cfg L → Io → Scratch cfg.sockIoBufSize → List (Hist cfg) → Effect cfg L)
    (ios : ℕ → Io) (ps : Process cfg L) (b : ℕ) : Except Failure (Process cfg L) :=
  (ps.proxy.conns b).elim (.error (.dead b)) fun conn =>
    ps.finish b conn (ios b) (run conn (ios b) ps.proxy.globalBuffer ps.proxy.pool)

/-- `monitor_data_rates`, in the order `conns`. -/
def monitorDataRates (ios : ℕ → Io) (ps : Process cfg L) (conns : List ℕ) :
    Except Failure (Process cfg L) :=
  conns.foldlM (visit (fun conn io => conn.fire .monitor io) ios) ps

/-- The loop at the end of `main`, in the order `conns`. -/
def clearUp (ios : ℕ → Io) (ps : Process cfg L) (conns : List ℕ) : Except Failure (Process cfg L) :=
  conns.foldlM (visit (fun conn io => conn.deletion io) ios) ps

/-! ### A visit -/

section Visit

variable {run : Connection cfg L → Io → Scratch cfg.sockIoBufSize → List (Hist cfg) → Effect cfg L}
  {ios : ℕ → Io} {ps ps' : Process cfg L} {b : ℕ} {f : Failure}

theorem visit_none (hc : ps.proxy.conns b = none) : visit run ios ps b = .error (.dead b) := by
  rw [visit, hc, Option.elim_none]

theorem visit_some {c : Connection cfg L} (hc : ps.proxy.conns b = some c) :
    visit run ios ps b =
      ps.finish b c (ios b) (run c (ios b) ps.proxy.globalBuffer ps.proxy.pool) := by
  rw [visit, hc, Option.elim_some]

theorem visit_ok (h : visit run ios ps b = .ok ps') :
    ∃ c px', ps.proxy.conns b = some c ∧
      ps.proxy.settle b (run c (ios b) ps.proxy.globalBuffer ps.proxy.pool) = .ok px' ∧
      ps' = ⟨px', ps.callbackTable b c (ios b)
        (run c (ios b) ps.proxy.globalBuffer ps.proxy.pool)⟩ := by
  cases hc : ps.proxy.conns b with
  | none =>
    rw [visit_none hc] at h
    cases h
  | some c =>
    rw [visit_some hc, finish] at h
    cases hsettle : ps.proxy.settle b (run c (ios b) ps.proxy.globalBuffer ps.proxy.pool) with
    | ok px' =>
      rw [hsettle] at h
      exact ⟨c, px', rfl, hsettle, (Except.ok.inj h).symm⟩
    | error f =>
      rw [hsettle] at h
      cases h

theorem visit_error (h : visit run ios ps b = .error f) :
    (ps.proxy.conns b = none ∧ f = .dead b) ∨ ∃ c f', ps.proxy.conns b = some c ∧
      ps.proxy.settle b (run c (ios b) ps.proxy.globalBuffer ps.proxy.pool) = .error f' ∧
      f = .fault f' := by
  cases hc : ps.proxy.conns b with
  | none =>
    rw [visit_none hc] at h
    exact .inl ⟨rfl, (Except.error.inj h).symm⟩
  | some c =>
    rw [visit_some hc, finish] at h
    cases hsettle : ps.proxy.settle b (run c (ios b) ps.proxy.globalBuffer ps.proxy.pool) with
    | ok px' =>
      rw [hsettle] at h
      cases h
    | error f' =>
      rw [hsettle] at h
      exact .inr ⟨c, f', rfl, hsettle, (Except.error.inj h).symm⟩

end Visit

/-- A visit by `monitor_data_rates` is a callback of the connection. -/
theorem callback_of_visit {ios : ℕ → Io} {ps ps' : Process cfg L} {b : ℕ}
    (h : visit (fun conn io => conn.fire .monitor io) ios ps b = .ok ps') :
    ∃ c, ps.proxy.conns b = some c ∧ ps.callback b c .monitor (ios b) = .ok ps' := by
  obtain ⟨c, px', hc, hsettle, rfl⟩ := visit_ok h
  refine ⟨c, hc, ?_⟩
  unfold callback
  dsimp only
  rw [hsettle]

end Process

end LSProxy
