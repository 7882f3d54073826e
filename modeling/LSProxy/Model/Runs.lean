import Mathlib.Data.List.ModifyLast
import LSProxy.Model.Callbacks

/-!
# Runs of a connection

A run of one connection, from `accept_new` on: any of its events fires, in any order, with any
results of the system calls and with the shared buffers in any state, which is how it looks among
the other connections of the process. The trace of a run keeps, for each event, the connection it
found, the callback, the results of the system calls and the calls made on the sockets; what the
properties of the proxy talk about is read off the trace:

* `clientIn`, `clientOut`, `serverIn`, `serverOut` — the bytes that crossed the two sockets;
* `slowCalls` — the calls made outside fast mode;
* `streams` — the bytes written on each server connection that was opened.

`exec` runs a list of events; what it computes is a run (`run_of_exec`).
-/

namespace LSProxy

variable {cfg : Config} {L : Llhttp}

/-! ### Traces -/

/-- One event of a run: the connection it finds, the callback, the results of its system calls and
what it does on the sockets. -/
structure Entry (cfg : Config) (L : Llhttp) where
  conn : Connection cfg L
  cb : Callback
  io : Io
  calls : List Call

/-- Bytes read from the client. -/
@[simp] def Call.clientIn : Call → Bytes
  | .clientRead bs => bs
  | _ => []

/-- Bytes of the servers written to the client. The page of `reply_with_503_unavailable` is the
proxy's own. -/
@[simp] def Call.clientOut : Call → Bytes
  | .clientWrite bs => bs
  | _ => []

/-- Bytes read from a server. -/
@[simp] def Call.serverIn : Call → Bytes
  | .serverRead bs => bs
  | _ => []

/-- Bytes written to a server. -/
@[simp] def Call.serverOut : Call → Bytes
  | .serverWrite bs => bs
  | _ => []

/-- The calls of a trace, in order. -/
def callsOf (tr : List (Entry cfg L)) : List Call := tr.flatMap (·.calls)

/-- The calls made outside fast mode. -/
def slowCalls (tr : List (Entry cfg L)) : List Call := callsOf (tr.filter fun e => !e.conn.fastMode)

/-- Account for a call: a connection opens a stream, a write to the server adds to the last
one. -/
def streamStep (ss : List Bytes) : Call → List Bytes
  | .connect => ss ++ [[]]
  | .serverWrite bs => ss.modifyLast (· ++ bs)
  | _ => ss

/-- The bytes written on each server connection opened by `calls`, in opening order. What is
written before the first of them is opened belongs to none. -/
def streams (calls : List Call) : List Bytes := calls.foldl streamStep []

@[simp] theorem callsOf_nil : callsOf ([] : List (Entry cfg L)) = [] := rfl

@[simp] theorem callsOf_append (tr tr' : List (Entry cfg L)) :
    callsOf (tr ++ tr') = callsOf tr ++ callsOf tr' := by
  simp [callsOf]

@[simp] theorem callsOf_singleton (e : Entry cfg L) : callsOf [e] = e.calls := by
  simp [callsOf]

theorem slowCalls_concat (tr : List (Entry cfg L)) (e : Entry cfg L) :
    slowCalls (tr ++ [e]) = slowCalls tr ++ if e.conn.fastMode then [] else e.calls := by
  unfold slowCalls
  cases h : e.conn.fastMode <;> simp [h]

theorem streams_append (calls calls' : List Call) :
    streams (calls ++ calls') = calls'.foldl streamStep (streams calls) :=
  List.foldl_append

/-- As long as no connection is opened, what is written to a server goes to the last stream. -/
theorem foldl_streamStep_of_noConnect {calls : List Call} (h : .connect ∉ calls)
    (ss : List Bytes) (w : Bytes) :
    calls.foldl streamStep (ss ++ [w]) = ss ++ [w ++ calls.flatMap (·.serverOut)] := by
  induction calls generalizing w with
  | nil => simp
  | cons call calls ih =>
    obtain ⟨hne, hnot⟩ := not_or.mp (List.mem_cons.not.mp h)
    have hstep : streamStep (ss ++ [w]) call = ss ++ [w ++ call.serverOut] := by
      cases call with
      | connect => exact absurd rfl hne
      | serverWrite bs => exact List.modifyLast_concat ..
      | _ => simp [streamStep]
    rw [List.foldl_cons, hstep, ih hnot, List.flatMap_cons, List.append_assoc]

theorem streams_append_of_noConnect {calls calls' : List Call} (ss : List Bytes) {w : Bytes}
    (hs : streams calls = ss ++ [w]) (h : .connect ∉ calls') :
    streams (calls ++ calls') = ss ++ [w ++ calls'.flatMap (·.serverOut)] := by
  rw [streams_append, hs, foldl_streamStep_of_noConnect h]

/-! ### Runs -/

/-- What can happen to a connection from the status `st₀` on: the trace, and the status at its
end. -/
inductive RunFrom (st₀ : Status cfg L) : List (Entry cfg L) → Status cfg L → Prop
  | start : RunFrom st₀ [] st₀
  | fire {tr : List (Entry cfg L)} {conn : Connection cfg L} {cb : Callback} (io : Io)
      (globalBuffer : Scratch cfg.sockIoBufSize) (pool : List (Hist cfg))
      (h : RunFrom st₀ tr (.live conn)) (hen : conn.enabled cb = true) :
      RunFrom st₀ (tr ++ [⟨conn, cb, io, (conn.fire cb io globalBuffer pool).calls⟩])
        (conn.fire cb io globalBuffer pool).status

/-- A run of one connection: its trace, and what has become of the connection. -/
def Run (tr : List (Entry cfg L)) (st : Status cfg L) : Prop :=
  ∃ (pool : List (Hist cfg)) (id : ℕ), RunFrom (.live (Connection.acceptNew L pool id).1) tr st

/-- A run can be cut anywhere. -/
theorem RunFrom.split {st₀ st : Status cfg L} {pre post : List (Entry cfg L)}
    (h : RunFrom st₀ (pre ++ post) st) : ∃ st₁, RunFrom st₀ pre st₁ ∧ RunFrom st₁ post st := by
  generalize htr : pre ++ post = tr at h
  induction h generalizing post with
  | start =>
    obtain ⟨rfl, rfl⟩ := List.append_eq_nil_iff.mp htr
    exact ⟨st₀, .start, .start⟩
  | @fire tr conn cb io g pool h hen ih =>
    rcases List.eq_nil_or_concat post with rfl | ⟨post', e, rfl⟩
    · rw [List.append_nil] at htr
      subst htr
      exact ⟨_, .fire io g pool h hen, .start⟩
    · rw [List.concat_eq_append, ← List.append_assoc] at htr
      obtain ⟨htr', he⟩ := List.append_inj' htr rfl
      obtain ⟨st₁, hpre, hpost⟩ := ih htr'
      rw [List.concat_eq_append, he]
      exact ⟨st₁, hpre, .fire io g pool hpost hen⟩

theorem RunFrom.of_nil {st₀ st : Status cfg L} (h : RunFrom st₀ [] st) : st = st₀ := by
  generalize hnil : ([] : List (Entry cfg L)) = tr at h
  induction h with
  | start => rfl
  | fire => exact absurd hnil (by simp)

/-- An event finds a live connection. -/
theorem RunFrom.head {st₀ st : Status cfg L} {e : Entry cfg L} {tr : List (Entry cfg L)}
    (h : RunFrom st₀ (e :: tr) st) : st₀ = .live e.conn := by
  generalize htr : e :: tr = tr' at h
  induction h generalizing tr with
  | start => exact absurd htr (by simp)
  | @fire tr' conn cb io g pool h hen ih =>
    cases tr' with
    | nil =>
      obtain ⟨rfl, -⟩ := List.cons.inj htr
      exact h.of_nil.symm
    | cons x tr'' =>
      obtain ⟨rfl, -⟩ := List.cons.inj htr
      exact ih rfl

theorem Run.split {st : Status cfg L} {pre post : List (Entry cfg L)} (h : Run (pre ++ post) st) :
    ∃ st₁, Run pre st₁ ∧ RunFrom st₁ post st := by
  obtain ⟨pool, id, h⟩ := h
  obtain ⟨st₁, hpre, hpost⟩ := h.split
  exact ⟨st₁, ⟨pool, id, hpre⟩, hpost⟩

/-- Run a list of events, with the scratch buffer zeroed and the pool empty before each of them;
`none` when an event that cannot fire is in the list. -/
def exec (conn : Connection cfg L) :
    List (Callback × Io) → Option (List (Entry cfg L) × Status cfg L)
  | [] => some ([], .live conn)
  | (cb, io) :: rest =>
    if conn.enabled cb then
      let e := conn.fire cb io (.zero _) []
      match e.status with
      | .live conn' => (exec conn' rest).map fun r => (⟨conn, cb, io, e.calls⟩ :: r.1, r.2)
      | st => if rest.isEmpty then some ([⟨conn, cb, io, e.calls⟩], st) else none
    else none

theorem run_of_exec {st₀ st : Status cfg L} {conn : Connection cfg L} {tr tr' : List (Entry cfg L)}
    {events : List (Callback × Io)} (h : RunFrom st₀ tr (.live conn))
    (hex : exec conn events = some (tr', st)) : RunFrom st₀ (tr ++ tr') st := by
  induction events generalizing conn tr tr' with
  | nil =>
    obtain ⟨rfl, rfl⟩ := Prod.mk.inj (Option.some.inj hex)
    simpa using h
  | cons ev rest ih =>
    obtain ⟨cb, io⟩ := ev
    unfold exec at hex
    split at hex
    · next hen =>
      have hrun := RunFrom.fire io (.zero _) [] h hen
      simp only at hex
      split at hex
      · next conn' hst =>
        obtain ⟨⟨tr₁, st₁⟩, hex₁, heq⟩ := Option.map_eq_some_iff.mp hex
        obtain ⟨rfl, rfl⟩ := Prod.mk.inj heq
        rw [hst] at hrun
        simpa using ih hrun hex₁
      · -- the callback has deleted the connection or crashed: no event may be left
        split at hex
        · obtain ⟨rfl, rfl⟩ := Prod.mk.inj (Option.some.inj hex)
          exact hrun
        · exact absurd hex (by simp)
    · exact absurd hex (by simp)

/-- A property that can be computed is found of a run by computing one. -/
theorem exists_run (events : List (Callback × Io)) (f : List (Entry cfg L) → Status cfg L → Bool)
    (h : (exec (Connection.acceptNew L [] 0).1 events).any (fun r => f r.1 r.2) = true) :
    ∃ tr st, Run tr st ∧ f tr st = true := by
  obtain ⟨⟨tr, st⟩, hex, hf⟩ := (Option.any_eq_true ..).mp h
  exact ⟨tr, st, ⟨[], 0, by simpa using run_of_exec .start hex⟩, hf⟩

/-- The entries of a computed run have the results of the system calls it was given. -/
theorem exec_io {conn : Connection cfg L} {tr : List (Entry cfg L)} {st : Status cfg L}
    {events : List (Callback × Io)} (hex : exec conn events = some (tr, st)) :
    tr.map (·.io) = events.map (·.2) := by
  induction events generalizing conn tr with
  | nil =>
    obtain ⟨rfl, -⟩ := Prod.mk.inj (Option.some.inj hex)
    rfl
  | cons ev rest ih =>
    obtain ⟨cb, io⟩ := ev
    unfold exec at hex
    split at hex
    · simp only at hex
      split at hex
      · obtain ⟨⟨tr₁, st₁⟩, hex₁, heq⟩ := Option.map_eq_some_iff.mp hex
        obtain ⟨rfl, rfl⟩ := Prod.mk.inj heq
        simp [ih hex₁]
      · split at hex
        · next hnil =>
          obtain ⟨rfl, -⟩ := Prod.mk.inj (Option.some.inj hex)
          simp [List.isEmpty_iff.mp hnil]
        · exact absurd hex (by simp)
    · exact absurd hex (by simp)

/-- The same of a run without disk-write loss. -/
theorem exists_run_diskOk (events : List (Callback × Io))
    (f : List (Entry cfg L) → Status cfg L → Bool)
    (h : (exec (Connection.acceptNew L [] 0).1 events).any (fun r => f r.1 r.2) = true)
    (hdisk : ∀ ev ∈ events, ev.2.DiskOk) :
    ∃ tr st, Run tr st ∧ (∀ e ∈ tr, e.io.DiskOk) ∧ f tr st = true := by
  obtain ⟨⟨tr, st⟩, hex, hf⟩ := (Option.any_eq_true ..).mp h
  refine ⟨tr, st, ⟨[], 0, by simpa using run_of_exec .start hex⟩, fun e he => ?_, hf⟩
  have hmem : e.io ∈ events.map (·.2) := exec_io hex ▸ List.mem_map_of_mem he
  obtain ⟨ev, hev, heq⟩ := List.mem_map.mp hmem
  exact heq ▸ hdisk ev hev

/-- The live connection in a status, if there is one, has a property. -/
def Status.isLiveWith (st : Status cfg L) (f : Connection cfg L → Bool) : Bool :=
  match st with
  | .live c => f c
  | _ => false

theorem Status.isLiveWith_iff {st : Status cfg L} {f : Connection cfg L → Bool} :
    st.isLiveWith f = true ↔ ∃ c, st = .live c ∧ f c = true := by
  cases st <;> simp [Status.isLiveWith]

/-- The connection is gone. -/
def Status.isDeleted (st : Status cfg L) : Bool :=
  match st with
  | .deleted => true
  | _ => false

theorem Status.isDeleted_iff {st : Status cfg L} : st.isDeleted = true ↔ st = .deleted := by
  cases st <;> simp [Status.isDeleted]

/-- Take a run apart at its `n`-th event: what came before it, the event, and what comes after. -/
def cut (n : ℕ) (tr : List (Entry cfg L))
    (f : List (Entry cfg L) → Entry cfg L → List (Entry cfg L) → Bool) : Bool :=
  match tr.drop n with
  | e :: post => f (tr.take n) e post
  | [] => false

theorem of_cut {n : ℕ} {tr : List (Entry cfg L)}
    {f : List (Entry cfg L) → Entry cfg L → List (Entry cfg L) → Bool} (h : cut n tr f = true) :
    ∃ pre e post, tr = pre ++ e :: post ∧ f pre e post = true := by
  unfold cut at h
  split at h
  · next e post hdrop =>
    refine ⟨tr.take n, e, post, ?_, h⟩
    rw [← hdrop, List.take_append_drop]
  · exact absurd h (by simp)

theorem cut_append (pre post : List (Entry cfg L)) (e : Entry cfg L)
    (f : List (Entry cfg L) → Entry cfg L → List (Entry cfg L) → Bool) :
    cut pre.length (pre ++ e :: post) f = f pre e post := by
  unfold cut
  rw [List.drop_left, List.take_left]

/-- The process has gone down with the fault `f`. -/
def Status.isCrashed (st : Status cfg L) (f : Fault) : Bool :=
  match st with
  | .crashed f' => f' == f
  | _ => false

theorem Status.isCrashed_iff {st : Status cfg L} {f : Fault} :
    st.isCrashed f = true ↔ st = .crashed f := by
  cases st <;> simp [Status.isCrashed]

end LSProxy
