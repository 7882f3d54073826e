import LSProxy.Session.Runs

/-!
# Phases and pointers

The two properties of a connection's shape.

* `phase_unique` — between callbacks a live connection is in exactly one of seven phases, each of
  which fixes the pointers that are set and the events that are pending;
* `null_free` — no callback dereferences a null pointer in a run in which the transition does not
  free a queue that the server's writing event still needs. Two slips of the source do that:
  `Server::on_writable` logs the size of the queue it has just freed, and `set_slow_mode` frees an
  empty queue without removing the event.
-/

namespace LSProxy

open Session

variable {cfg : Config} {L : Llhttp}

/-! ### Phases -/

/-- The phases of a connection. -/
inductive PhaseName
  | fresh
  | fastActive
  | fastReplyOnly
  | transition
  | slowIdle
  | slowExchange
  | slowReplyOnly
  deriving DecidableEq, Repr

/-- `request_buf`, `request_tmp_buf` and `response_buf` are there. -/
def Connection.HasSlowBuffers (c : Connection cfg L) : Prop :=
  c.client.requestBuf.isSome ∧ c.client.requestTmpBuf.isSome ∧ c.client.responseBuf.isSome

/-- What a connection looks like in each phase. -/
def Connection.InPhase (c : Connection cfg L) : PhaseName → Prop
  | .fresh =>
    c.fastMode = true ∧ c.parser = none ∧ c.server = none ∧ c.client.readEvt = true
  | .fastActive =>
    c.fastMode = true ∧ c.parser.isSome ∧ ∃ s, c.server = some s ∧ s.queuedOutput.isSome ∧
      c.client.queuedOutput.isSome ∧ (c.client.readEvt ^^ s.writeEvt) = true ∧
      (s.readEvt ^^ c.client.writeEvt) = true
  | .fastReplyOnly =>
    c.fastMode = true ∧ c.parser = none ∧ c.server = none ∧ c.client.queuedOutput.isSome ∧
      c.client.readEvt = false ∧ c.client.writeEvt = true
  | .transition =>
    c.fastMode = false ∧ c.inTransition = true ∧ c.parser.isSome ∧ c.HasSlowBuffers ∧
      c.client.readEvt = false ∧ ∃ s, c.server = some s ∧ s.readEvt = true
  | .slowIdle =>
    c.fastMode = false ∧ c.inTransition = false ∧
      (∃ p, c.parser = some p ∧ p.settings = .request) ∧ c.server = none ∧ c.HasSlowBuffers ∧
      c.client.readEvt = true
  | .slowExchange =>
    c.fastMode = false ∧ c.inTransition = false ∧
      (∃ p, c.parser = some p ∧ p.settings = .response) ∧ c.HasSlowBuffers ∧
      c.client.readEvt = false ∧ ∃ s, c.server = some s ∧ s.readEvt = true
  | .slowReplyOnly =>
    c.fastMode = false ∧ c.inTransition = false ∧ c.parser = none ∧ c.server = none ∧
      c.HasSlowBuffers ∧ c.client.readEvt = false ∧ c.client.writeEvt = true

/-- The settings the parser has in each phase. -/
def Phase.ParserMode : Phase cfg L → Prop
  | .fast p .. | .transition p .. | .idle p .. => p.settings = .request
  | .exchange p .. => p.settings = .response
  | _ => True

/-- The outcome is not a session whose parser has the wrong settings. -/
def Outcome.ParserMode : Outcome cfg L → Prop
  | .live s => s.phase.ParserMode
  | _ => True

theorem Session.SlowSwitch.parserMode {io : Io} {ph ph' : Phase cfg L}
    (h : SlowSwitch io ph (.ok ph')) (hm : ph.ParserMode) : ph'.ParserMode := by
  cases h with
  | fresh => rfl
  | reply => rfl
  | fast => exact hm

/-- Every step leaves the parser in the mode of the new phase. -/
theorem Session.Step.parserMode {s : Session cfg L} {cb : Callback} {io : Io} {calls : List Call}
    {out : Outcome cfg L} (h : Step s cb io calls out) (hm : s.phase.ParserMode) :
    out.ParserMode := by
  cases h with
  | freshConnect _ h =>
    cases h <;> first | trivial | exact HttpParser.doParse_settings ‹_›
  | fastClientReadable h =>
    cases h <;> first | trivial | exact (HttpParser.doParse_settings ‹_›).trans hm
  | fastServerReadable h => cases h <;> trivial
  | idleRead _ _ hp => exact (HttpParser.doParse_settings hp).trans hm
  | idleDispatch _ _ _ _ h => cases h <;> trivial
  | exchangeEnd => rfl
  | exchangeRead _ _ hp => exact (HttpParser.doParse_settings hp).trans hm
  | monitorSwitch _ _ _ h => exact h.parserMode hm
  | signalSwitch h => exact h.parserMode hm
  | _ => trivial

/-- The phase a session is in, by name. -/
def Phase.name : Phase cfg L → PhaseName
  | .fresh => .fresh
  | .fast .. => .fastActive
  | .reply _ => .fastReplyOnly
  | .transition .. => .transition
  | .idle .. => .slowIdle
  | .exchange .. => .slowExchange
  | .slowReply .. => .slowReplyOnly

/-- A represented connection is in the phase of its session. -/
theorem Rep.inPhase {s : Session cfg L} {c : Connection cfg L} (hrep : Rep s c)
    (hm : s.phase.ParserMode) : c.InPhase s.phase.name := by
  have hslow : ∀ (n : Counts) (b : SlowBufs) (re we : Bool)
      (stale : Option (Circularbuf cfg.sockIoBufSize)) (sv : Option (Server cfg))
      (p : Option (HttpParser L)) (f t : Bool),
      Connection.HasSlowBuffers ⟨slowClient n b re we stale, sv, p, f, t⟩ :=
    fun _ _ _ _ _ _ _ _ _ => ⟨rfl, rfl, rfl⟩
  cases hrep with
  | fresh => exact ⟨rfl, rfl, rfl, rfl⟩
  | fast => exact ⟨rfl, rfl, _, rfl, rfl, rfl, by simp, by simp⟩
  | reply => exact ⟨rfl, rfl, rfl, rfl, rfl, rfl⟩
  | transition => exact ⟨rfl, rfl, rfl, hslow .., rfl, _, rfl, rfl⟩
  | idle => exact ⟨rfl, rfl, ⟨_, rfl, hm⟩, rfl, hslow .., rfl⟩
  | exchange => exact ⟨rfl, rfl, ⟨_, rfl, hm⟩, hslow .., rfl, _, rfl, rfl⟩
  | slowReply => exact ⟨rfl, rfl, rfl, rfl, hslow .., rfl, rfl⟩

/-- The phases exclude each other. -/
theorem Connection.InPhase.unique {c : Connection cfg L} {ph ph' : PhaseName} (h : c.InPhase ph)
    (h' : c.InPhase ph') : ph = ph' := by
  cases ph <;> cases ph' <;> first | rfl | grind [Connection.InPhase]

/-- **Phase invariant.** Between callbacks a live connection is in exactly one phase. -/
theorem phase_unique {tr : List (Entry cfg L)} {c : Connection cfg L} (h : Run tr (.live c)) :
    ∃! ph, c.InPhase ph := by
  obtain ⟨out, hrep, hm⟩ := h.invariant (I := fun _ out => out.ParserMode) trivial
    (fun hI _ hstep => hstep.parserMode hI)
  obtain ⟨s, rfl, hrep⟩ := hrep.live
  exact ⟨s.phase.name, hrep.inPhase hm, fun ph hph => hph.unique (hrep.inPhase hm)⟩

/-- In a run that reaches the transition it is the phase of the connection. -/
theorem phase_unique_transition :
    ∃ (tr : List (Entry .shipped .bodiless)) (c : Connection .shipped .bodiless),
      Run tr (.live c) ∧ c.inTransition = true ∧ ∃! ph, c.InPhase ph := by
  obtain ⟨tr, st, hrun, hst⟩ := exists_run (L := .bodiless)
    [(.clientReadable, { clientReads := [.data (ascii "GET /")] }), (.slowSwitch, {})]
    (fun (_ : List (Entry .shipped _)) st => st.isLiveWith (·.inTransition)) (by decide +kernel)
  obtain ⟨c, rfl, hc⟩ := Status.isLiveWith_iff.mp hst
  exact ⟨tr, c, hrun, hc, phase_unique hrun⟩

/-! ### Null pointers -/

/-- The event runs `set_slow_mode` on a connection in fast mode. -/
def Entry.switches (e : Entry cfg L) : Bool :=
  e.conn.fastMode &&
    match e.cb with
    | .slowSwitch => true
    | .monitor =>
      !(decide (e.conn.client.writeCount < cfg.minDown) &&
          decide (e.conn.client.readCount < cfg.minDown)) &&
        decide (e.conn.client.readCount + e.conn.client.writeCount < cfg.minDtr)
    | _ => false

theorem Rep.switches_signal {n : Counts} {ph : Phase cfg L} {c : Connection cfg L}
    (hrep : Rep ⟨n, ph⟩ c) (hfast : ph.isFast = true) (io : Io) (calls : List Call) :
    Entry.switches ⟨c, .slowSwitch, io, calls⟩ = true := by
  simp [Entry.switches, hrep.fastMode, hfast]

theorem Rep.switches_monitor {n : Counts} {ph : Phase cfg L} {c : Connection cfg L}
    (hrep : Rep ⟨n, ph⟩ c) (hfast : ph.isFast = true)
    (hkeep : ¬ (n.write < cfg.minDown ∧ n.read < cfg.minDown))
    (hslow : n.read + n.write < cfg.minDtr) (io : Io) (calls : List Call) :
    Entry.switches ⟨c, .monitor, io, calls⟩ = true := by
  obtain ⟨hread, hwrite⟩ := hrep.counts
  have hkeep' : (decide (n.write < cfg.minDown) && decide (n.read < cfg.minDown)) = false := by
    rw [← Bool.decide_and, decide_eq_false_iff_not]
    exact hkeep
  simp only [Entry.switches, hrep.fastMode, hfast, hread, hwrite, hkeep', hslow, Bool.true_and,
    Bool.not_false, decide_true]

/-- `set_slow_mode` finds the server's queue empty and its writing event pending: it frees the
queue and leaves the event. -/
def Entry.strandsWriteEvent (e : Entry cfg L) : Bool :=
  e.switches &&
    e.conn.server.any fun s => s.writeEvt && s.queuedOutput.any (·.dataSize == 0)

/-- `Server::on_writable` fires in the transition and the socket takes all that is queued: the
queue is freed and its size is logged. -/
def Entry.drainsQueue (e : Entry cfg L) : Bool :=
  e.cb == .serverWritable && e.conn.inTransition &&
    e.conn.server.any fun s => s.queuedOutput.any fun q =>
      match q.writeAllTo e.io.serverWrites with
      | .ok (q', _) => q'.dataSize == 0
      | .error _ => false

/-- No null pointer has been dereferenced, and in the transition a pending writing event of the
server has its queue. -/
def Outcome.QueueKept : Outcome cfg L → Prop
  | .live s => ∀ p b cw sw, s.phase = .transition p b none cw sw → sw = false
  | .deleted => True
  | .crashed f => ∀ p, f ≠ .null p

theorem recorded_error {io : Io} {p : HttpParser L} {hist data : Bytes} {f : Fault}
    (h : recorded cfg io p hist data = .error f) : f = .errorExit := by
  unfold recorded at h
  split at h <;> exact Hybridbuf.stored_error h

/-- A switch to slow mode fails only by `ERROR_EXIT`. -/
theorem Session.SlowSwitch.error {io : Io} {ph : Phase cfg L} {f : Fault}
    (h : SlowSwitch io ph (.error f)) : f = .errorExit := by
  cases h with
  | copyFault hcopy => exact Hybridbuf.copied_error hcopy
  | @dumpFault _ _ _ cq _ _ _ _ _ hdump =>
    rcases cq.dumpAll_spec io.disk with ⟨herr, -⟩ | ⟨_, _, hok, -⟩
    · exact Except.error.inj (hdump.symm.trans herr)
    · exact absurd (hdump.symm.trans hok) (by simp)

/-- A switch that strands no event gives a transition that keeps the queue of a pending one. -/
theorem Session.SlowSwitch.queueKept {io : Io} {n n' : Counts} {ph ph' : Phase cfg L}
    {c : Connection cfg L} (h : SlowSwitch io ph (.ok ph')) (hrep : Rep ⟨n, ph⟩ c)
    (hc : (c.server.any fun s => s.writeEvt && s.queuedOutput.any (·.dataSize == 0)) = false) :
    (Outcome.live ⟨n', ph'⟩).QueueKept := by
  cases h with
  | fresh => exact fun _ _ _ _ h => absurd h (by simp)
  | reply => exact fun _ _ _ _ h => absurd h (by simp)
  | @fast p _ _ _ cq cq' sq cw sw =>
    intro p b cw' sw' heq
    cases hrep with
    | fast =>
      obtain ⟨-, -, hsq, -, rfl⟩ := Phase.transition.inj heq
      have hnil : sq.contents = [] := by
        by_contra hne
        rw [if_neg hne] at hsq
        exact absurd hsq (by simp)
      simpa [hnil, (Circularbuf.dataSize_eq_zero_iff sq).mpr hnil] using hc

/-- One step outside the two slips. -/
theorem Session.Step.queueKept {s : Session cfg L} {c : Connection cfg L} {cb : Callback} {io : Io}
    {calls : List Call} {out : Outcome cfg L} (h : Step s cb io calls out)
    (hk : (Outcome.live s).QueueKept) (hrep : Rep s c)
    (hs : (⟨c, cb, io, calls⟩ : Entry cfg L).strandsWriteEvent = false)
    (hd : (⟨c, cb, io, calls⟩ : Entry cfg L).drainsQueue = false) : out.QueueKept := by
  -- most steps do not lead into a transition without a queue
  have other : ∀ {n : Counts} {ph : Phase cfg L}, (∀ p b cw sw, ph ≠ .transition p b none cw sw) →
      (Outcome.live ⟨n, ph⟩).QueueKept := fun hne _ _ _ _ heq => absurd heq (hne _ _ _ _)
  have exits : ∀ {f : Fault}, f = .errorExit → (Outcome.crashed f : Outcome cfg L).QueueKept :=
    fun hf p => by rw [hf]; simp
  cases h with
  | freshRefused | replyDone | idleEof | idleMalformedDelete | exchangeMalformedDelete |
      slowReplyDone | monitorDrop => trivial
  | freshConnect _ h | fastClientReadable h =>
    cases h with
    | malformedReply => exact other (by simp)
    | malformedDelete => trivial
    | histFault _ _ hhist => exact exits (recorded_error hhist)
    | eof => trivial
    | forward => exact other (by simp)
  | fastServerReadable h =>
    cases h with
    | eofReply => exact other (by simp)
    | eofDelete => trivial
    | forward => exact other (by simp)
  | transitionFault | exchangeFault => exact exits rfl
  | idleFault _ _ _ _ hr => exact exits (Filebuf.store_error hr)
  | transitionRead | transitionDeliver =>
    intro p b cw sw heq
    obtain ⟨-, -, rfl, -, rfl⟩ := Phase.transition.inj heq
    exact hk _ _ _ _ rfl
  | transitionNull => exact absurd (hk _ _ _ _ rfl) (by simp)
  | transitionDrained hw hsq =>
    -- the socket took everything
    cases hrep with
    | transition =>
      exact absurd hd (by
        simp [Entry.drainsQueue, hw, (Circularbuf.dataSize_eq_zero_iff _).mpr hsq])
  | idleDispatch _ _ _ _ h =>
    cases h with
    | storeFault hr => exact exits (Filebuf.store_error hr)
    | tmpFault _ ht => exact exits (Filebuf.store_error ht)
    | refused => trivial
    | connect => exact other (by simp)
  | monitorSwitch hkeep hfast hslow h =>
    refine h.queueKept hrep ?_
    rwa [Entry.strandsWriteEvent, hrep.switches_monitor hfast hkeep hslow, Bool.true_and] at hs
  | signalSwitch h =>
    refine h.queueKept hrep ?_
    rwa [Entry.strandsWriteEvent, hrep.switches_signal h.isFast, Bool.true_and] at hs
  | monitorFault _ _ _ h | signalFault h => exact exits h.error
  | monitorKeep => exact hk
  | signalSlow => exact hk
  | _ => exact other (by simp)

/-- **Every pointer a callback dereferences is there**, in every run in which the transition never
frees a queue the server's writing event still needs. -/
theorem null_free {tr : List (Entry cfg L)} {st : Status cfg L} (h : Run tr st)
    (hok : ∀ e ∈ tr, e.strandsWriteEvent = false ∧ e.drainsQueue = false) :
    ∀ p, st ≠ .crashed (.null p) := by
  obtain ⟨out, hrep, hk⟩ := h.invariant_of (I := fun _ out => out.QueueKept)
    (P := fun e => e.strandsWriteEvent = false ∧ e.drainsQueue = false)
    (fun _ _ _ _ heq => absurd heq (by simp [Session.initial]))
    (fun hI hrep hstep hP => hstep.queueKept hI hrep hP.1 hP.2) hok
  rintro p rfl
  cases out with
  | live s => exact hrep
  | deleted => exact hrep
  | crashed f => exact hk p hrep

/-- A run through the transition in which the server takes only a part of its queue. -/
theorem null_free_partial :
    ∃ (tr : List (Entry .shipped .bodiless)) (st : Status .shipped .bodiless),
      Run tr st ∧ tr.length = 3 ∧ ∀ p, st ≠ .crashed (.null p) := by
  obtain ⟨tr, st, hrun, htr⟩ := exists_run (L := .bodiless)
    [(.clientReadable, { clientReads := [.data (ascii "GET / HTTP/1.1\r\n\r\n")] }),
      (.slowSwitch, {}), (.serverWritable, { serverWrites := [.wrote 3] })]
    (fun (tr : List (Entry .shipped _)) _ => tr.length == 3 &&
      tr.all fun e => !e.strandsWriteEvent && !e.drainsQueue) (by decide +kernel)
  simp only [Bool.and_eq_true, beq_iff_eq, List.all_eq_true, Bool.not_eq_true'] at htr
  exact ⟨tr, st, hrun, htr.1, null_free hrun htr.2⟩

/-- The server takes the whole queue in the transition: the log line dereferences the queue that
has just been freed. -/
theorem null_dereferenced :
    ∃ tr : List (Entry .shipped .bodiless), Run tr (.crashed (.null .serverQueuedOutput)) := by
  obtain ⟨tr, st, hrun, hst⟩ := exists_run (L := .bodiless)
    [(.clientReadable, { clientReads := [.data (ascii "GET / HTTP/1.1\r\n\r\n")] }),
      (.slowSwitch, {}), (.serverWritable, { serverWrites := [.wrote 1000] })]
    (fun (_ : List (Entry .shipped _)) st => st.isCrashed (.null .serverQueuedOutput))
    (by decide +kernel)
  obtain rfl := Status.isCrashed_iff.mp hst
  exact ⟨tr, hrun⟩

end LSProxy
