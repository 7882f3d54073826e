import LSProxy.Lib.Channel
import LSProxy.Safety.Phases

/-!
# Stream integrity

What goes in on one side comes out on the other, in order and once.

* `upstream_integrity` — while the first server connection is alive, what has been read from the
  client is what has been written to that server followed by what waits in its queue;
* `downstream_integrity` — over the whole life of a connection, what has been read from its
  servers is what has been written to the client, followed by what waits in the client's queue and
  by what `response_buf` still holds. It fails when `set_slow_mode` finds the connection in
  reply-only mode, whose queue it leaves behind, and when a read in the transition meets the end of
  the stream, whose bytes are not stored.
-/

namespace LSProxy

open Session

variable {cfg : Config} {L : Llhttp}

/-! ### From the client to the first server -/

/-- The bytes that wait in a queue, none if it has been freed. -/
def queued (q : Option (Circularbuf cfg.sockIoBufSize)) : Bytes := q.elim [] (·.contents)

/-- The calls made before slow mode: in fast mode and in the transition. -/
def earlyCalls (tr : List (Entry cfg L)) : List Call :=
  callsOf (tr.filter fun e => e.conn.fastMode || e.conn.inTransition)

theorem earlyCalls_concat (tr : List (Entry cfg L)) (e : Entry cfg L) :
    earlyCalls (tr ++ [e])
      = earlyCalls tr ++ if e.conn.fastMode || e.conn.inTransition then e.calls else [] := by
  unfold earlyCalls
  cases h : e.conn.fastMode || e.conn.inTransition <;> simp [h]

/-- What of the bytes read from the client still waits for the first server: in the phases before
that server is gone. -/
@[simp] def Phase.waiting : Phase cfg L → Option Bytes
  | .fresh => some []
  | .fast _ _ _ sq _ _ => some sq.contents
  | .transition _ _ sq _ _ => some (queued sq)
  | _ => none

/-- The same of an outcome. -/
@[simp] def Outcome.waiting : Outcome cfg L → Option Bytes
  | .live s => s.phase.waiting
  | _ => none

/-- The bytes `q` wait before the calls of a step; after them the bytes wait that its outcome
says. -/
def Forwards (q : Bytes) (calls : List Call) (out : Outcome cfg L) : Prop :=
  ∃ q', Carries Call.clientIn Call.serverOut q calls q' ∧
    ∀ q'', out.waiting = some q'' → q'' = q'

/-- **`copy_from` in `fast_forward` takes all that was read**: the read was limited to the space
that was left. -/
theorem copyFrom_readAll (q : Circularbuf cfg.sockIoBufSize) (results : List ReadResult) :
    (q.copyFrom (readAll results q.remainingSpace).data).1.contents
        = q.contents ++ (readAll results q.remainingSpace).data ∧
      (q.copyFrom (readAll results q.remainingSpace).data).2
        = (readAll results q.remainingSpace).data.length :=
  Circularbuf.copyFrom_fits (readAll_length_le results q.remainingSpace)

/-- What `write_all_to` writes and what it leaves make up the contents. -/
theorem contents_of_writeAllTo {size : ℕ} {q q' : Circularbuf size} {results : List WriteResult}
    {o : WriteOutcome} (h : q.writeAllTo results = .ok (q', o)) :
    q.contents = o.data ++ q'.contents := by
  obtain ⟨q₁, o₁, h₁, hpre, hdrop⟩ := q.writeAllTo_spec results
  obtain ⟨rfl, rfl⟩ := Prod.mk.inj (Except.ok.inj (h₁.symm.trans h))
  rw [hdrop]
  exact (List.prefix_iff_eq_append.mp hpre).symm

/-- What is read into a queue and written from it. -/
theorem contents_of_forward {q q' : Circularbuf cfg.sockIoBufSize} {o : ReadOutcome}
    {reads : List ReadResult} {writes : List WriteResult} {w : WriteOutcome}
    (ho : readAll reads q.remainingSpace = o)
    (hw : (q.copyFrom o.data).1.writeAllTo writes = .ok (q', w)) :
    q.contents ++ o.data = w.data ++ q'.contents := by
  rw [← contents_of_writeAllTo hw, ← ho]
  exact (copyFrom_readAll q reads).1.symm

theorem Session.FastForwardToServer.forwards {n : Counts} {p : HttpParser L} {hist : Bytes}
    {cq sq : Circularbuf cfg.sockIoBufSize} {cw : Bool} {io : Io} {calls : List Call}
    {out : Outcome cfg L} (h : FastForwardToServer n p hist cq sq cw io calls out) :
    Forwards sq.contents calls out := by
  cases h with
  | malformedReply ho | malformedDelete ho | histFault ho =>
    -- what was read last is not written
    exact ⟨_, rfl, fun _ h => absurd h (by simp)⟩
  | eof ho _ _ hw =>
    have hc := contents_of_forward ho hw
    exact ⟨_, by simpa [Carries] using hc, fun _ h => absurd h (by simp)⟩
  | forward ho _ _ hw =>
    have hc := contents_of_forward ho hw
    exact ⟨_, by simpa [Carries] using hc, fun _ h => (Option.some.inj h).symm⟩

theorem Session.SlowSwitch.forwards {io : Io} {n : Counts} {ph ph' : Phase cfg L} {q : Bytes}
    (h : SlowSwitch io ph (.ok ph')) (hq : ph.waiting = some q) :
    Forwards q [] (.live ⟨n, ph'⟩) := by
  refine ⟨q, .idle rfl rfl, fun q' hq' => ?_⟩
  cases h with
  | fresh => exact absurd hq' (by simp)
  | reply => exact absurd hq (by simp)
  | @fast _ _ _ _ _ _ sq =>
    obtain rfl := Option.some.inj hq
    obtain rfl := Option.some.inj hq'
    split
    · next hnil => simp [queued, hnil]
    · rfl

/-- One step while the first server is there, or before. -/
theorem Session.Step.forwards {s : Session cfg L} {cb : Callback} {io : Io} {calls : List Call}
    {out : Outcome cfg L} {q : Bytes} (h : Step s cb io calls out)
    (hq : s.phase.waiting = some q) : Forwards q calls out := by
  -- calls that touch neither stream leave what waits
  have still : ∀ {calls : List Call} {out : Outcome cfg L}, calls.flatMap (·.clientIn) = [] →
      calls.flatMap (·.serverOut) = [] → (∀ q', out.waiting = some q' → q' = q) →
      Forwards q calls out := fun hin hout hw => ⟨q, .idle hin hout, hw⟩
  cases h with
  | freshRefused => exact still rfl rfl (by simp)
  | freshConnect _ h =>
    obtain ⟨q', heq, hw⟩ := h.forwards
    obtain rfl := Option.some.inj hq
    exact ⟨q', heq, hw⟩
  | fastClientReadable h =>
    obtain rfl := Option.some.inj hq
    exact h.forwards
  | fastServerReadable h =>
    cases h with
    | forward => exact still rfl rfl fun _ h => Option.some.inj (h.symm.trans hq)
    | _ => exact still rfl rfl (by simp)
  | fastServerWritable hw =>
    obtain rfl := Option.some.inj hq
    exact ⟨_, by simpa [Carries] using contents_of_writeAllTo hw, by simp⟩
  | transitionDrained hw hsq =>
    obtain rfl := Option.some.inj hq
    exact ⟨_, by simpa [Carries, queued] using contents_of_writeAllTo hw, by simp⟩
  | transitionWrite hw hsq =>
    obtain rfl := Option.some.inj hq
    exact ⟨_, by simpa [Carries, queued] using contents_of_writeAllTo hw, by simp [queued]⟩
  | transitionDeliver h =>
    cases h <;> exact still rfl rfl fun _ h => Option.some.inj (h.symm.trans hq)
  | monitorDrop => exact still (by split <;> rfl) (by split <;> rfl) (by simp)
  | monitorSwitch _ _ _ h => exact h.forwards hq
  | signalSwitch h => exact h.forwards hq
  | _ => first
    | exact still rfl rfl fun _ h => Option.some.inj (h.symm.trans hq)
    | exact still rfl rfl fun _ h => (Option.some_ne_none _ h.symm).elim
    | exact (Option.some_ne_none _ hq.symm).elim

/-- Once the first server is gone it does not come back, and as long as the connection is in fast
mode nothing is read from the client or written to a server. -/
theorem Session.Step.waiting_none {s : Session cfg L} {cb : Callback} {io : Io}
    {calls : List Call} {out : Outcome cfg L} (h : Step s cb io calls out)
    (hq : s.phase.waiting = none) :
    out.waiting = none ∧ (s.phase.isFast = true → calls.flatMap (·.clientIn) = [] ∧
      calls.flatMap (·.serverOut) = []) := by
  cases h with
  | idleDispatch _ _ _ _ h => cases h <;> exact ⟨rfl, fun hf => absurd hf Bool.false_ne_true⟩
  | monitorDrop => exact ⟨rfl, fun _ => ⟨by split <;> rfl, by split <;> rfl⟩⟩
  | monitorSwitch _ _ _ h | signalSwitch h =>
    cases h with
    | reply => exact ⟨rfl, fun _ => ⟨rfl, rfl⟩⟩
    | _ => exact (Option.some_ne_none _ hq).elim
  | _ => first
    | exact (Option.some_ne_none _ hq).elim
    | exact ⟨hq, fun _ => ⟨rfl, rfl⟩⟩
    | exact ⟨rfl, fun _ => ⟨rfl, rfl⟩⟩
    | exact ⟨rfl, fun hf => absurd hf Bool.false_ne_true⟩

theorem Rep.early {s : Session cfg L} {c : Connection cfg L} (hrep : Rep s c) :
    (s.phase.waiting.isSome = true → (c.fastMode || c.inTransition) = true) ∧
      (s.phase.waiting = none → (c.fastMode || c.inTransition) = s.phase.isFast) := by
  cases hrep <;> simp [Phase.isFast]

/-- The invariant of the upstream. -/
def Upstream (tr : List (Entry cfg L)) (out : Outcome cfg L) : Prop :=
  ∃ q, Carries Call.clientIn Call.serverOut [] (earlyCalls tr) q ∧
    ∀ q', out.waiting = some q' → q' = q ∧ earlyCalls tr = callsOf tr

theorem Session.Step.upstream {tr : List (Entry cfg L)} {s : Session cfg L} {c : Connection cfg L}
    {cb : Callback} {io : Io} {calls : List Call} {out : Outcome cfg L}
    (hstep : Step s cb io calls out) (hrep : Rep s c) (hup : Upstream tr (.live s)) :
    Upstream (tr ++ [⟨c, cb, io, calls⟩]) out := by
  obtain ⟨q, heq, hall⟩ := hup
  obtain ⟨hsome, hnone⟩ := hrep.early
  unfold Upstream
  rw [earlyCalls_concat]
  cases hw : s.phase.waiting with
  | some q₀ =>
    obtain ⟨rfl, hE⟩ := hall q₀ hw
    obtain ⟨q', hq', hout⟩ := hstep.forwards hw
    rw [if_pos (hsome (by rw [hw]; rfl))]
    refine ⟨q', ?_, fun q'' hq'' => ⟨hout q'' hq'', ?_⟩⟩
    · exact heq.append hq'
    · rw [hE, callsOf_append, callsOf_singleton]
  | none =>
    -- the queue is gone for good: what is read from now on is not forwarded through it
    obtain ⟨hout, hcalls⟩ := hstep.waiting_none hw
    refine ⟨q, ?_, fun q'' hq'' => (Option.some_ne_none _ (hq''.symm.trans hout)).elim⟩
    rw [hnone hw]
    cases hf : s.phase.isFast with
    | false => rwa [if_neg Bool.false_ne_true, List.append_nil]
    | true =>
      obtain ⟨hin, hsv⟩ := hcalls hf
      rw [if_pos rfl]
      exact heq.append (.idle hin hsv)

/-- Until the first server is gone the calls open no other one. -/
def Phase.Opened (calls : List Call) : Phase cfg L → Prop
  | .fresh => calls = []
  | .fast .. | .transition .. => streams calls = [calls.flatMap (·.serverOut)]
  | _ => True

/-- The same of an outcome. -/
def Outcome.Opened (calls : List Call) : Outcome cfg L → Prop
  | .live s => s.phase.Opened calls
  | _ => True

/-- Calls that open no connection keep the stream of the first server the only one. -/
theorem streams_eq_singleton {calls calls' : List Call}
    (hs : streams calls = [calls.flatMap (·.serverOut)]) (h : .connect ∉ calls') :
    streams (calls ++ calls') = [(calls ++ calls').flatMap (·.serverOut)] := by
  rw [streams_append_of_noConnect [] hs h, List.flatMap_append, List.nil_append]

theorem Session.SlowSwitch.opened {io : Io} {ph ph' : Phase cfg L} {calls : List Call}
    (h : SlowSwitch io ph (.ok ph')) (ho : ph.Opened calls) : ph'.Opened calls := by
  cases h with
  | fresh | reply => trivial
  | fast => exact ho

theorem Session.Step.opened {s : Session cfg L} {cb : Callback} {io : Io} {calls calls' : List Call}
    {out : Outcome cfg L} (h : Step s cb io calls' out) (ho : s.phase.Opened calls) :
    out.Opened (calls ++ calls') := by
  cases h with
  | freshConnect _ h =>
    obtain rfl : calls = [] := ho
    cases h with
    | @forward o _ _ _ w =>
      have hopen : streams [.connect] = [[Call.connect].flatMap (·.serverOut)] := rfl
      have hrest : Call.connect ∉ [Call.clientRead o.data, .serverWrite w.data] := by simp
      have hs := streams_eq_singleton hopen hrest
      exact hs
    | _ => trivial
  | fastClientReadable h =>
    cases h with
    | forward => exact streams_eq_singleton ho (by simp)
    | _ => trivial
  | fastServerReadable h =>
    cases h with
    | forward => exact streams_eq_singleton ho (by simp)
    | _ => trivial
  | fastClientWritable | fastServerWritable | transitionRead | transitionWrite =>
    exact streams_eq_singleton ho (by simp)
  | transitionDeliver h => cases h <;> exact streams_eq_singleton ho (by simp)
  -- slow mode opens another connection, so nothing is said of the first one
  | idleDispatch _ _ _ _ h => cases h <;> trivial
  | monitorSwitch _ _ _ h | signalSwitch h =>
    rw [List.append_nil]
    exact h.opened ho
  | monitorKeep | signalSlow => rwa [List.append_nil]
  | _ => trivial

theorem Run.upstream {tr : List (Entry cfg L)} {st : Status cfg L} (h : Run tr st) :
    ∃ out, out.Represents st ∧ Upstream tr out ∧ out.Opened (callsOf tr) := by
  refine h.invariant (I := fun tr out => Upstream tr out ∧ out.Opened (callsOf tr))
    ⟨⟨[], rfl, fun q' hq' => ⟨(Option.some.inj hq').symm, rfl⟩⟩, rfl⟩ ?_
  rintro tr s c cb io calls out ⟨hup, hopen⟩ hrep hstep
  refine ⟨hstep.upstream hrep hup, ?_⟩
  rw [callsOf_append, callsOf_singleton]
  exact hstep.opened hopen

/-- **Client-to-server integrity before slow mode.** While the first server connection is alive it
is the only one there has been, and what has been read from the client is what has been written to
it followed by what is queued for it; in every run what is written before slow mode is a prefix of
what is read; and `copy_from` always takes all of what was read. -/
theorem upstream_integrity {tr : List (Entry cfg L)} {st : Status cfg L} (h : Run tr st) :
    (∀ c s, st = .live c → c.server = some s → (c.fastMode = true ∨ c.inTransition = true) →
      ∃ sent, streams (callsOf tr) = [sent] ∧
        (callsOf tr).flatMap (·.clientIn) = sent ++ queued s.queuedOutput) ∧
    (earlyCalls tr).flatMap (·.serverOut) <+: (earlyCalls tr).flatMap (·.clientIn) ∧
    ∀ (q : Circularbuf cfg.sockIoBufSize) (results : List ReadResult),
      (q.copyFrom (readAll results q.remainingSpace).data).2
        = (readAll results q.remainingSpace).data.length := by
  obtain ⟨out, hrep, ⟨q, heq, hall⟩, hopen⟩ := h.upstream
  refine ⟨?_, heq.isPrefix, fun q results => (copyFrom_readAll q results).2⟩
  rintro c sv rfl hs hearly
  obtain ⟨s, rfl, hrep⟩ := hrep.live
  -- the server is the one that `fast_forward` feeds, and no other was opened
  have hw : s.phase.waiting = some (queued sv.queuedOutput) ∧
      streams (callsOf tr) = [(callsOf tr).flatMap (·.serverOut)] := by
    cases hrep with
    | fast | transition =>
      obtain rfl := Option.some.inj hs
      exact ⟨rfl, hopen⟩
    | exchange => exact absurd hearly (by simp)
    | _ => exact absurd hs (by simp)
  obtain ⟨rfl, hE⟩ := hall _ hw.1
  refine ⟨_, hw.2, ?_⟩
  rw [← hE]
  exact heq

/-- A run into the transition with short writes: seven bytes of the request have been written, the
rest of it is queued. -/
theorem upstream_integrity_partial :
    ∃ (tr : List (Entry .shipped .bodiless)) (c : Connection .shipped .bodiless)
      (s : Server .shipped), Run tr (.live c) ∧ c.inTransition = true ∧ c.server = some s ∧
        queued s.queuedOutput ≠ [] ∧
        ∃ sent, sent ≠ [] ∧ streams (callsOf tr) = [sent] ∧
          (callsOf tr).flatMap (·.clientIn) = sent ++ queued s.queuedOutput := by
  obtain ⟨tr, st, hrun, htr⟩ := exists_run (L := .bodiless)
    [(.clientReadable,
        { clientReads := [.data (ascii "GET / HTTP/1.1\r\n\r\n")], serverWrites := [.wrote 4] }),
      (.slowSwitch, {}), (.serverWritable, { serverWrites := [.wrote 1] })]
    (fun (tr : List (Entry .shipped _)) st =>
      streams (callsOf tr) == [ascii "GET / H"] && st.isLiveWith fun c =>
        c.inTransition && c.server.any fun s => !(queued s.queuedOutput).isEmpty)
    (by decide +kernel)
  obtain ⟨hsent, hst⟩ := Bool.and_eq_true_iff.mp htr
  obtain ⟨c, rfl, hc⟩ := Status.isLiveWith_iff.mp hst
  obtain ⟨ht, hs⟩ := Bool.and_eq_true_iff.mp hc
  obtain ⟨s, hs, hqueue⟩ := (Option.any_eq_true _ _).mp hs
  obtain ⟨sent, hstreams, heq⟩ := (upstream_integrity hrun).1 c s rfl hs (.inr ht)
  refine ⟨tr, c, s, hrun, ht, hs, by simpa using hqueue, sent, ?_, hstreams, heq⟩
  -- the one stream is what has been written
  obtain rfl := List.singleton_inj.mp (hstreams.symm.trans (eq_of_beq hsent))
  decide

/-! ### From the servers to the client -/

/-- `set_slow_mode` is run on a connection in reply-only mode, and leaves its queue behind. -/
def Entry.abandonsQueue (e : Entry cfg L) : Bool :=
  e.switches && e.conn.server.isNone && e.conn.client.queuedOutput.isSome

/-- In the transition a read from the server gets some bytes and then meets the end of the
stream. -/
def Entry.dropsLastRead (e : Entry cfg L) : Bool :=
  e.cb == .serverReadable false && e.conn.inTransition &&
    (readAll e.io.serverReads cfg.sockIoBufSize).hasEof &&
    !(readAll e.io.serverReads cfg.sockIoBufSize).data.isEmpty

/-- What has been read from the servers and not been written to the client. -/
def Phase.undelivered : Phase cfg L → Bytes
  | .fresh => []
  | .fast _ _ cq _ _ _ | .reply cq => cq.contents
  | .transition _ b _ _ _ | .idle _ b _ _ | .exchange _ b _ _ _ | .slowReply b _ => b.unread

/-- Slow mode has no queue for the client. -/
def Phase.QueueFreed : Phase cfg L → Prop
  | .idle _ _ stale _ | .exchange _ _ stale _ _ | .slowReply _ stale => stale = none
  | _ => True

/-- The bytes `q` are undelivered before the calls of a step; after them those are that its outcome
says. -/
def Returns (q : Bytes) (calls : List Call) (out : Outcome cfg L) : Prop :=
  ∃ q', Carries Call.serverIn Call.clientOut q calls q' ∧
    ∀ s, out = .live s → s.phase.undelivered = q' ∧ s.phase.QueueFreed

theorem Returns.live {q : Bytes} {calls : List Call} {n : Counts} {ph : Phase cfg L}
    (h : Carries Call.serverIn Call.clientOut q calls ph.undelivered) (hf : ph.QueueFreed) :
    Returns q calls (.live ⟨n, ph⟩) :=
  ⟨_, h, fun _ hs => Outcome.live.inj hs ▸ ⟨rfl, hf⟩⟩

theorem Returns.ended {q q' : Bytes} {calls : List Call} {out : Outcome cfg L}
    (h : Carries Call.serverIn Call.clientOut q calls q') (hout : ∀ s, out ≠ .live s) :
    Returns q calls out :=
  ⟨q', h, fun s hs => absurd hs (hout s)⟩

/-- Writing from the queue, then closing sockets. -/
theorem carries_writeAllTo {q q' : Circularbuf cfg.sockIoBufSize} {results : List WriteResult}
    {o : WriteOutcome} {rest : List Call} (h : q.writeAllTo results = .ok (q', o))
    (hin : rest.flatMap Call.serverIn = []) (hout : rest.flatMap Call.clientOut = []) :
    Carries Call.serverIn Call.clientOut q.contents (.clientWrite o.data :: rest) q'.contents := by
  simpa [Carries, hin, hout] using contents_of_writeAllTo h

/-- Reading from a server, then closing sockets. -/
theorem carries_serverRead {q data : Bytes} {rest : List Call}
    (hin : rest.flatMap Call.serverIn = []) (hout : rest.flatMap Call.clientOut = []) :
    Carries Call.serverIn Call.clientOut q (.serverRead data :: rest) (q ++ data) := by
  simp [Carries, hin, hout]

theorem Session.FastForwardToClient.returns {n : Counts} {p : HttpParser L} {hist : Bytes}
    {cq sq : Circularbuf cfg.sockIoBufSize} {sw : Bool} {io : Io} {calls : List Call}
    {out : Outcome cfg L} (h : FastForwardToClient n p hist cq sq sw io calls out) :
    Returns cq.contents calls out := by
  have carries : ∀ {o : ReadOutcome} {cq' : Circularbuf cfg.sockIoBufSize} {w : WriteOutcome}
      {rest : List Call}, readAll io.serverReads cq.remainingSpace = o →
      (cq.copyFrom o.data).1.writeAllTo io.clientWrites = .ok (cq', w) →
      rest.flatMap Call.serverIn = [] → rest.flatMap Call.clientOut = [] →
      Carries Call.serverIn Call.clientOut cq.contents
        (.serverRead o.data :: .clientWrite w.data :: rest) cq'.contents := by
    intro o cq' w rest ho hw hin hout
    have hc := contents_of_forward ho hw
    simpa [Carries, hin, hout] using hc
  cases h with
  | eofReply ho hw => exact .live (carries ho hw rfl rfl) trivial
  | eofDelete ho hw => exact .ended (carries ho hw rfl rfl) fun _ => nofun
  | forward ho hw => exact .live (carries ho hw rfl rfl) trivial

theorem Session.Deliver.returns {b b' : SlowBufs} {io : Io} {calls : List Call} {cw : Bool}
    (h : Deliver cfg b io calls b' cw) :
    Carries Call.serverIn Call.clientOut b.unread calls b'.unread := by
  cases h with
  | some _ hw =>
    have hpre : (writeAll io.clientWrites (b.unread.take cfg.sockIoBufSize)).data <+: b.unread :=
      (writeAll_isPrefix _ _).trans (List.take_prefix _ _)
    rw [← hw]
    simpa [Carries] using (List.prefix_iff_eq_append.mp hpre).symm
  | none => exact .idle rfl rfl

theorem Session.SlowSwitch.returns {io : Io} {n n' : Counts} {ph ph' : Phase cfg L}
    {c : Connection cfg L} (h : SlowSwitch io ph (.ok ph')) (hrep : Rep ⟨n, ph⟩ c)
    (hdisk : io.DiskOk) (hq : (c.server.isNone && c.client.queuedOutput.isSome) = false) :
    Returns ph.undelivered [] (.live ⟨n', ph'⟩) := by
  refine ⟨_, .idle rfl rfl, fun s hs => ?_⟩
  obtain rfl := Outcome.live.inj hs
  cases h with
  | fresh => exact ⟨rfl, rfl⟩
  | reply => cases hrep with | reply => exact absurd hq (by simp)
  | @fast _ _ _ stored cq _ _ _ _ _ hdump =>
    refine ⟨?_, trivial⟩
    rcases cq.dumpAll_spec io.disk with ⟨herr, -⟩ | ⟨q', stored', hok, hall⟩
    · exact absurd (herr.symm.trans hdump) (by simp)
    · have heq := Except.ok.inj (hok.symm.trans hdump)
      exact (FIFOfilebuf.queue_nil_inj (Prod.mk.inj heq).2).symm.trans (hall hdisk)

/-- One step outside the two slips, without disk-write loss. -/
theorem Session.Step.returns {s : Session cfg L} {c : Connection cfg L} {cb : Callback} {io : Io}
    {calls : List Call} {out : Outcome cfg L} (h : Step s cb io calls out)
    (hfreed : s.phase.QueueFreed) (hrep : Rep s c) (hdisk : io.DiskOk)
    (ha : (⟨c, cb, io, calls⟩ : Entry cfg L).abandonsQueue = false)
    (hd : (⟨c, cb, io, calls⟩ : Entry cfg L).dropsLastRead = false) :
    Returns s.phase.undelivered calls out := by
  -- what is read from the server is stored whole
  have full : ∀ {o : ReadOutcome} {k : ℕ}, written (io.disk 0) o.data.length = some k →
      o.data.take k = o.data := fun {o k} hk => by
    rw [hdisk 0 o.data.length] at hk
    rw [← Option.some.inj hk, List.take_length]
  cases h with
  | freshConnect _ h | fastClientReadable h =>
    cases h with
    | malformedReply | forward => exact .live (.idle rfl rfl) trivial
    | _ => exact .ended (.idle rfl rfl) fun _ => nofun
  | fastServerReadable h => exact h.returns
  | fastClientWritable hw => exact .live (carries_writeAllTo hw rfl rfl) trivial
  | replyMore hw => exact .live (carries_writeAllTo hw rfl rfl) trivial
  | replyDone hw =>
    exact .ended (carries_writeAllTo hw rfl rfl) fun _ => nofun
  | transitionEof ho heof =>
    -- the read that met the end of the stream got nothing else
    cases hrep with
    | transition =>
      have hnil : (readAll io.serverReads cfg.sockIoBufSize).data = [] := by
        simpa [Entry.dropsLastRead, ho, heof] using hd
      rw [← ho, hnil]
      exact .live (.idle rfl rfl) rfl
  | transitionFault | exchangeFault => exact .ended (carries_serverRead rfl rfl) fun _ => nofun
  | transitionRead _ _ hk =>
    rw [full hk]
    exact .live (carries_serverRead rfl rfl) trivial
  | exchangeMalformedReply _ hk | exchangeEnd _ hk | exchangeRead _ hk =>
    rw [full hk]
    exact .live (carries_serverRead rfl rfl) hfreed
  | exchangeMalformedDelete => exact .ended (carries_serverRead rfl rfl) fun _ => nofun
  | transitionDeliver h => exact .live h.returns trivial
  | idleDeliver h | exchangeDeliver h | slowReplyDeliver h => exact .live h.returns hfreed
  | slowReplyDone h => exact .ended (h.returns.append (.idle rfl rfl)) fun _ => nofun
  | idleDispatch _ _ _ _ h =>
    cases h with
    | connect => exact .live (.idle rfl rfl) hfreed
    | _ => exact .ended (.idle rfl rfl) fun _ => nofun
  | monitorDrop => exact .ended (.idle (by split <;> rfl) (by split <;> rfl)) fun _ => nofun
  | monitorSwitch hkeep hfast hslow h =>
    refine h.returns hrep hdisk ?_
    rwa [Entry.abandonsQueue, hrep.switches_monitor hfast hkeep hslow, Bool.true_and] at ha
  | signalSwitch h =>
    refine h.returns hrep hdisk ?_
    rwa [Entry.abandonsQueue, hrep.switches_signal h.isFast, Bool.true_and] at ha
  | transitionTimeout => exact .live (.idle rfl rfl) rfl
  | _ => first
    | exact .live (.idle rfl rfl) hfreed
    | exact .ended (.idle rfl rfl) fun _ => nofun

/-- Where the bytes that are undelivered lie. -/
theorem Rep.undelivered {s : Session cfg L} {c : Connection cfg L} (hrep : Rep s c)
    (hfreed : s.phase.QueueFreed) :
    s.phase.undelivered
      = queued c.client.queuedOutput ++ c.client.responseBuf.elim [] (·.unread) := by
  cases hrep with
  | fresh => rfl
  | fast | reply => exact (List.append_nil _).symm
  | transition => simp [Phase.undelivered, queued, slowClient]
  | idle | exchange | slowReply =>
    obtain rfl := hfreed
    simp [Phase.undelivered, queued, slowClient]

/-- **Response stream integrity over a connection's whole life.** What has been written to the
client is a prefix of what has been read from the servers, and while the connection lives the rest
is in the client's queue and in `response_buf`, in every run without disk-write loss in which
`set_slow_mode` is not run on a connection in reply-only mode and no read of the transition gets
bytes together with the end of the stream. -/
theorem downstream_integrity {tr : List (Entry cfg L)} {st : Status cfg L} (h : Run tr st)
    (hdisk : ∀ e ∈ tr, e.io.DiskOk)
    (hok : ∀ e ∈ tr, e.abandonsQueue = false ∧ e.dropsLastRead = false) :
    (callsOf tr).flatMap (·.clientOut) <+: (callsOf tr).flatMap (·.serverIn) ∧
    ∀ c, st = .live c → (callsOf tr).flatMap (·.serverIn) = (callsOf tr).flatMap (·.clientOut) ++
      (queued c.client.queuedOutput ++ c.client.responseBuf.elim [] (·.unread)) := by
  obtain ⟨out, hrep, q, hcar, hlive⟩ := h.invariant_of
    (I := fun tr out => Returns [] (callsOf tr) out)
    (P := fun e => e.io.DiskOk ∧ e.abandonsQueue = false ∧ e.dropsLastRead = false)
    (.live (.idle rfl rfl) trivial)
    (by
      rintro tr s c cb io calls out ⟨q, hcar, hlive⟩ hrep hstep ⟨hdisk, ha, hd⟩
      obtain ⟨rfl, hfreed⟩ := hlive s rfl
      obtain ⟨q', hcar', hlive'⟩ := hstep.returns hfreed hrep hdisk ha hd
      rw [callsOf_append, callsOf_singleton]
      exact ⟨q', hcar.append hcar', hlive'⟩)
    (fun e he => ⟨hdisk e he, hok e he⟩)
  refine ⟨hcar.isPrefix, ?_⟩
  rintro c rfl
  obtain ⟨s, rfl, hrep⟩ := hrep.live
  obtain ⟨rfl, hfreed⟩ := hlive s rfl
  rw [← hrep.undelivered hfreed]
  exact hcar

/-- A response that is cut off by the transition and delivered in two parts. -/
theorem downstream_integrity_transition :
    ∃ (tr : List (Entry .shipped .bodiless)) (c : Connection .shipped .bodiless),
      Run tr (.live c) ∧ (callsOf tr).flatMap (·.clientOut) = ascii "HTTP/1." ∧
        (callsOf tr).flatMap (·.serverIn) = (callsOf tr).flatMap (·.clientOut) ++
          (queued c.client.queuedOutput ++ c.client.responseBuf.elim [] (·.unread)) := by
  obtain ⟨tr, st, hrun, hdisk, htr⟩ := exists_run_diskOk (L := .bodiless)
    [(.clientReadable, { clientReads := [.data (ascii "GET / HTTP/1.1\r\n\r\n")] }),
      (.serverReadable false,
        { serverReads := [.data (ascii "HTTP/1.1 ")], clientWrites := [.wrote 3] }),
      (.slowSwitch, {}),
      (.serverReadable false, { serverReads := [.data (ascii "204 No")] }),
      (.clientWritable, { clientWrites := [.wrote 2] })]
    (fun (tr : List (Entry .shipped _)) st => st.isLiveWith (fun _ => true) &&
      tr.all (fun e => !e.abandonsQueue && !e.dropsLastRead) &&
      ((callsOf tr).flatMap (·.clientOut) == ascii "HTTP/1."))
    (by decide +kernel) (by simp [Io.DiskOk])
  simp only [Bool.and_eq_true, beq_iff_eq, List.all_eq_true, Bool.not_eq_true'] at htr
  obtain ⟨⟨hst, hok⟩, hout⟩ := htr
  obtain ⟨c, rfl, -⟩ := Status.isLiveWith_iff.mp hst
  exact ⟨tr, c, hrun, hout, (downstream_integrity hrun hdisk hok).2 c rfl⟩

/-- `set_slow_mode` finds the connection in reply-only mode with two bytes in its queue: the
response to the next request overtakes them. -/
theorem response_overtaken :
    ∃ (tr : List (Entry .shipped .bodiless)) (st : Status .shipped .bodiless), Run tr st ∧
      (∀ e ∈ tr, e.io.DiskOk) ∧
      ¬ (callsOf tr).flatMap (·.clientOut) <+: (callsOf tr).flatMap (·.serverIn) := by
  obtain ⟨tr, st, hrun, hdisk, htr⟩ := exists_run_diskOk (L := .bodiless)
    [(.clientReadable, { clientReads := [.data (ascii "GET / HTTP/1.1\r\n\r\n")] }),
      (.serverReadable false, { serverReads := [.data (ascii "OK"), .data []] }),
      (.slowSwitch, {}),
      (.clientReadable, { clientReads := [.data (ascii "GET / HTTP/1.1\r\n\r\n")] }),
      (.serverReadable false, { serverReads := [.data (ascii "HTTP/1.1 204 No")] }),
      (.clientWritable, { clientWrites := [.wrote 14] })]
    (fun (tr : List (Entry .shipped _)) _ =>
      !((callsOf tr).flatMap (·.clientOut)).isPrefixOf ((callsOf tr).flatMap (·.serverIn)))
    (by decide +kernel) (by simp [Io.DiskOk])
  refine ⟨tr, st, hrun, hdisk, fun hpre => ?_⟩
  rw [Bool.not_eq_true', ← Bool.not_eq_true, List.isPrefixOf_iff_prefix] at htr
  exact htr hpre

end LSProxy
