import LSProxy.Session.Traces
import LSProxy.Safety.Streams
import LSProxy.Buffers.Circular

/-!
# How a connection ends by itself

`monitor_data_rates` deletes what moves too little. What a connection comes to without it, by its
own four events, is told here.

* `closable` — from every state a connection reaches, some of its own events lead to its end: no
  state is a dead end;
* `ended_by_peers` — when both peers have gone, so that reads find the end of file and writes fail,
  its own events can still end it, but for two states, which only a tick ends: both queues of fast
  mode are full, so that nothing is read any more; or a response is left in reply-only mode of
  slow mode, where a failed write is tried again and again.
-/

namespace LSProxy

open Session Simulation

variable {cfg : Config} {L : Llhttp}

/-! ### Reading the end of file, and writing a queue -/

/-- Where there is room, the end of file is read. -/
theorem readAll_eof {n : ℕ} (hn : n ≠ 0) : readAll [.data []] n = { hasEof := true } := by
  simp [readAll, hn]

/-- A write that gets through takes something. -/
theorem writeAll_wrote {data : Bytes} (hdata : data ≠ []) (n : ℕ) (rs : List WriteResult) :
    (writeAll (.wrote n :: rs) data).data ≠ [] := by
  simp [writeAll, hdata]

/-- Who takes as many bytes as there are, one by one, takes them all. -/
theorem writeAll_bytes (data : Bytes) (n : ℕ) :
    writeAll (List.replicate (data.length + n) (.wrote 0)) data =
      { data := data, rest := List.replicate n (.wrote 0) } := by
  induction data with
  | nil => cases n <;> simp [writeAll, List.replicate_succ]
  -- one byte goes with the first write, the others with the rest
  | cons b data ih =>
    rw [List.length_cons, Nat.add_right_comm, List.replicate_succ]
    simp [writeAll, ih]

theorem writeEach_bytes (chunks : List Bytes) (n : ℕ) :
    (writeEach (List.replicate (chunks.flatten.length + n) (.wrote 0)) chunks).data =
      chunks.flatten := by
  induction chunks with
  | nil => rfl
  | cons data chunks ih =>
    rw [List.flatten_cons, List.length_append, Nat.add_assoc, writeEach, writeAll_bytes]
    -- the writes that are left are those for the next segment
    by_cases hlast : chunks = []
    · simp [hlast]
    · simp only [hlast, or_false, Nat.lt_irrefl, if_false, ih]

/-- Segments are written one after another: where there is something to write, it meets the first
result, whether the first segment is empty or not. -/
theorem writeEach_failed {chunks : List Bytes} (hne : chunks.flatten ≠ []) (e : Errno)
    (rs : List WriteResult) :
    writeEach (.failed e :: rs) chunks = { hasError := true, errno := e, rest := rs } := by
  induction chunks with
  | nil => exact absurd rfl hne
  | cons data chunks ih =>
    by_cases hdata : data = []
    · have hlast : chunks ≠ [] := by
        rintro rfl
        exact hne (by simp [hdata])
      rw [List.flatten_cons, hdata, List.nil_append] at hne
      simp [writeEach, writeAll, hdata, hlast, ih hne]
    · simp [writeEach, writeAll, hdata, List.length_pos_iff.mpr hdata]

theorem writeEach_wrote {chunks : List Bytes} (hne : chunks.flatten ≠ []) (n : ℕ)
    (rs : List WriteResult) : (writeEach (.wrote n :: rs) chunks).data ≠ [] := by
  induction chunks with
  | nil => exact absurd rfl hne
  | cons data chunks ih =>
    unfold writeEach
    by_cases hdata : data = []
    · have hlast : chunks ≠ [] := by
        rintro rfl
        exact hne (by simp [hdata])
      rw [List.flatten_cons, hdata, List.nil_append] at hne
      simpa [writeAll, hdata, hlast] using ih hne
    · have hwrote := writeAll_wrote hdata n rs
      dsimp only
      split
      · exact hwrote
      · exact fun hnil => hwrote (List.append_eq_nil_iff.mp hnil).1

namespace Circularbuf

variable {size : ℕ} {q : Circularbuf size}

/-- Such a peer empties the queue. -/
theorem writeAllTo_bytes (q : Circularbuf size) :
    ∃ q' o, q.writeAllTo (List.replicate q.contents.length (.wrote 0)) = .ok (q', o) ∧
      q'.contents = [] := by
  obtain ⟨chunks, hflat, hwrite⟩ := q.writeAllTo_chunks
  obtain ⟨q', hw⟩ := hwrite (List.replicate q.contents.length (.wrote 0))
  have hdata := writeEach_bytes chunks 0
  rw [Nat.add_zero, hflat] at hdata
  have hcontents := contents_of_writeAllTo hw
  rw [hdata] at hcontents
  exact ⟨q', _, hw, List.append_right_eq_self.mp hcontents.symm⟩

/-- A write that fails at once leaves the queue as it is. -/
theorem writeAllTo_failed (hq : q.contents ≠ []) (e : Errno) (rs : List WriteResult) :
    ∃ q', q.writeAllTo (.failed e :: rs) = .ok (q', { hasError := true, errno := e, rest := rs }) ∧
      q'.contents = q.contents := by
  obtain ⟨chunks, hflat, hwrite⟩ := q.writeAllTo_chunks
  obtain ⟨q', hw⟩ := hwrite (.failed e :: rs)
  rw [writeEach_failed (hflat ▸ hq)] at hw
  exact ⟨q', hw, (contents_of_writeAllTo hw).symm⟩

/-- A write that gets through takes something off the queue. -/
theorem writeAllTo_wrote {q' : Circularbuf size} {n : ℕ} {rs : List WriteResult} {o : WriteOutcome}
    (hq : q.contents ≠ []) (hw : q.writeAllTo (.wrote n :: rs) = .ok (q', o)) : o.data ≠ [] := by
  obtain ⟨chunks, hflat, hwrite⟩ := q.writeAllTo_chunks
  obtain ⟨q₁, hw₁⟩ := hwrite (.wrote n :: rs)
  obtain ⟨rfl, rfl⟩ := Prod.mk.inj (Except.ok.inj (hw₁.symm.trans hw))
  exact writeEach_wrote (hflat ▸ hq) n rs

end Circularbuf

/-! ### No dead ends -/

/-- The callback is one of the events of the connection itself: no tick, and no signal. -/
def Callback.own : Callback → Bool
  | .monitor | .slowSwitch => false
  | _ => true

/-- The peers do what they should, and the disk takes what it is given: the server accepts the
connection, and nothing that is read or written fails. -/
structure Io.Behaves (io : Io) : Prop where
  connects : io.connectOk = true
  clientReads : ∀ r ∈ io.clientReads, ∃ bs, r = .data bs
  clientWrites : ∀ r ∈ io.clientWrites, ∃ n, r = .wrote n
  serverReads : ∀ r ∈ io.serverReads, ∃ bs, r = .data bs
  serverWrites : ∀ r ∈ io.serverWrites, ∃ n, r = .wrote n
  disk : io.DiskOk

namespace Io

/-- A peer that neither sends nor takes anything behaves; so does one that closes its side, and one
that takes bytes one by one. -/
theorem behaves_idle : Behaves {} :=
  ⟨rfl, by simp, by simp, by simp, by simp, fun _ => written_nil⟩

theorem behaves_clientEof : Behaves { clientReads := [.data []] } :=
  ⟨rfl, by simp, by simp, by simp, by simp, fun _ => written_nil⟩

theorem behaves_serverEof : Behaves { serverReads := [.data []] } :=
  ⟨rfl, by simp, by simp, by simp, by simp, fun _ => written_nil⟩

theorem behaves_clientTakes (n : ℕ) : Behaves { clientWrites := List.replicate n (.wrote 0) } :=
  ⟨rfl, by simp, by simp, by simp, by simp, fun _ => written_nil⟩

theorem behaves_serverTakes (n : ℕ) : Behaves { serverWrites := List.replicate n (.wrote 0) } :=
  ⟨rfl, by simp, by simp, by simp, by simp, fun _ => written_nil⟩

end Io

/-- The calls write something of a response to the client. -/
def writesResponse (calls : List Call) : Bool := calls.any (!·.clientOut.isEmpty)

/-- How many events it takes at most to end a session whose peers do what they should, besides
those that write the response that is left. -/
def Phase.otherSteps : Phase cfg L → ℕ
  | .fast _ _ _ sq _ sw => if sw || sq.remainingSpace == 0 then 2 else 1
  | .transition .. | .exchange .. => 2
  | _ => 1

/-- The same with those. -/
def Phase.closingSteps : Phase cfg L → ℕ
  | .slowReply b _ => 1 + b.unread.length
  | ph => ph.otherSteps

/-- The same of an outcome. -/
def Outcome.otherSteps : Outcome cfg L → ℕ
  | .live s => s.phase.otherSteps
  | _ => 0

def Outcome.closingSteps : Outcome cfg L → ℕ
  | .live s => s.phase.closingSteps
  | _ => 0

/-- Nothing is lost of what is not there. -/
theorem recorded_nil (cfg : Config) (io : Io) (hdisk : io.disk = fun _ => []) (p : HttpParser L)
    (hist : Bytes) :
    ∃ hist', recorded cfg io p hist [] = .ok hist' := by
  unfold recorded
  rw [hdisk]
  split <;> exact ⟨_, Hybridbuf.stored_eq (written_nil _)⟩

/-- A queue that something has been taken from has room. -/
theorem room_of_wrote {q q' : Circularbuf cfg.sockIoBufSize} {n : ℕ} {rs : List WriteResult}
    {o : WriteOutcome} (hsize : 1 < cfg.sockIoBufSize)
    (hw : q.writeAllTo (.wrote n :: rs) = .ok (q', o)) : q'.remainingSpace ≠ 0 := by
  have hcontents := congrArg List.length (contents_of_writeAllTo hw)
  have hlt := Circularbuf.dataSize_lt q
  have hroom := Circularbuf.remainingSpace_eq q'
  rw [← Circularbuf.length_contents] at hlt
  rw [List.length_append] at hcontents
  -- an empty queue has room, since its size is more than one
  by_cases hq : q.contents = []
  · rw [hq] at hcontents
    simp only [List.length_nil] at hcontents
    omega
  · -- what has been taken leaves room, for a queue holds less than its size
    have hpos := List.length_pos_iff.mpr (Circularbuf.writeAllTo_wrote hq hw)
    omega

/-- Nothing has crashed, and a session that lives has the property `Q`. -/
def Outcome.Safe (Q : Session cfg L → Prop) : Outcome cfg L → Prop
  | .live s => Q s
  | .deleted => True
  | .crashed _ => False

/-- The session takes a step of its own, with system calls as `P` says, to a safe outcome of
smaller measure `μ`, and if the step is costly of smaller measure `ν`. -/
def Session.Advances (P : Io → Prop) (Q : Session cfg L → Prop) (costly : Observation → Bool)
    (μ ν : Outcome cfg L → ℕ) (s : Session cfg L) : Prop :=
  ∃ o out, Takes (.live s) o out ∧ (o.cb.own = true ∧ P o.io) ∧ out.Safe Q ∧ μ out < μ (.live s) ∧
    ν out + (if costly o then 1 else 0) ≤ ν (.live s)

/-- **Who can always advance, ends.** -/
theorem Session.reaches_end {P : Io → Prop} {Q : Session cfg L → Prop} {costly : Observation → Bool}
    {μ ν : Outcome cfg L → ℕ} (hadv : ∀ s, Q s → Advances P Q costly μ ν s) {s : Session cfg L}
    (hs : Q s) :
    Reaches Takes (fun o => o.cb.own = true ∧ P o.io) costly (· = .deleted) (μ (.live s))
      (ν (.live s)) (.live s) := by
  refine Reaches.of_measure μ ν (I := fun out => out.Safe Q) ?_ hs
  rintro (s | _ | f) hsafe
  · obtain ⟨o, out, htakes, ho, hsafe, hlt, hle⟩ := hadv s hsafe
    exact .inr ⟨o, out, htakes, ho, hsafe, hlt, hle⟩
  · exact .inl rfl
  · exact hsafe.elim

/-- What a session reaches, every connection that is in it reaches. -/
theorem Session.fired_end {P : Io → Prop} {costly : Observation → Bool} {n m : ℕ}
    {s : Session cfg L} {c : Connection cfg L}
    (h : Reaches Takes (fun o => o.cb.own = true ∧ P o.io) costly (· = .deleted) n m (.live s))
    (hrep : Rep s c) :
    ∃ tr : List (Entry cfg L), RunFrom (.live c) tr .deleted ∧ tr.length ≤ n ∧
      tr.countP (fun e => costly e.observed) ≤ m ∧ ∀ e ∈ tr, e.cb.own = true ∧ P e.io := by
  obtain ⟨obs, out, hrun, hlen, hcost, hobs, rfl⟩ := h
  obtain ⟨tr, st, htr, rfl, hout⟩ := Session.runs_fired hrun
    (show (Outcome.live s).Represents (.live c) from hrep)
  obtain rfl : st = .deleted := by
    cases st with
    | deleted => rfl
    | live c => exact hout.elim
    | crashed f => exact hout.elim
  rw [List.length_map] at hlen
  rw [List.countP_map] at hcost
  exact ⟨tr, htr, hlen, hcost, fun e he => hobs _ (List.mem_map_of_mem he)⟩

/-- What has been queued for a client in reply-only mode is written, all of it at once. -/
theorem Session.advances_reply (n : Counts) (cq : Circularbuf cfg.sockIoBufSize) :
    Advances Io.Behaves (fun _ => True) (fun o => !writesResponse o.calls) Outcome.closingSteps
      Outcome.otherSteps (⟨n, .reply cq⟩ : Session cfg L) := by
  obtain ⟨cq', w, hw, hnil⟩ := cq.writeAllTo_bytes
  exact ⟨⟨.clientWritable, { clientWrites := List.replicate cq.contents.length (.wrote 0) }, _⟩, _,
    .step (.replyDone hw (.inr hnil)), ⟨rfl, Io.behaves_clientTakes _⟩, trivial, Nat.one_pos,
    by split <;> simp [Outcome.otherSteps, Phase.otherSteps]⟩

/-- A client that closes its side is noticed where there is room to read the end of file. -/
theorem Session.eof_ends (n : Counts) (p : HttpParser L) (hist : Bytes)
    (cq sq : Circularbuf cfg.sockIoBufSize) (cw : Bool) (hroom : sq.remainingSpace ≠ 0) :
    ∃ calls, FastForwardToServer n p hist cq sq cw { clientReads := [.data []] } calls .deleted ∧
      writesResponse calls = false := by
  obtain ⟨p', hp⟩ : ∃ p', p.doParse [] = some p' := ⟨_, rfl⟩
  obtain ⟨hist', hhist⟩ := recorded_nil cfg { clientReads := [.data []] } rfl p' hist
  obtain ⟨sq', w, hw, -⟩ := (sq.copyFrom []).1.writeAllTo_spec []
  exact ⟨_, .eof (readAll_eof hroom) hp hhist hw rfl, rfl⟩

/-- A connection in fast mode is closed by its client, once there is room to read the end of
file. -/
theorem Session.advances_fast (hsize : 1 < cfg.sockIoBufSize) (n : Counts) (p : HttpParser L)
    (hist : Bytes) (cq sq : Circularbuf cfg.sockIoBufSize) (cw sw : Bool) :
    Advances Io.Behaves (fun _ => True) (fun o => !writesResponse o.calls) Outcome.closingSteps
      Outcome.otherSteps (⟨n, .fast p hist cq sq cw sw⟩ : Session cfg L) := by
  cases sw with
  | true =>
    -- the client is not read as long as the server is waited for
    obtain ⟨sq', w, hw, -⟩ := sq.writeAllTo_spec [.wrote 0]
    have hroom := room_of_wrote hsize hw
    exact ⟨⟨.serverWritable, { serverWrites := [.wrote 0] }, _⟩, _, .step (.fastServerWritable hw),
      ⟨rfl, Io.behaves_serverTakes 1⟩, trivial,
      by simp [Outcome.closingSteps, Phase.closingSteps, Phase.otherSteps, hroom],
      by simp [Outcome.otherSteps, Phase.otherSteps, writesResponse, hroom]⟩
  | false =>
    by_cases hfull : sq.remainingSpace = 0
    · -- nothing is read into a full queue, but something of it is written
      obtain ⟨p', hp⟩ : ∃ p', p.doParse [] = some p' := ⟨_, rfl⟩
      let io : Io := { serverWrites := [.wrote 0] }
      obtain ⟨hist', hhist⟩ := recorded_nil cfg io rfl p' hist
      obtain ⟨sq', w, hw, -⟩ := (sq.copyFrom []).1.writeAllTo_spec [.wrote 0]
      have hroom := room_of_wrote hsize hw
      have hread : readAll io.clientReads sq.remainingSpace =
          { hasError := decide (0 < sq.remainingSpace) } := rfl
      have hcontents : sq.contents ≠ [] := by
        have heq := sq.remainingSpace_eq
        rw [← List.length_pos_iff]
        omega
      have hcopied : (sq.copyFrom []).1.contents ≠ [] := by
        rw [(Circularbuf.copyFrom_fits (Nat.zero_le _)).1, List.append_nil]
        exact hcontents
      have hwrote : w.data.isEmpty = false :=
        List.isEmpty_eq_false_iff.mpr (Circularbuf.writeAllTo_wrote hcopied hw)
      exact ⟨⟨.clientReadable, io, _⟩, _,
        .step (.fastClientReadable (.forward hread hp hhist hw rfl)),
        ⟨rfl, Io.behaves_serverTakes 1⟩, trivial,
        by simp [Outcome.closingSteps, Phase.closingSteps, Phase.otherSteps, hroom, hfull, hwrote],
        by simp [Outcome.otherSteps, Phase.otherSteps, writesResponse, hroom, hfull, hwrote]⟩
    · obtain ⟨calls, hstep, hnone⟩ := eof_ends n p hist cq sq cw hfull
      exact ⟨⟨.clientReadable, _, calls⟩, _, .step (.fastClientReadable hstep),
        ⟨rfl, Io.behaves_clientEof⟩, trivial,
        by simp [Outcome.closingSteps, Phase.closingSteps, Phase.otherSteps, hfull],
        by simp [Outcome.otherSteps, Phase.otherSteps, hnone, hfull]⟩

/-- What is left of a response in slow mode is written, in reply-only mode. -/
theorem Session.advances_slowReply (n : Counts) (b : SlowBufs)
    (stale : Option (Circularbuf cfg.sockIoBufSize)) :
    Advances Io.Behaves (fun _ => True) (fun o => !writesResponse o.calls) Outcome.closingSteps
      Outcome.otherSteps (⟨n, .slowReply b stale⟩ : Session cfg L) := by
  by_cases hnil : b.unread = []
  · exact ⟨⟨.clientWritable, {}, _⟩, _, .step (.slowReplyDone (.none hnil)),
      ⟨rfl, Io.behaves_idle⟩, trivial,
      by simp [Outcome.closingSteps, Phase.closingSteps, hnil],
      by simp [Outcome.otherSteps, Phase.otherSteps, writesResponse]⟩
  · have hne : b.unread.take cfg.sockIoBufSize ≠ [] := by
      simp [hnil, cfg.sockIoBufSize_pos.ne']
    have hwrote := writeAll_wrote hne 0 []
    refine ⟨⟨.clientWritable, { clientWrites := [.wrote 0] }, _⟩, _,
      .step (.slowReplyDeliver (.some hnil rfl)),
      ⟨rfl, Io.behaves_clientTakes 1⟩, trivial, ?_, ?_⟩
    · have hpos := List.length_pos_iff.mpr hnil
      have hlen := List.length_pos_iff.mpr hwrote
      simp only [Outcome.closingSteps, Phase.closingSteps, List.length_drop]
      omega
    · simp [Outcome.otherSteps, Phase.otherSteps, writesResponse, hwrote]

/-- **Every session can go on towards its end**, by an event of its own. -/
theorem Session.advances (hsize : 1 < cfg.sockIoBufSize) (s : Session cfg L) :
    Advances Io.Behaves (fun _ => True) (fun o => !writesResponse o.calls) Outcome.closingSteps
      Outcome.otherSteps s := by
  have heof := readAll_eof cfg.sockIoBufSize_pos.ne'
  obtain ⟨n, ph⟩ := s
  cases ph with
  | fresh =>
    -- the server accepts, and the client has nothing to say
    have hroom : (Circularbuf.new cfg.sockIoBufSize_pos).remainingSpace ≠ 0 := by
      rw [Circularbuf.remainingSpace_eq, Circularbuf.contents_new]
      simp only [List.length_nil]
      omega
    obtain ⟨calls, hstep, hnone⟩ := eof_ends n (.new L) [] (.new cfg.sockIoBufSize_pos)
      (.new cfg.sockIoBufSize_pos) false hroom
    exact ⟨⟨.clientReadable, _, _⟩, _, .step (.freshConnect rfl hstep),
      ⟨rfl, Io.behaves_clientEof⟩, trivial, Nat.one_pos,
      by split <;> simp [Outcome.otherSteps, Phase.otherSteps]⟩
  | fast p hist cq sq cw sw => exact advances_fast hsize n p hist cq sq cw sw
  | reply cq => exact advances_reply n cq
  | slowReply b stale => exact advances_slowReply n b stale
  | transition p b sq cw sw =>
    -- the transition times out, which leaves the client to be read
    exact ⟨⟨.serverReadable true, {}, _⟩, _, .step .transitionTimeout,
      ⟨rfl, Io.behaves_idle⟩, trivial, Nat.one_lt_two,
      by simp [Outcome.otherSteps, Phase.otherSteps, writesResponse]⟩
  | idle p b stale cw =>
    -- the client closes its side
    exact ⟨⟨.clientReadable, { clientReads := [.data []] }, _⟩, _, .step (.idleEof heof rfl),
      ⟨rfl, Io.behaves_clientEof⟩, trivial, Nat.one_pos,
      by split <;> simp [Outcome.otherSteps, Phase.otherSteps]⟩
  | exchange p b stale cw sw =>
    -- the server closes its side, and the client is read again
    exact ⟨⟨.serverReadable false, { serverReads := [.data []] }, _⟩, _,
      .step (.exchangeEnd heof (written_nil _) rfl (.inl rfl)),
      ⟨rfl, Io.behaves_serverEof⟩, trivial, Nat.one_lt_two,
      by simp [Outcome.otherSteps, Phase.otherSteps, writesResponse]⟩

/-- How much of `response_buf` has not been fetched. -/
def Connection.unread (c : Connection cfg L) : Bytes := c.client.responseBuf.elim [] (·.unread)

theorem Phase.otherSteps_le (ph : Phase cfg L) : ph.otherSteps ≤ 2 := by
  unfold otherSteps
  split
  · split <;> omega
  all_goals omega

/-- Only in reply-only mode of slow mode it takes more, one event for each byte that is left. -/
theorem Rep.closingSteps_le {s : Session cfg L} {c : Connection cfg L} (hrep : Rep s c) :
    s.phase.closingSteps ≤ 2 + c.unread.length := by
  cases hrep with
  | slowReply =>
    simp only [Phase.closingSteps, Connection.unread, slowClient, Option.elim_some,
      FIFOfilebuf.unread_queue]
    omega
  | _ =>
    simp only [Phase.closingSteps]
    exact (Phase.otherSteps_le _).trans (Nat.le_add_right _ _)

/-- **No state is a dead end.** From every state a connection reaches, some of its own events, with
peers that do what they should, lead to its end. At most two of them write nothing of a response,
and all together they are at most two more than `response_buf` has bytes left. -/
theorem closable {tr : List (Entry cfg L)} {c : Connection cfg L} (h : Run tr (.live c))
    (hsize : 1 < cfg.sockIoBufSize) :
    ∃ tr' : List (Entry cfg L), RunFrom (.live c) tr' .deleted ∧
      tr'.countP (fun e => !writesResponse e.calls) ≤ 2 ∧
      tr'.length ≤ 2 + c.unread.length ∧ ∀ e ∈ tr', e.cb.own = true ∧ e.io.Behaves := by
  obtain ⟨out, hrep, -⟩ := h.invariant (I := fun _ _ => True) trivial fun _ _ _ => trivial
  obtain ⟨s, rfl, hrep⟩ := hrep.live
  obtain ⟨tr', hrun, hlen, hcount, hown⟩ :=
    fired_end (reaches_end (fun s _ => advances hsize s) trivial) hrep
  exact ⟨tr', hrun, hcount.trans s.phase.otherSteps_le, hlen.trans hrep.closingSteps_le, hown⟩

/-- A response of which two bytes are left, in reply-only mode of slow mode. -/
theorem closable_reply :
    ∃ (tr : List (Entry .shipped .bodiless)) (c : Connection .shipped .bodiless),
      Run tr (.live c) ∧ c.unread = ascii "OK" ∧
        ∃ tr' : List (Entry .shipped .bodiless), RunFrom (.live c) tr' .deleted ∧
          tr'.countP (fun e => !writesResponse e.calls) ≤ 2 ∧ tr'.length ≤ 4 ∧
          ∀ e ∈ tr', e.cb.own = true ∧ e.io.Behaves := by
  obtain ⟨tr, st, hrun, htr⟩ := exists_run (L := .bodiless)
    [(.slowSwitch, {}),
      (.clientReadable, { clientReads := [.data (ascii "GET / HTTP/1.1\r\n\r\n")] }),
      (.serverReadable false, { serverReads := [.data (ascii "OK")] })]
    (fun (_ : List (Entry .shipped _)) st => st.isLiveWith fun c => c.unread == ascii "OK")
    (by decide +kernel)
  obtain ⟨c, rfl, hc⟩ := Status.isLiveWith_iff.mp htr
  have hleft := eq_of_beq hc
  obtain ⟨tr', hend, hcount, hlen, hown⟩ := closable hrun (by decide)
  rw [hleft] at hlen
  exact ⟨tr, c, hrun, hleft, tr', hend, hcount, hlen, hown⟩

/-! ### Without its peers -/

/-- Both peers have gone: reads find the end of file, writes fail, and there is no server to
connect to. -/
def Io.gone : Io where
  clientReads := [.data []]
  clientWrites := [.failed .other]
  serverReads := [.data []]
  serverWrites := [.failed .other]
  connectOk := false

/-- Without its peers only a tick ends the session: nothing is read into full queues, and a write
that fails is tried again. -/
def Phase.Lingers : Phase cfg L → Prop
  | .fast _ _ cq sq _ _ => cq.remainingSpace = 0 ∧ sq.remainingSpace = 0
  | .slowReply b _ => b.unread ≠ []
  | _ => False

/-- The same of a connection. -/
def Connection.Lingers (c : Connection cfg L) : Prop :=
  (c.fastMode = true ∧ ∃ s cq sq, c.server = some s ∧ c.client.queuedOutput = some cq ∧
    s.queuedOutput = some sq ∧ cq.remainingSpace = 0 ∧ sq.remainingSpace = 0) ∨
  (c.fastMode = false ∧ c.parser = none ∧ c.unread ≠ [])

theorem Rep.lingers {s : Session cfg L} {c : Connection cfg L} (hrep : Rep s c) :
    c.Lingers ↔ s.phase.Lingers := by
  cases hrep <;> simp [Connection.Lingers, Phase.Lingers, Connection.unread, slowClient]

/-- Nothing of a queue is written to a peer that has gone. -/
theorem gone_write {q q' : Circularbuf cfg.sockIoBufSize} {w : WriteOutcome}
    (hw : q.writeAllTo [.failed .other] = .ok (q', w)) :
    q'.remainingSpace = q.remainingSpace ∧ w.data = [] := by
  rw [Circularbuf.remainingSpace_eq, Circularbuf.remainingSpace_eq]
  by_cases hnil : q.contents = []
  · have hcontents := contents_of_writeAllTo hw
    rw [hnil] at hcontents
    obtain ⟨hdata, hq'⟩ := List.append_eq_nil_iff.mp hcontents.symm
    exact ⟨by rw [hq', hnil], hdata⟩
  · obtain ⟨q₁, hw₁, hcontents⟩ := Circularbuf.writeAllTo_failed hnil .other []
    obtain ⟨rfl, rfl⟩ := Prod.mk.inj (Except.ok.inj (hw₁.symm.trans hw))
    exact ⟨by rw [hcontents], rfl⟩

/-- A queue into which nothing is copied has the room it had. -/
theorem remainingSpace_copyFrom_nil (q : Circularbuf cfg.sockIoBufSize) :
    (q.copyFrom []).1.remainingSpace = q.remainingSpace := by
  rw [Circularbuf.remainingSpace_eq, Circularbuf.remainingSpace_eq,
    (Circularbuf.copyFrom_fits (Nat.zero_le _)).1, List.append_nil]

/-- Nothing is read into full queues, so both overloads of `fast_forward` leave them full. -/
theorem Session.FastForwardToServer.lingers {n : Counts} {p : HttpParser L} {hist : Bytes}
    {cq sq : Circularbuf cfg.sockIoBufSize} {cw : Bool} {calls : List Call} {out : Outcome cfg L}
    (h : FastForwardToServer n p hist cq sq cw .gone calls out) (hcq : cq.remainingSpace = 0)
    (hsq : sq.remainingSpace = 0) : ∃ s', out = .live s' ∧ s'.phase.Lingers := by
  -- there is no room, so nothing is read, not even the end of file
  have hread : readAll Io.gone.clientReads sq.remainingSpace = {} := by
    rw [hsq]
    rfl
  cases h with
  | malformedReply ho hp | malformedDelete ho hp =>
    obtain rfl := hread.symm.trans ho
    cases hp
  | @histFault o p' f ho hp hhist =>
    obtain rfl := hread.symm.trans ho
    obtain ⟨hist', hok⟩ := recorded_nil cfg .gone rfl p' hist
    cases hok.symm.trans hhist
  | eof ho hp hhist hw heof =>
    obtain rfl := hread.symm.trans ho
    cases heof
  | forward ho hp hhist hw heof =>
    obtain rfl := hread.symm.trans ho
    refine ⟨_, rfl, hcq, ?_⟩
    rw [(gone_write hw).1, remainingSpace_copyFrom_nil, hsq]

theorem Session.FastForwardToClient.lingers {n : Counts} {p : HttpParser L} {hist : Bytes}
    {cq sq : Circularbuf cfg.sockIoBufSize} {sw : Bool} {calls : List Call} {out : Outcome cfg L}
    (h : FastForwardToClient n p hist cq sq sw .gone calls out) (hcq : cq.remainingSpace = 0)
    (hsq : sq.remainingSpace = 0) : ∃ s', out = .live s' ∧ s'.phase.Lingers := by
  have hread : readAll Io.gone.serverReads cq.remainingSpace = {} := by
    rw [hcq]
    rfl
  cases h with
  | eofReply ho hw heof hne | eofDelete ho hw heof hnil =>
    obtain rfl := hread.symm.trans ho
    cases heof
  | forward ho hw heof =>
    obtain rfl := hread.symm.trans ho
    refine ⟨_, rfl, ?_, hsq⟩
    rw [(gone_write hw).1, remainingSpace_copyFrom_nil, hcq]

/-- **Without its peers a session that lingers goes on lingering**, but for ticks and signals. -/
theorem Session.Step.lingers {s : Session cfg L} {cb : Callback} {calls : List Call}
    {out : Outcome cfg L} (h : Step s cb .gone calls out) (hs : s.phase.Lingers)
    (hcb : cb.own = true) : ∃ s', out = .live s' ∧ s'.phase.Lingers := by
  cases h with
  | fastClientReadable h => exact h.lingers hs.1 hs.2
  | fastServerReadable h => exact h.lingers hs.1 hs.2
  -- a write that fails leaves the queue as full as it was
  | fastClientWritable hw => exact ⟨_, rfl, (gone_write hw).1.trans hs.1, hs.2⟩
  | fastServerWritable hw => exact ⟨_, rfl, hs.1, (gone_write hw).1.trans hs.2⟩
  | @slowReplyDeliver _ b _ _ _ _ h =>
    cases h with
    | some hne hw =>
      subst hw
      have hnone : (writeAll Io.gone.clientWrites (b.unread.take cfg.sockIoBufSize)).data = [] := by
        unfold Io.gone writeAll
        split <;> rfl
      refine ⟨_, rfl, ?_⟩
      show b.unread.drop _ ≠ []
      rw [hnone]
      exact hs
  -- a response is left, so `fetch` returns something
  | slowReplyDone h =>
    cases h with
    | none hnil => exact absurd hnil hs
  | monitorDrop | monitorKeep | monitorSwitch | monitorFault => cases hcb
  | signalSlow | signalSwitch | signalFault => cases hcb
  | _ => exact hs.elim

/-- In reply-only mode a write that fails ends the connection. -/
theorem Session.reply_ends (io : Io) (hio : io.clientWrites = [.failed .other]) (n : Counts)
    (cq : Circularbuf cfg.sockIoBufSize) :
    ∃ calls, Step (⟨n, .reply cq⟩ : Session cfg L) .clientWritable io calls .deleted := by
  by_cases hnil : cq.contents = []
  · obtain ⟨cq', w, hw, -⟩ := cq.writeAllTo_spec io.clientWrites
    have hcontents := contents_of_writeAllTo hw
    rw [hnil] at hcontents
    exact ⟨_, .replyDone hw (.inr (List.append_eq_nil_iff.mp hcontents.symm).2)⟩
  · obtain ⟨cq', hw, -⟩ := Circularbuf.writeAllTo_failed hnil .other []
    rw [← hio] at hw
    exact ⟨_, .replyDone hw (.inl ⟨rfl, rfl⟩)⟩

/-- How many events it takes at most to end a session whose peers have gone. -/
def Phase.goneSteps : Phase cfg L → ℕ
  | .fast _ _ _ sq cw sw =>
    if sq.remainingSpace = 0 then if cw then 3 else 2 else if sw then 2 else 1
  | .transition .. | .exchange .. => 2
  | _ => 1

/-- The same of an outcome. -/
def Outcome.goneSteps : Outcome cfg L → ℕ
  | .live s => s.phase.goneSteps
  | _ => 0

/-- A client that has gone is noticed as soon as there is room for what it sends. -/
theorem Session.advances_gone_client (n : Counts) (p : HttpParser L) (hist : Bytes)
    (cq sq : Circularbuf cfg.sockIoBufSize) (cw sw : Bool) (hsq : sq.remainingSpace ≠ 0) :
    Advances (· = .gone) (fun s => ¬ s.phase.Lingers) (fun _ => false) Outcome.goneSteps
      (fun _ => 0) (⟨n, .fast p hist cq sq cw sw⟩ : Session cfg L) := by
  cases sw with
  | true =>
    -- the server's writing event gives the client its reading event back
    obtain ⟨sq', w, hw, -⟩ := sq.writeAllTo_spec Io.gone.serverWrites
    have hroom : sq'.remainingSpace ≠ 0 := by rwa [(gone_write hw).1]
    exact ⟨⟨.serverWritable, .gone, _⟩, _, .step (.fastServerWritable hw), ⟨rfl, rfl⟩,
      fun hl => hroom hl.2, by simp [Outcome.goneSteps, Phase.goneSteps, hroom, hsq], le_rfl⟩
  | false =>
    obtain ⟨p', hp⟩ : ∃ p', p.doParse [] = some p' := ⟨_, rfl⟩
    obtain ⟨hist', hhist⟩ := recorded_nil cfg .gone rfl p' hist
    obtain ⟨sq', w, hw, -⟩ := (sq.copyFrom []).1.writeAllTo_spec Io.gone.serverWrites
    exact ⟨⟨.clientReadable, .gone, _⟩, _,
      .step (.fastClientReadable (.eof (readAll_eof hsq) hp hhist hw rfl)), ⟨rfl, rfl⟩, trivial,
      by simp [Outcome.goneSteps, Phase.goneSteps, hsq], le_rfl⟩

/-- While the queue of the server is full, it is the server that is noticed. -/
theorem Session.advances_gone_server (n : Counts) (p : HttpParser L) (hist : Bytes)
    (cq sq : Circularbuf cfg.sockIoBufSize) (cw sw : Bool) (hcq : cq.remainingSpace ≠ 0)
    (hsq : sq.remainingSpace = 0) :
    Advances (· = .gone) (fun s => ¬ s.phase.Lingers) (fun _ => false) Outcome.goneSteps
      (fun _ => 0) (⟨n, .fast p hist cq sq cw sw⟩ : Session cfg L) := by
  cases cw with
  | true =>
    -- the client's writing event gives the server its reading event back
    obtain ⟨cq', w, hw, -⟩ := cq.writeAllTo_spec Io.gone.clientWrites
    have hroom : cq'.remainingSpace ≠ 0 := by rwa [(gone_write hw).1]
    exact ⟨⟨.clientWritable, .gone, _⟩, _, .step (.fastClientWritable hw), ⟨rfl, rfl⟩,
      fun hl => hroom hl.1, by simp [Outcome.goneSteps, Phase.goneSteps, hsq], le_rfl⟩
  | false =>
    have hread := readAll_eof hcq
    obtain ⟨cq', w, hw, -⟩ := (cq.copyFrom []).1.writeAllTo_spec Io.gone.clientWrites
    by_cases hnil : cq'.contents = []
    · exact ⟨⟨.serverReadable false, .gone, _⟩, _,
        .step (.fastServerReadable (.eofDelete hread hw rfl hnil)), ⟨rfl, rfl⟩, trivial,
        by simp [Outcome.goneSteps, Phase.goneSteps, hsq], le_rfl⟩
    · -- what is left for the client fails to be written at the next event
      exact ⟨⟨.serverReadable false, .gone, _⟩, _,
        .step (.fastServerReadable (.eofReply hread hw rfl hnil)), ⟨rfl, rfl⟩, id,
        by simp [Outcome.goneSteps, Phase.goneSteps, hsq], le_rfl⟩

/-- **Without its peers a session that does not linger goes on towards its end.** -/
theorem Session.advances_gone (s : Session cfg L) (hs : ¬ s.phase.Lingers) :
    Advances (· = .gone) (fun s => ¬ s.phase.Lingers) (fun _ => false) Outcome.goneSteps
      (fun _ => 0) s := by
  have heof := readAll_eof cfg.sockIoBufSize_pos.ne'
  obtain ⟨n, ph⟩ := s
  cases ph with
  | fresh => exact ⟨⟨.clientReadable, .gone, _⟩, _, .step (.freshRefused rfl), ⟨rfl, rfl⟩, trivial,
      Nat.one_pos, le_rfl⟩
  | fast p hist cq sq cw sw =>
    by_cases hsq : sq.remainingSpace = 0
    · exact advances_gone_server n p hist cq sq cw sw (fun hcq => hs ⟨hcq, hsq⟩) hsq
    · exact advances_gone_client n p hist cq sq cw sw hsq
  | reply cq =>
    obtain ⟨calls, hstep⟩ := reply_ends (L := L) .gone rfl n cq
    exact ⟨⟨.clientWritable, .gone, calls⟩, _, .step hstep, ⟨rfl, rfl⟩, trivial, Nat.one_pos,
      le_rfl⟩
  | transition p b sq cw sw =>
    exact ⟨⟨.serverReadable true, .gone, _⟩, _, .step .transitionTimeout, ⟨rfl, rfl⟩, id,
      Nat.one_lt_two, le_rfl⟩
  | idle p b stale cw =>
    exact ⟨⟨.clientReadable, .gone, _⟩, _, .step (.idleEof heof rfl), ⟨rfl, rfl⟩, trivial,
      Nat.one_pos, le_rfl⟩
  | exchange p b stale cw sw =>
    exact ⟨⟨.serverReadable false, .gone, _⟩, _,
      .step (.exchangeEnd heof (written_nil _) rfl (.inl rfl)), ⟨rfl, rfl⟩, id, Nat.one_lt_two,
      le_rfl⟩
  | slowReply b stale =>
    have hnil : b.unread = [] := not_not.mp hs
    exact ⟨⟨.clientWritable, .gone, _⟩, _, .step (.slowReplyDone (.none hnil)), ⟨rfl, rfl⟩,
      trivial, Nat.one_pos, le_rfl⟩

/-- **Ended by its peers.** When both peers have gone, a connection comes to its end by its own
events, whatever state it has reached, unless it has left fast mode as a reply-only connection with
a response to write, or both its queues are full: then it takes a tick. -/
theorem ended_by_peers {tr : List (Entry cfg L)} {c : Connection cfg L} (h : Run tr (.live c)) :
    (∃ tr' : List (Entry cfg L), RunFrom (.live c) tr' .deleted ∧
      ∀ e ∈ tr', e.cb.own = true ∧ e.io = .gone) ↔ ¬ c.Lingers := by
  obtain ⟨out, hrep, -⟩ := h.invariant (I := fun _ _ => True) trivial fun _ _ _ => trivial
  obtain ⟨s, rfl, hrep⟩ := hrep.live
  rw [hrep.lingers]
  constructor
  · rintro ⟨tr', hrun, hgone⟩ hs
    obtain ⟨out, hout, s', rfl, -⟩ := hrun.invariant_of
      (P := fun e => e.cb.own = true ∧ e.io = .gone)
      (I := fun _ out => ∃ s', out = .live s' ∧ s'.phase.Lingers)
      (show (Outcome.live s).Represents (.live c) from hrep) ⟨s, rfl, hs⟩
      (by
        rintro tr s c cb io calls out ⟨s', hs', hl⟩ - hstep ⟨hcb, hio⟩
        obtain rfl := Outcome.live.inj hs'
        obtain rfl : io = .gone := hio
        exact hstep.lingers hl hcb)
      hgone
    exact hout.elim
  · intro hs
    obtain ⟨tr', hrun, -, -, hgone⟩ := fired_end (P := (· = .gone))
      (reaches_end (fun s hs => advances_gone s hs) hs) hrep
    exact ⟨tr', hrun, hgone⟩

/-- A server whose response is no HTTP, and a client that goes before it has had all of it. -/
theorem ended_by_peers_reply :
    ∃ (tr : List (Entry .shipped .bodiless)) (c : Connection .shipped .bodiless),
      Run tr (.live c) ∧ c.Lingers ∧
        ¬ ∃ tr' : List (Entry .shipped .bodiless), RunFrom (.live c) tr' .deleted ∧
          ∀ e ∈ tr', e.cb.own = true ∧ e.io = .gone := by
  obtain ⟨tr, st, hrun, htr⟩ := exists_run (L := .bodiless)
    [(.slowSwitch, {}),
      (.clientReadable, { clientReads := [.data (ascii "GET / HTTP/1.1\r\n\r\n")] }),
      (.serverReadable false, { serverReads := [.data (ascii "oops")] })]
    (fun (_ : List (Entry .shipped _)) st =>
      st.isLiveWith fun c => !c.fastMode && c.parser.isNone && !c.unread.isEmpty)
    (by decide +kernel)
  obtain ⟨c, rfl, hc⟩ := Status.isLiveWith_iff.mp htr
  have hl : c.Lingers := .inr (by simpa [and_assoc] using hc)
  exact ⟨tr, c, hrun, hl, fun hend => (ended_by_peers hrun).mp hend hl⟩

end LSProxy
