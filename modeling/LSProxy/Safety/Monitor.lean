import LSProxy.Safety.Handover
import LSProxy.Safety.Streams

/-!
# Ticks and signals

`monitor_data_rates` judges a connection by its two counters, and `put_events_slow_mode` judges it
not at all: both may run `set_slow_mode` on it at any time.

* `rate_accounting` — at a tick the counters are the bytes moved since the tick before it exactly
  when none of these bytes was moved by `Client::on_writable`, or read from the client in slow
  mode: these paths leave the counters alone;
* `fail_closed` — a connection that has been put in reply-only mode in fast mode only writes what
  is queued and is deleted, exactly as long as `set_slow_mode` is not run on it: it takes the
  connection for a new one, and reads the client again.
-/

namespace LSProxy

open Session

variable {cfg : Config} {L : Llhttp}

/-! ### Rates -/

/-- Bytes written to the client. -/
@[simp] def Call.toClient : Call → Bytes
  | .clientWrite bs | .page503 bs => bs
  | _ => []

/-- How many bytes the calls read from the client. -/
def bytesRead (calls : List Call) : ℕ := (calls.flatMap (·.clientIn)).length

/-- How many bytes the calls write to the client. -/
def bytesWritten (calls : List Call) : ℕ := (calls.flatMap (·.toClient)).length

@[simp] theorem bytesRead_append (calls calls' : List Call) :
    bytesRead (calls ++ calls') = bytesRead calls + bytesRead calls' := by
  simp [bytesRead]

@[simp] theorem bytesWritten_append (calls calls' : List Call) :
    bytesWritten (calls ++ calls') = bytesWritten calls + bytesWritten calls' := by
  simp [bytesWritten]

/-- The event moves bytes that no counter sees: the client is read in slow mode, or
`Client::on_writable` writes to it. -/
def Entry.uncounted (e : Entry cfg L) : Bool :=
  match e.cb with
  | .clientReadable =>
    !e.conn.fastMode && !(readAll e.io.clientReads cfg.sockIoBufSize).data.isEmpty
  | .clientWritable =>
    if e.conn.fastMode then
      e.conn.client.queuedOutput.any fun q =>
        match q.writeAllTo e.io.clientWrites with
        | .ok (_, o) => !o.data.isEmpty
        | .error _ => false
    else
      e.conn.client.responseBuf.any fun b =>
        !(writeAll e.io.clientWrites (b.unread.take cfg.sockIoBufSize)).data.isEmpty
  | _ => false

/-- What a step between two ticks does to the counters: they grow by no more than what is moved,
and by just that unless it is moved uncounted. -/
structure Counts.Tracks (n n' : Counts) (calls : List Call) (uncounted : Bool) : Prop where
  read_le : n'.read ≤ n.read + bytesRead calls
  write_le : n'.write ≤ n.write + bytesWritten calls
  exact_iff : (n'.read = n.read + bytesRead calls ∧ n'.write = n.write + bytesWritten calls) ↔
    uncounted = false

theorem Counts.Tracks.still (n : Counts) {calls : List Call} {uncounted : Bool}
    (hr : bytesRead calls = 0) (hw : bytesWritten calls = 0) (hu : uncounted = false) :
    n.Tracks n calls uncounted :=
  ⟨by omega, by omega, by simp [hr, hw, hu]⟩

theorem Session.Deliver.tracks {n : Counts} {b b' : SlowBufs} {io : Io} {calls : List Call}
    {cw : Bool} (h : Deliver cfg b io calls b' cw) :
    n.Tracks n calls
      (!(writeAll io.clientWrites (b.unread.take cfg.sockIoBufSize)).data.isEmpty) := by
  cases h with
  | some _ hw => exact ⟨by simp [bytesRead], by simp, by simp [bytesRead, bytesWritten, hw]⟩
  | none hnil =>
    refine .still n rfl rfl ?_
    have hpre := writeAll_isPrefix io.clientWrites (b.unread.take cfg.sockIoBufSize)
    rw [hnil, List.take_nil] at hpre ⊢
    rw [List.prefix_nil.mp hpre]
    rfl

/-- One step between two ticks. -/
theorem Session.Step.tracks {s s' : Session cfg L} {c : Connection cfg L} {cb : Callback} {io : Io}
    {calls : List Call} (h : Step s cb io calls (.live s')) (hrep : Rep s c) (hcb : cb ≠ .monitor) :
    s.counts.Tracks s'.counts calls (⟨c, cb, io, calls⟩ : Entry cfg L).uncounted := by
  cases h with
  | monitorKeep | monitorSwitch => exact absurd rfl hcb
  -- fast mode counts what it reads and writes in `fast_forward`
  | freshConnect _ h | fastClientReadable h =>
    cases hrep
    cases h <;> exact ⟨by simp [bytesRead], by simp,
      by simp [bytesRead, bytesWritten, Entry.uncounted]⟩
  | fastServerReadable h =>
    cases h <;> exact ⟨by simp, by simp [bytesWritten],
      by simp [bytesRead, bytesWritten, Entry.uncounted]⟩
  -- elsewhere nothing is counted
  | fastClientWritable hw | replyMore hw =>
    cases hrep
    exact ⟨by simp, by simp, by simp [bytesRead, bytesWritten, Entry.uncounted, hw]⟩
  | idleRead ho | idleMalformedReply ho =>
    cases hrep
    exact ⟨by simp, by simp, by simp [bytesRead, bytesWritten, Entry.uncounted, ho]⟩
  | idleDispatch ho _ _ _ h =>
    cases hrep
    cases h with
    | connect => exact ⟨by simp, by simp, by simp [bytesRead, bytesWritten, Entry.uncounted, ho]⟩
  | transitionDeliver h | idleDeliver h | exchangeDeliver h | slowReplyDeliver h =>
    cases hrep
    simpa [Entry.uncounted, slowClient] using h.tracks
  | _ => exact .still _ rfl rfl rfl

/-- One stretch of a run after another. -/
theorem Counts.Tracks.trans {n n' n'' : Counts} {calls calls' : List Call} {u u' : Bool}
    (h : n.Tracks n' calls u) (h' : n'.Tracks n'' calls' u') :
    n.Tracks n'' (calls ++ calls') (u || u') := by
  have hr := h.read_le
  have hw := h.write_le
  have hr' := h'.read_le
  have hw' := h'.write_le
  refine ⟨?_, ?_, ?_⟩
  · rw [bytesRead_append]
    omega
  · rw [bytesWritten_append]
    omega
  · rw [bytesRead_append, bytesWritten_append, Bool.or_eq_false_iff, ← h.exact_iff,
      ← h'.exact_iff]
    omega

/-- The counters since they were last reset. -/
theorem RunFrom.tracks {st₀ st : Status cfg L} {s₀ : Session cfg L} {tr : List (Entry cfg L)}
    (h : RunFrom st₀ tr st) (hrep : (Outcome.live s₀).Represents st₀)
    (hno : ∀ x ∈ tr, x.cb ≠ .monitor) :
    ∃ out : Outcome cfg L, out.Represents st ∧
      ∀ s, out = .live s → s₀.counts.Tracks s.counts (callsOf tr) (tr.any (·.uncounted)) := by
  refine h.invariant_of (P := fun x => x.cb ≠ .monitor)
    (I := fun tr out => ∀ s, out = .live s →
      s₀.counts.Tracks s.counts (callsOf tr) (tr.any (·.uncounted))) hrep ?_ ?_ hno
  · rintro s heq
    obtain rfl := Outcome.live.inj heq
    exact .still _ rfl rfl rfl
  · rintro tr s c cb io calls out hI hrep hstep hcb s' rfl
    rw [callsOf_append, callsOf_singleton, List.any_append]
    simpa using (hI s rfl).trans (hstep.tracks hrep hcb)

/-- A tick resets the counters of a connection it keeps. -/
theorem Session.Step.resets {s s' : Session cfg L} {io : Io} {calls : List Call}
    (h : Step s .monitor io calls (.live s')) : s'.counts = {} := by
  cases h <;> rfl

/-- After a tick the counters of a connection that lives are zero. -/
theorem Run.reset {pre : List (Entry cfg L)} {t : Entry cfg L} {c : Connection cfg L}
    (h : Run (pre ++ [t]) (.live c)) (ht : t.cb = .monitor) :
    ∃ s : Session cfg L, s.counts = {} ∧ (Outcome.live s).Represents (.live c) := by
  obtain ⟨st₀, hpre, htick⟩ := h.split
  obtain ⟨out₀, hrep₀, -⟩ := hpre.invariant (I := fun _ _ => True) trivial fun _ _ _ => trivial
  obtain ⟨s₀, out, rfl, -, hstep, hout⟩ := htick.step hrep₀
  rw [ht] at hstep
  obtain ⟨s, rfl, hrep⟩ := hout.live
  exact ⟨s, hstep.resets, hrep⟩

/-- What a tick does to a connection that has read `r` and written `w` bytes by its counters. -/
theorem Session.Step.judged {s : Session cfg L} {c : Connection cfg L} {io : Io}
    {calls : List Call} {out : Outcome cfg L} {st : Status cfg L}
    (h : Step s .monitor io calls out) (hrep : Rep s c) (hout : out.Represents st) :
    (st = .deleted → s.counts.read < cfg.minDown ∧ s.counts.write < cfg.minDown) ∧
      ∀ c', st = .live c' → c'.fastMode = false → c.fastMode = true →
        s.counts.read + s.counts.write < cfg.minDtr := by
  cases h with
  | monitorDrop hdrop =>
    refine ⟨fun _ => ⟨hdrop.2, hdrop.1⟩, ?_⟩
    rintro c' rfl
    exact hout.elim
  | monitorKeep =>
    refine ⟨?_, ?_⟩
    · rintro rfl
      exact hout.elim
    · rintro c' rfl hslow hfast
      -- a connection that was kept is in the mode it was in
      rw [hrep.fastMode] at hfast
      rw [Rep.fastMode hout] at hslow
      exact absurd (hfast.symm.trans hslow) (by simp)
  | monitorSwitch _ _ hslow =>
    refine ⟨?_, fun _ _ _ _ => hslow⟩
    rintro rfl
    exact hout.elim
  | monitorFault =>
    refine ⟨?_, ?_⟩
    · rintro rfl
      exact hout.elim
    · rintro c' rfl
      exact hout.elim

/-- **Rate accounting.** Let `t` and `u` be two successive ticks. The counters that `u` finds are
the bytes read from the client and written to it since `t`, and `u` deletes the connection or
moves it to slow mode only for what it moved, if and only if none of the events between them moves
bytes uncounted. -/
theorem rate_accounting {pre post : List (Entry cfg L)} {t u : Entry cfg L} {st : Status cfg L}
    (h : Run (pre ++ t :: (post ++ [u])) st) (ht : t.cb = .monitor) (hu : u.cb = .monitor)
    (hpost : ∀ x ∈ post, x.cb ≠ .monitor) :
    ((u.conn.client.readCount = bytesRead (callsOf post) ∧
        u.conn.client.writeCount = bytesWritten (callsOf post)) ∧
      (st = .deleted → bytesRead (callsOf post) < cfg.minDown ∧
        bytesWritten (callsOf post) < cfg.minDown) ∧
      ∀ c, st = .live c → c.fastMode = false → u.conn.fastMode = true →
        bytesRead (callsOf post) + bytesWritten (callsOf post) < cfg.minDtr) ↔
    ∀ x ∈ post, x.uncounted = false := by
  rw [List.append_cons] at h
  obtain ⟨st₁, hpre, hrest⟩ := h.split
  obtain ⟨c₁, rfl⟩ : ∃ c, st₁ = .live c := by
    cases post with
    | nil => exact ⟨_, hrest.head⟩
    | cons x post => exact ⟨_, hrest.head⟩
  obtain ⟨s₁, hn, hrep₁⟩ := hpre.reset ht
  obtain ⟨st₂, hmid, hlast⟩ := hrest.split
  obtain ⟨out₂, hrep₂, htracks⟩ := hmid.tracks hrep₁ hpost
  obtain ⟨s₂, out, rfl, hrep, hstep, hout⟩ := hlast.step hrep₂
  rw [hu] at hstep
  obtain ⟨hread, hwrite⟩ := hrep.counts
  obtain ⟨hdel, hslow⟩ := hstep.judged hrep hout
  -- the counters decide: what the tick does follows from them
  have hiff := (htracks s₂ rfl).exact_iff
  simp only [hn, Nat.zero_add, List.any_eq_false, Bool.not_eq_true] at hiff
  rw [hread, hwrite, ← hiff]
  refine ⟨fun hall => hall.1, fun hcounts => ⟨hcounts, ?_⟩⟩
  rw [← hcounts.1, ← hcounts.2]
  exact ⟨hdel, hslow⟩

/-- An interval of fast mode in which all bytes are counted. -/
theorem rate_accounting_counted :
    ∃ (pre post : List (Entry .shipped .bodiless)) (t u : Entry .shipped .bodiless)
      (st : Status .shipped .bodiless), Run (pre ++ t :: (post ++ [u])) st ∧
        bytesRead (callsOf post) = 5 ∧ bytesWritten (callsOf post) = 2 ∧
        u.conn.client.readCount = bytesRead (callsOf post) ∧
        u.conn.client.writeCount = bytesWritten (callsOf post) := by
  obtain ⟨tr, st, hrun, htr⟩ := exists_run (L := .bodiless)
    [(.monitor, {}),
      (.clientReadable, { clientReads := [.data (ascii "GET /")] }),
      (.serverReadable false,
        { serverReads := [.data (ascii "OK")], clientWrites := [.wrote 1] }),
      (.monitor, {})]
    (fun (tr : List (Entry .shipped _)) _ =>
      cut 0 tr fun _ t rest => t.cb == .monitor && cut 2 rest fun post u last =>
        last.isEmpty && u.cb == .monitor && post.all (fun x => x.cb != .monitor && !x.uncounted) &&
          bytesRead (callsOf post) == 5 && bytesWritten (callsOf post) == 2)
    (by decide +kernel)
  obtain ⟨pre, t, rest, rfl, hcut⟩ := of_cut htr
  rw [Bool.and_eq_true, beq_iff_eq] at hcut
  obtain ⟨ht, hrest⟩ := hcut
  obtain ⟨post, u, last, rfl, hu⟩ := of_cut hrest
  simp only [Bool.and_eq_true, beq_iff_eq, List.all_eq_true, bne_iff_ne, Bool.not_eq_true',
    List.isEmpty_iff] at hu
  obtain ⟨⟨⟨⟨rfl, hu⟩, hpost⟩, hr⟩, hw⟩ := hu
  obtain ⟨hcounts, -⟩ := (rate_accounting hrun ht hu fun x hx => (hpost x hx).1).mpr
    fun x hx => (hpost x hx).2
  exact ⟨pre, post, t, u, st, hrun, hr, hw, hcounts⟩

/-- A client that uploads in slow mode is deleted for moving too little. -/
theorem uploader_deleted :
    ∃ (pre post : List (Entry .shipped .bodiless)) (t u : Entry .shipped .bodiless),
      Run (pre ++ t :: (post ++ [u])) .deleted ∧ t.cb = .monitor ∧ u.cb = .monitor ∧
        (∀ x ∈ post, x.cb ≠ .monitor) ∧
        ¬ (bytesRead (callsOf post) < Config.shipped.minDown ∧
          bytesWritten (callsOf post) < Config.shipped.minDown) := by
  obtain ⟨tr, st, hrun, htr⟩ := exists_run (L := .bodiless)
    [(.slowSwitch, {}), (.monitor, {}),
      (.clientReadable, { clientReads := [.data (ascii "GET /" ++ List.replicate 1000 97)] }),
      (.monitor, {})]
    (fun (tr : List (Entry .shipped _)) st =>
      st.isDeleted && cut 1 tr fun _ t rest => t.cb == .monitor && cut 1 rest fun post u last =>
        last.isEmpty && u.cb == .monitor && post.all (·.cb != .monitor) &&
          decide (1000 ≤ bytesRead (callsOf post)))
    (by decide +kernel)
  rw [Bool.and_eq_true, Status.isDeleted_iff] at htr
  obtain ⟨rfl, htr⟩ := htr
  obtain ⟨pre, t, rest, rfl, hcut⟩ := of_cut htr
  rw [Bool.and_eq_true, beq_iff_eq] at hcut
  obtain ⟨ht, hrest⟩ := hcut
  obtain ⟨post, u, last, rfl, hu⟩ := of_cut hrest
  simp only [Bool.and_eq_true, beq_iff_eq, List.all_eq_true, bne_iff_ne, decide_eq_true_eq,
    List.isEmpty_iff] at hu
  obtain ⟨⟨⟨rfl, hu⟩, hpost⟩, hr⟩ := hu
  refine ⟨pre, post, t, u, hrun, ht, hu, hpost, fun hlow => ?_⟩
  have hmin : Config.shipped.minDown = 1000 := rfl
  omega

/-! ### Reply-only mode -/

/-- The calls that are left in reply-only mode: writing to the client and closing its socket. -/
def Call.isReply : Call → Bool
  | .clientWrite _ | .closeClient => true
  | _ => false

/-- What has become of a connection that was put in reply-only mode with `q` queued, as long as
`set_slow_mode` is not run on it. -/
def Outcome.Replying (q : Bytes) (calls : List Call) : Outcome cfg L → Prop
  | .live s => ∃ cq, s.phase = .reply cq ∧ q = calls.flatMap (·.clientOut) ++ cq.contents
  | .deleted => calls.flatMap (·.clientOut) <+: q
  | .crashed _ => False

/-- One event of a connection in reply-only mode that does not run `set_slow_mode`. -/
theorem Session.Step.replying {n : Counts} {cq : Circularbuf cfg.sockIoBufSize}
    {c : Connection cfg L} {cb : Callback} {io : Io} {calls calls' : List Call}
    {out : Outcome cfg L} {q : Bytes} (h : Step ⟨n, .reply cq⟩ cb io calls' out)
    (hrep : Rep ⟨n, .reply cq⟩ c) (hsw : (⟨c, cb, io, calls'⟩ : Entry cfg L).switches = false)
    (hq : q = calls.flatMap (·.clientOut) ++ cq.contents) :
    out.Replying q (calls ++ calls') ∧ calls'.all (·.isReply) = true := by
  cases h with
  | @replyDone _ _ cq' _ w hw =>
    rw [contents_of_writeAllTo hw, ← List.append_assoc] at hq
    refine ⟨⟨cq'.contents, ?_⟩, rfl⟩
    rw [hq, List.flatMap_append]
    exact congrArg (fun bs => _ ++ bs ++ cq'.contents) (List.append_nil w.data)
  -- what is written comes off the queue, so the two together stay what they were
  | replyMore hw =>
    rw [contents_of_writeAllTo hw, ← List.append_assoc] at hq
    refine ⟨⟨_, rfl, ?_⟩, rfl⟩
    rw [hq, List.flatMap_append]
    simp
  | monitorDrop =>
    refine ⟨⟨cq.contents, ?_⟩, rfl⟩
    rw [hq, List.flatMap_append]
    exact congrArg (· ++ cq.contents) (List.append_nil _)
  | monitorKeep =>
    rw [List.append_nil]
    exact ⟨⟨cq, rfl, hq⟩, rfl⟩
  -- these run `set_slow_mode`
  | monitorSwitch hkeep hfast hslow | monitorFault hkeep hfast hslow =>
    rw [hrep.switches_monitor hfast hkeep hslow] at hsw
    exact absurd hsw (by simp)
  | signalSlow hslow => exact absurd hslow (by simp [Phase.isFast])
  | signalSwitch h | signalFault h =>
    rw [hrep.switches_signal h.isFast] at hsw
    exact absurd hsw (by simp)

/-- What has happened to a connection since it was put in reply-only mode with `q` queued. -/
inductive AfterReply (q : Bytes) (tr : List (Entry cfg L)) (out : Outcome cfg L) : Prop
  | closed (hsw : ∀ x ∈ tr, x.switches = false) (hq : out.Replying q (callsOf tr))
      (hx : ∀ x ∈ tr, x.conn.client.readEvt = false ∧ x.calls.all (·.isReply) = true)
  | reopened (hsw : ∃ x ∈ tr, x.switches = true)
      (hopen : (∃ x ∈ tr, x.conn.client.readEvt = true) ∨
        ∃ n p b stale cw, out = .live ⟨n, .idle p b stale cw⟩)

theorem AfterReply.step {q : Bytes} {tr : List (Entry cfg L)} {s : Session cfg L}
    {c : Connection cfg L} {cb : Callback} {io : Io} {calls : List Call} {out : Outcome cfg L}
    (hI : AfterReply q tr (.live s)) (hrep : Rep s c) (hstep : Step s cb io calls out) :
    AfterReply q (tr ++ [⟨c, cb, io, calls⟩]) out := by
  cases hI with
  | closed hsw hq hx =>
    obtain ⟨n, ph⟩ := s
    obtain ⟨cq, rfl, hq⟩ := hq
    -- `set_slow_mode` does not ask whether there is only a reply left
    cases hnew : (⟨c, cb, io, calls⟩ : Entry cfg L).switches with
    | false =>
      obtain ⟨hout, hcalls⟩ := hstep.replying hrep hnew hq
      refine .closed ?_ ?_ ?_
      · simpa [or_imp, forall_and, hnew] using hsw
      · rwa [callsOf_append, callsOf_singleton]
      · intro x hmem
        rcases List.mem_append.mp hmem with hmem | hmem
        · exact hx x hmem
        · obtain rfl := List.mem_singleton.mp hmem
          refine ⟨?_, hcalls⟩
          cases hrep
          rfl
    | true =>
      obtain ⟨-, n', r, hswitch, rfl⟩ := hstep.of_switches hrep hnew
      refine .reopened ⟨_, by simp, hnew⟩ (.inr ?_)
      cases hswitch
      exact ⟨_, _, _, _, _, rfl⟩
  | reopened hsw hopen =>
    refine .reopened ?_ (.inl ?_)
    · obtain ⟨x, hmem, hx⟩ := hsw
      exact ⟨x, List.mem_append_left _ hmem, hx⟩
    · rcases hopen with ⟨x, hmem, hx⟩ | ⟨n, p, b, stale, cw, hidle⟩
      · exact ⟨x, List.mem_append_left _ hmem, hx⟩
      · -- this event finds the client being read
        obtain rfl := Outcome.live.inj hidle
        refine ⟨_, List.mem_append_right _ (List.mem_singleton.mpr rfl), ?_⟩
        cases hrep
        rfl

/-- **Fail closed.** Let a connection in fast mode have been put in reply-only mode. From then on
its client is not read, nothing is done on its sockets but writing what is queued and closing them,
if and only if `set_slow_mode` is not run on it. -/
theorem fail_closed {pre post : List (Entry cfg L)} {c : Connection cfg L} {st : Status cfg L}
    (h : Run pre (.live c)) (hreply : c.InPhase .fastReplyOnly)
    (hpost : RunFrom (.live c) post st) :
    ((∀ x ∈ post, x.conn.client.readEvt = false ∧ ∀ call ∈ x.calls, call.isReply = true) ∧
      (callsOf post).flatMap (·.clientOut) <+: queued c.client.queuedOutput ∧
      ∀ c', st = .live c' → c'.client.readEvt = false) ↔
    ∀ x ∈ post, x.switches = false := by
  obtain ⟨out₀, hrep₀, -⟩ := h.invariant (I := fun _ _ => True) trivial fun _ _ _ => trivial
  obtain ⟨s, rfl, hrep⟩ := hrep₀.live
  -- the phase is `reply`: in fast mode it alone has a queue and no server
  have hs : ∃ cq, s.phase = .reply cq ∧ queued c.client.queuedOutput = cq.contents := by
    obtain ⟨hfast, -, hserver, hqueue, -⟩ := hreply
    cases hrep with
    | fresh => exact absurd hqueue (by simp)
    | fast => exact absurd hserver (by simp)
    | reply => exact ⟨_, rfl, rfl⟩
    | _ => exact absurd hfast (by simp)
  obtain ⟨cq, hph, hqueue⟩ := hs
  -- the run keeps the client closed until it meets a switch
  obtain ⟨out, hout, hI⟩ := hpost.invariant
    (I := fun tr out => AfterReply (queued c.client.queuedOutput) tr out) hrep₀
    (.closed (by simp) ⟨cq, hph, hqueue⟩ (by simp)) (fun hI hrep hstep => hI.step hrep hstep)
  cases hI with
  | closed hsw hq hx =>
    refine ⟨fun _ => hsw, fun _ =>
      ⟨fun x hmem => ⟨(hx x hmem).1, List.all_eq_true.mp (hx x hmem).2⟩, ?_, ?_⟩⟩
    · cases out with
      | live s' =>
        obtain ⟨cq', -, heq⟩ := hq
        exact ⟨cq'.contents, heq.symm⟩
      | deleted => exact hq
      | crashed f => exact hq.elim
    · rintro c' rfl
      obtain ⟨⟨n, ph⟩, rfl, hrep'⟩ := hout.live
      obtain ⟨cq', rfl, -⟩ := hq
      cases hrep'
      rfl
  | reopened hsw hopen =>
    obtain ⟨x, hmem, hx⟩ := hsw
    refine ⟨?_, fun hall => absurd (hx.symm.trans (hall x hmem)) (by simp)⟩
    rintro ⟨hev, -, hlive⟩
    -- the reopened client shows in the event after the switch, or in the last state
    rcases hopen with ⟨y, hy, hread⟩ | ⟨n, p, b, stale, cw, rfl⟩
    · exact absurd (hread.symm.trans (hev y hy).1) (by simp)
    · cases st with
      | live c' =>
        have hread := hlive c' rfl
        cases hout
        exact absurd hread (by simp [slowClient])
      | deleted => exact hout.elim
      | crashed f => exact hout.elim

/-- The connection is in reply-only mode, and still in fast mode. -/
def Connection.isReplyOnly (c : Connection cfg L) : Bool :=
  c.fastMode && c.parser.isNone && c.server.isNone && c.client.queuedOutput.isSome &&
    !c.client.readEvt && c.client.writeEvt

theorem Connection.isReplyOnly_iff {c : Connection cfg L} :
    c.isReplyOnly = true ↔ c.InPhase .fastReplyOnly := by
  simp [Connection.isReplyOnly, Connection.InPhase, and_assoc]

/-- A connection in reply-only mode that is left alone writes its queue and is deleted. -/
theorem fail_closed_deleted :
    ∃ (pre post : List (Entry .shipped .bodiless)) (c : Connection .shipped .bodiless),
      Run pre (.live c) ∧ c.InPhase .fastReplyOnly ∧ RunFrom (.live c) post .deleted ∧
        post.length = 2 ∧ ∀ x ∈ post, ∀ call ∈ x.calls, call.isReply = true := by
  obtain ⟨tr, st, hrun, htr⟩ := exists_run (L := .bodiless)
    [(.clientReadable, { clientReads := [.data (ascii "GET / HTTP/1.1\r\n\r\n")] }),
      (.serverReadable false, { serverReads := [.data (ascii "OK"), .data []] }),
      (.monitor, {}), (.clientWritable, { clientWrites := [.wrote 1] })]
    (fun (tr : List (Entry .shipped _)) st =>
      st.isDeleted && cut 2 tr fun _ e rest => e.conn.isReplyOnly && !e.switches &&
        rest.length == 1 && rest.all (!·.switches))
    (by decide +kernel)
  rw [Bool.and_eq_true, Status.isDeleted_iff] at htr
  obtain ⟨rfl, htr⟩ := htr
  obtain ⟨pre, e, rest, rfl, hcut⟩ := of_cut htr
  simp only [Bool.and_eq_true, Bool.not_eq_true', List.all_eq_true, beq_iff_eq] at hcut
  obtain ⟨⟨⟨hreply, he⟩, hlen⟩, hrest⟩ := hcut
  obtain ⟨st₁, hpre, hpost⟩ := hrun.split
  obtain rfl := hpost.head
  have hreply := Connection.isReplyOnly_iff.mp hreply
  obtain ⟨hclosed, -, -⟩ := (fail_closed hpre hreply hpost).mpr (by simpa [he] using hrest)
  exact ⟨pre, e :: rest, e.conn, hpre, hreply, hpost, by simp [hlen], fun x hx => (hclosed x hx).2⟩

/-- After a malformed request the client is in reply-only mode; `SIGUSR1` makes the proxy read it
again and open a connection for its next request. -/
theorem reply_only_reopened :
    ∃ (pre post : List (Entry .shipped .bodiless)) (c : Connection .shipped .bodiless)
      (st : Status .shipped .bodiless), Run pre (.live c) ∧ c.InPhase .fastReplyOnly ∧
        RunFrom (.live c) post st ∧
        ∃ x ∈ post, x.conn.client.readEvt = true ∧ .connect ∈ x.calls := by
  obtain ⟨tr, st, hrun, htr⟩ := exists_run (L := .bodiless)
    [(.clientReadable, { clientReads := [.data (ascii "GET / HTTP/1.1\r\n\r\n")] }),
      (.serverReadable false, { serverReads := [.data (ascii "OK")] }),
      (.serverWritable, { serverWrites := [.wrote 20] }),
      (.clientReadable, { clientReads := [.data (ascii "?")] }),
      (.slowSwitch, {}),
      (.clientReadable, { clientReads := [.data (ascii "GET / HTTP/1.1\r\n\r\n")] })]
    (fun (tr : List (Entry .shipped _)) _ =>
      cut 4 tr fun _ e rest => e.conn.isReplyOnly &&
        rest.any fun x => x.conn.client.readEvt && x.calls.contains .connect)
    (by decide +kernel)
  obtain ⟨pre, e, rest, rfl, hcut⟩ := of_cut htr
  simp only [Bool.and_eq_true, List.any_eq_true, List.contains_eq_mem, decide_eq_true_eq] at hcut
  obtain ⟨hreply, x, hmem, hread, hconn⟩ := hcut
  obtain ⟨st₁, hpre, hpost⟩ := hrun.split
  obtain rfl := hpost.head
  exact ⟨pre, e :: rest, e.conn, st, hpre, Connection.isReplyOnly_iff.mp hreply, hpost, x,
    List.mem_cons_of_mem _ hmem, hread, hconn⟩

end LSProxy
