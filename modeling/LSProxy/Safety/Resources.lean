import LSProxy.Safety.Admission
import LSProxy.Safety.Monitor
import LSProxy.Safety.Projection

/-!
# What the process takes up

`ls_proxy.h` adds up the descriptors and the memory that `MAX_CONNECTION` connections take up at
most. The sums hold, and are not reached: slow mode gives the history back before it opens its
files, and the queues of fast mode go with it.

* `Process.Sound.accounted_card` — the descriptors of the start, of the pool and of the connections;
* `resource_bounds` — `FILE_DESCRIPTORS` and `MEMORY_USAGE`, in every state of the process;
* `slow_memory` — a connection in slow mode holds no buffer in memory, unless it was put there when
  only its last response was left.
-/

namespace LSProxy

open Session

variable {cfg : Config} {L : Llhttp}

/-! ### Descriptors -/

/-- What a connection holds at most: less in fast mode, since slow mode has three files, one of them
opened twice. -/
def Connection.fdLimit (c : Connection cfg L) : ℕ := if c.fastMode then 3 else 6

/-- The object is the timer of a socket. -/
def Object.isCloseTimer : Object → Bool
  | .closeTimer _ _ => true
  | _ => false

namespace Process

/-- The descriptors of connection `b`. -/
def fdsOf (ps : Process cfg L) (b : ℕ) (c : Connection cfg L) : Finset Fd :=
  insert (.client b) (((if c.server.isSome then ps.table.serverOf b else none).toFinset.image
      (.server b)) ∪
    ((if c.client.requestBuf.isSome then
      {.requestBuf b, .requestTmpBuf b, .responseBuf b, .responseReader b} else ∅) ∪
    c.client.histIds.toFinset.image .hist))

theorem card_fdsOf {s : Session cfg L} {c : Connection cfg L} (hrep : Rep s c)
    (ps : Process cfg L) (b : ℕ) : (ps.fdsOf b c).card ≤ c.fdLimit := by
  have hserver : ((if c.server.isSome then ps.table.serverOf b else none).toFinset.image
      (Fd.server b)).card ≤ 1 := by
    refine Finset.card_image_le.trans ?_
    rw [Option.card_toFinset]
    split
    · cases ps.table.serverOf b <;> simp
    · exact Nat.zero_le 1
  have hslow : (({.requestBuf b, .requestTmpBuf b, .responseBuf b, .responseReader b} :
      Finset Fd)).card ≤ 4 := Finset.card_le_four
  have hfiles := hrep.slowBuffers.1
  have hmode := hrep.fastMode
  -- slow mode has no history, fast mode no files
  have hheld : (if c.client.requestBuf.isSome then
      ({.requestBuf b, .requestTmpBuf b, .responseBuf b, .responseReader b} : Finset Fd)
      else ∅).card + (c.client.histIds.toFinset.image Fd.hist).card + 2 ≤ c.fdLimit := by
    unfold Connection.fdLimit
    have hhist : (c.client.histIds.toFinset.image Fd.hist).card ≤
        if c.client.requestHistory.isSome then 1 else 0 := by
      refine Finset.card_image_le.trans ((List.toFinset_card_le _).trans ?_)
      unfold Client.histIds
      cases c.client.requestHistory <;> simp
    -- the files of slow mode come when the history goes
    have hnone : c.fastMode = false → c.client.requestHistory.isSome = false := by
      cases hrep <;> simp [slowClient]
    rw [hfiles, hmode]
    rw [hmode] at hnone
    cases hfast : s.phase.isFast with
    | true =>
      simp only [Bool.not_true, Bool.false_eq_true, if_false, if_true, Finset.card_empty]
      split at hhist <;> omega
    | false =>
      rw [hnone hfast] at hhist
      simp only [Bool.not_false, Bool.false_eq_true, if_false, if_true] at hhist ⊢
      omega
  refine (Finset.card_insert_le _ _).trans ?_
  have hunion := Finset.card_union_le
    ((if c.server.isSome then ps.table.serverOf b else none).toFinset.image (Fd.server b))
    ((if c.client.requestBuf.isSome then
      ({.requestBuf b, .requestTmpBuf b, .responseBuf b, .responseReader b} : Finset Fd)
      else ∅) ∪ c.client.histIds.toFinset.image Fd.hist)
  have hunion' := Finset.card_union_le (if c.client.requestBuf.isSome then
      ({.requestBuf b, .requestTmpBuf b, .responseBuf b, .responseReader b} : Finset Fd)
      else ∅) (c.client.histIds.toFinset.image Fd.hist)
  omega

/-- What the live connections hold at most. -/
def connectionFds (ps : Process cfg L) : ℕ :=
  ∑ b ∈ ps.proxy.members, ((ps.proxy.conns b).map (·.fdLimit)).getD 0

/-- **The descriptors that are accounted for**, but for the sockets that a timer will close. -/
theorem Sound.accounted_card {ps : Process cfg L} (hs : ps.Sound) (hnamed : ps.proxy.Named)
    {fds : Finset Fd} (hfds : ∀ fd ∈ fds, ps.Accounted fd ∧ ¬ ps.Closing fd) :
    fds.card ≤ 7 + ps.proxy.pool.length + ps.connectionFds := by
  have hsub : fds ⊆ Object.process.fds ∪ ((ps.proxy.pool.map (·.id)).toFinset.image Fd.hist ∪
      ps.proxy.members.biUnion fun b => ((ps.proxy.conns b).map (ps.fdsOf b)).getD ∅) := by
    intro fd hfd
    obtain ⟨hacc, hclosing⟩ := hfds fd hfd
    have hacc := hacc.resolve_left hclosing
    have hconn : ∀ b c, ps.proxy.conns b = some c → fd ∈ ps.fdsOf b c →
        fd ∈ Object.process.fds ∪ ((ps.proxy.pool.map (·.id)).toFinset.image Fd.hist ∪
          ps.proxy.members.biUnion fun b => ((ps.proxy.conns b).map (ps.fdsOf b)).getD ∅) := by
      intro b c hc hmem
      refine Finset.mem_union_right _ (Finset.mem_union_right _ ?_)
      refine Finset.mem_biUnion.mpr ⟨b, ?_, ?_⟩
      · exact hnamed.mem_members.mpr (by rw [hc]; rfl)
      · rw [hc]
        exact hmem
    -- by the kind of descriptor
    cases fd with
    | startup f => exact Finset.mem_union_left _ (Table.startup_mem f)
    | client b =>
      obtain ⟨c, hc⟩ := hacc
      exact hconn b c hc (Finset.mem_insert_self _ _)
    | server b n =>
      obtain ⟨c, hc, hsome, hn⟩ := hacc
      exact hconn b c hc (by simp [fdsOf, hsome, hn])
    | requestBuf b =>
      obtain ⟨c, hc, hsome⟩ := hacc
      exact hconn b c hc (by simp [fdsOf, hsome])
    | requestTmpBuf b =>
      obtain ⟨c, hc, hsome⟩ := hacc
      obtain ⟨s, hrep⟩ := hs.owned.rep b c hc
      rw [hrep.slowBuffers.2.1] at hsome
      exact hconn b c hc (by simp [fdsOf, hsome])
    -- the two descriptors of `response_buf` come and go together
    | responseBuf b | responseReader b =>
      obtain ⟨c, hc, hsome⟩ := hacc
      obtain ⟨s, hrep⟩ := hs.owned.rep b c hc
      rw [hrep.slowBuffers.2.2] at hsome
      exact hconn b c hc (by simp [fdsOf, hsome])
    | hist i =>
      rcases hacc with hi | ⟨b, c, hc, hi⟩
      · refine Finset.mem_union_right _ (Finset.mem_union_left _ (Finset.mem_image_of_mem _ ?_))
        exact List.mem_toFinset.mpr hi
      · exact hconn b c hc (by simp [fdsOf, hi])
  have hpool : ((ps.proxy.pool.map (·.id)).toFinset.image Fd.hist).card ≤ ps.proxy.pool.length :=
    Finset.card_image_le.trans ((List.toFinset_card_le _).trans (List.length_map _).le)
  have hconns : (ps.proxy.members.biUnion fun b =>
      ((ps.proxy.conns b).map (ps.fdsOf b)).getD ∅).card ≤ ps.connectionFds := by
    refine Finset.card_biUnion_le.trans (Finset.sum_le_sum fun b hb => ?_)
    cases hc : ps.proxy.conns b with
    -- a slot without a connection holds nothing
    | none => exact le_rfl
    | some c =>
      obtain ⟨s, hrep⟩ := hs.owned.rep b c hc
      exact card_fdsOf hrep ps b
  calc
    fds.card ≤ _ := Finset.card_le_card hsub
    _ ≤ Object.process.fds.card + (((ps.proxy.pool.map (·.id)).toFinset.image Fd.hist).card +
        (ps.proxy.members.biUnion fun b => ((ps.proxy.conns b).map (ps.fdsOf b)).getD ∅).card) :=
      (Finset.card_union_le _ _).trans (Nat.add_le_add_left (Finset.card_union_le _ _) _)
    _ ≤ 7 + (ps.proxy.pool.length + ps.connectionFds) :=
      Nat.add_le_add (by decide) (Nat.add_le_add hpool hconns)
    _ = _ := (Nat.add_assoc _ _ _).symm

/-- The timers of sockets that wait for their peer to close. -/
def closeTimers (ps : Process cfg L) : Finset Object :=
  ps.table.objects.filter (·.isCloseTimer = true)

/-- A timer closes one socket. -/
theorem closing_card {ps : Process cfg L} {fds : Finset Fd} (hfds : ∀ fd ∈ fds, ps.Closing fd) :
    fds.card ≤ ps.closeTimers.card := by
  have hsub : fds ⊆ ps.closeTimers.biUnion Object.fds := by
    intro fd hfd
    obtain ⟨k, hk⟩ := hfds fd hfd
    exact Finset.mem_biUnion.mpr
      ⟨.closeTimer k fd, Finset.mem_filter.mpr ⟨hk, rfl⟩, Finset.mem_singleton_self fd⟩
  calc
    fds.card ≤ _ := Finset.card_le_card hsub
    _ ≤ ∑ x ∈ ps.closeTimers, x.fds.card := Finset.card_biUnion_le
    _ ≤ ∑ _x ∈ ps.closeTimers, 1 := by
      -- a timer of this kind has one descriptor
      refine Finset.sum_le_sum fun x hx => ?_
      have htimer := (Finset.mem_filter.mp hx).2
      cases x with
      | closeTimer k fd => exact (Finset.card_singleton fd).le
      | _ => cases htimer
    _ = _ := (Finset.card_eq_sum_ones _).symm

end Process

/-! ### Memory -/

/-- How many bytes of buffers the connection has in memory. -/
def Connection.memory (c : Connection cfg L) : ℕ :=
  (if c.client.queuedOutput.isSome then cfg.sockIoBufSize else 0) +
    (if c.server.any (·.queuedOutput.isSome) then cfg.sockIoBufSize else 0) +
    if c.client.requestHistory.isSome then cfg.histCacheSize else 0

/-- How many bytes of buffers there are in memory. -/
def Proxy.memory (px : Proxy cfg L) : ℕ :=
  cfg.histCacheSize * px.pool.length + ∑ b ∈ px.members, ((px.conns b).map (·.memory)).getD 0

/-- Two queues for each connection, and the Hybridbufs. -/
theorem Proxy.Named.memory_le {px : Proxy cfg L} (h : px.Named) :
    px.memory ≤ px.members.card * (2 * cfg.sockIoBufSize) +
      (px.pool.length + px.holders.card) * cfg.histCacheSize := by
  have hone : ∀ b ∈ px.members, ((px.conns b).map (·.memory)).getD 0 ≤
      2 * cfg.sockIoBufSize + if b ∈ px.holders then cfg.histCacheSize else 0 := by
    intro b hb
    obtain ⟨c, hc⟩ := Option.isSome_iff_exists.mp (h.mem_members.mp hb)
    -- the Hybridbufs are counted once, by their holders and the pool
    have hheld : b ∈ px.holders ↔ c.client.requestHistory.isSome = true := by
      rw [h.mem_holders, Proxy.holds, hc, Option.any_some]
    simp only [hc, Option.map_some, Option.getD_some, hheld]
    unfold Connection.memory
    split <;> split <;> omega
  have hsum : ∑ b ∈ px.members, (2 * cfg.sockIoBufSize +
      if b ∈ px.holders then cfg.histCacheSize else 0) ≤
      px.members.card * (2 * cfg.sockIoBufSize) + px.holders.card * cfg.histCacheSize := by
    rw [Finset.sum_add_distrib, Finset.sum_const, smul_eq_mul, ← Finset.sum_filter,
      Finset.sum_const, smul_eq_mul]
    refine Nat.add_le_add_left (Nat.mul_le_mul_right _ (Finset.card_le_card fun b hb => ?_)) _
    exact (Finset.mem_filter.mp hb).2
  calc
    px.memory ≤ cfg.histCacheSize * px.pool.length +
        (px.members.card * (2 * cfg.sockIoBufSize) + px.holders.card * cfg.histCacheSize) :=
      Nat.add_le_add_left ((Finset.sum_le_sum hone).trans hsum) _
    _ = _ := by ring

/-- **`FILE_DESCRIPTORS` and `MEMORY_USAGE`.** In every state the process reaches, the descriptors
of the start, of the pool and of the connections are no more than `MAX_FILE_DSC`; those that are
open are no more than that and one for each timer of a closing socket, unless one has been lost; and
the buffers in memory stay within the sum that `ls_proxy.h` gives. -/
theorem resource_bounds {log : List (Process.LogEntry cfg L)} {ps : Process cfg L}
    (h : Process.RunFrom (Process.start cfg L cfg.maxHybridPool) log (.ok ps)) :
    (∀ fds : Finset Fd, (∀ fd ∈ fds, ps.Accounted fd ∧ ¬ ps.Closing fd) →
      fds.card ≤ 7 + ps.proxy.pool.length + ps.connectionFds ∧
        fds.card ≤ 7 * cfg.maxConnection + 7) ∧
    ((∀ x ∈ log, x.leaks = false) →
      ps.table.fds.card ≤ 7 * cfg.maxConnection + 7 + ps.closeTimers.card) ∧
    ps.proxy.memory ≤ cfg.maxConnection * (2 * cfg.sockIoBufSize + cfg.histCacheSize) := by
  classical
  obtain ⟨hs, hpass⟩ := h.passes (Process.sound_start _) ps rfl
  obtain ⟨xss, -, hrun⟩ := h.proxy
  obtain ⟨hcounted, es, hlends, -⟩ := hrun.lends ps.proxy rfl
  have hsound := hlends.sound Proxy.sound_start
  have hmembers : ps.proxy.members.card ≤ cfg.maxConnection := hsound.clients_le
  have hpool : ps.proxy.pool.length ≤ cfg.maxHybridPool := hsound.pooled_le
  have htotal : ps.proxy.pool.length + ps.proxy.holders.card ≤ cfg.maxConnection := hsound.total_le
  have hconns : ps.connectionFds ≤ ps.proxy.members.card * 6 := by
    refine (Finset.sum_le_card_nsmul _ _ 6 fun b _ => ?_).trans_eq (smul_eq_mul _ _)
    cases ps.proxy.conns b with
    | none => exact Nat.zero_le 6
    | some c =>
      show c.fdLimit ≤ 6
      unfold Connection.fdLimit
      split <;> omega
  have haccounted : ∀ fds : Finset Fd, (∀ fd ∈ fds, ps.Accounted fd ∧ ¬ ps.Closing fd) →
      fds.card ≤ 7 + ps.proxy.pool.length + ps.connectionFds ∧
        fds.card ≤ 7 * cfg.maxConnection + 7 := by
    intro fds hfds
    have hcard := hs.accounted_card hcounted.named hfds
    refine ⟨hcard, ?_⟩
    have hquarter : cfg.maxHybridPool ≤ cfg.maxConnection := Nat.div_le_self _ _
    omega
  refine ⟨haccounted, fun hkept => ?_, ?_⟩
  · -- nothing is lost, so what is open is accounted for
    have hlost : ps.table.lost = ∅ := by
      have hsub := hpass.lossless_iff.mpr hkept
      rwa [show (Process.start cfg L cfg.maxHybridPool).table.lost = ∅ from Table.lost_start _,
        Set.subset_empty_iff] at hsub
    have hall : ∀ fd ∈ ps.table.fds, ps.Accounted fd := by
      intro fd hfd
      rw [hs.accounted_iff]
      by_contra hnot
      exact Set.eq_empty_iff_forall_notMem.mp hlost (.fd fd) ⟨hfd, hnot⟩
    have hopen := haccounted (ps.table.fds.filter fun fd => ¬ ps.Closing fd) fun fd hfd =>
      ⟨hall fd (Finset.mem_filter.mp hfd).1, (Finset.mem_filter.mp hfd).2⟩
    have hclosing : (ps.table.fds.filter fun fd => ps.Closing fd).card ≤ ps.closeTimers.card :=
      Process.closing_card fun fd hfd => (Finset.mem_filter.mp hfd).2
    have hsplit :=
      Finset.card_filter_add_card_filter_not (s := ps.table.fds) fun fd => ps.Closing fd
    omega
  · refine hcounted.named.memory_le.trans ?_
    calc
      _ ≤ cfg.maxConnection * (2 * cfg.sockIoBufSize) + cfg.maxConnection * cfg.histCacheSize :=
        Nat.add_le_add (Nat.mul_le_mul_right _ hmembers) (Nat.mul_le_mul_right _ htotal)
      _ = _ := by ring

/-- Two clients are put into slow mode: the start, the pool, and a socket and three files for
each. -/
theorem resource_bounds_two :
    ∃ (log : List (Process.LogEntry .small .bodiless)) (ps : Process .small .bodiless),
      Process.RunFrom (Process.start .small .bodiless Config.small.maxHybridPool) log (.ok ps) ∧
        ps.table.fds.card = 7 + 1 + 2 * (1 + 4) ∧
        ps.table.fds.card ≤ 7 * Config.small.maxConnection + 7 + ps.closeTimers.card := by
  obtain ⟨log, r, hrun, hr⟩ := Process.exists_run (L := .bodiless) Config.small.maxHybridPool
    [.acceptNew {}, .acceptNew {},
      .sigusr1 [.acceptNew, .monitorDataRates, .clientRead 0, .clientRead 1],
      .putEventsSlowMode 0 [.acceptNew, .monitorDataRates, .clientRead 0, .clientRead 1]
        (fun _ => {})]
    (fun log (r : Except Process.Failure (Process .small _)) => Process.isOkWith r fun ps =>
      log.all (!·.leaks) && ps.table.fds.card == 18)
    (by decide +kernel)
  obtain ⟨ps, rfl, hps⟩ := Process.isOkWith_iff.mp hr
  simp only [Bool.and_eq_true, List.all_eq_true, Bool.not_eq_true', beq_iff_eq] at hps
  exact ⟨log, ps, hrun, hps.2, (resource_bounds hrun).2.1 hps.1⟩

/-! ### Slow mode -/

/-- The queue of fast mode that slow mode has been left with. -/
def Phase.stale : Phase cfg L → Option (Circularbuf cfg.sockIoBufSize)
  | .idle _ _ stale _ | .exchange _ _ stale _ _ | .slowReply _ stale => stale
  | _ => none

/-- The event puts into slow mode a connection of which only its last response is left. -/
def Entry.keepsQueue (e : Entry cfg L) : Bool := e.switches && e.conn.isReplyOnly

/-- A switch keeps a queue just if it is that of a last response. -/
theorem Session.SlowSwitch.stale {io : Io} {n : Counts} {ph ph' : Phase cfg L}
    {c : Connection cfg L} (h : SlowSwitch io ph (.ok ph')) (hrep : Rep ⟨n, ph⟩ c) :
    ph.stale.isSome = false ∧ ph'.stale.isSome = c.isReplyOnly := by
  cases h with
  -- a new connection has no queue, and a connection with a server gives its queue back
  | fresh | reply | fast =>
    cases hrep
    exact ⟨rfl, rfl⟩

/-- **One step** keeps the queue, or is left with one by a switch. -/
theorem Session.Step.stale {s s' : Session cfg L} {c : Connection cfg L} {cb : Callback} {io : Io}
    {calls : List Call} (h : Step s cb io calls (.live s')) (hrep : Rep s c) :
    s'.phase.stale.isSome =
      (s.phase.stale.isSome || (⟨c, cb, io, calls⟩ : Entry cfg L).keepsQueue) := by
  have hother : (⟨c, cb, io, calls⟩ : Entry cfg L).switches = false →
      s'.phase.stale.isSome = s.phase.stale.isSome → s'.phase.stale.isSome =
        (s.phase.stale.isSome || (⟨c, cb, io, calls⟩ : Entry cfg L).keepsQueue) := by
    intro hsw hsame
    -- an event that does not switch is left with what it found
    rw [hsame, Entry.keepsQueue, hsw, Bool.false_and, Bool.or_false]
  have hfast := hrep.fastMode
  obtain ⟨hread, hwrite⟩ := hrep.counts
  cases h with
  | freshConnect _ h | fastClientReadable h | fastServerReadable h =>
    refine hother (by simp [Entry.switches]) ?_
    cases h <;> rfl
  | idleDispatch _ _ _ _ h =>
    refine hother (by simp [Entry.switches]) ?_
    cases h
    rfl
  | monitorKeep hkeep hslow =>
    refine hother ?_ rfl
    rw [← Bool.not_eq_true]
    intro hsw
    simp only [Entry.switches, hread, hwrite, Bool.and_eq_true, decide_eq_true_eq] at hsw
    exact hslow ⟨hfast.symm.trans hsw.1, hsw.2.2⟩
  | signalSlow hslow => exact hother (by simp [Entry.switches, hfast, hslow]) rfl
  | monitorSwitch hkeep hph hslow h =>
    obtain ⟨hbefore, hafter⟩ := h.stale hrep
    rw [Entry.keepsQueue, hrep.switches_monitor hph hkeep hslow, Bool.true_and]
    dsimp only
    rw [hbefore, Bool.false_or, hafter]
  | signalSwitch h =>
    obtain ⟨hbefore, hafter⟩ := h.stale hrep
    rw [Entry.keepsQueue, hrep.switches_signal h.isFast, Bool.true_and]
    dsimp only
    rw [hbefore, Bool.false_or, hafter]
  | _ => exact hother (by simp [Entry.switches]) rfl

/-- In slow mode only such a queue is left in memory. -/
theorem Rep.memory {s : Session cfg L} {c : Connection cfg L} (hrep : Rep s c)
    (hslow : c.fastMode = false) (hdone : c.inTransition = false) :
    c.memory = if s.phase.stale.isSome then cfg.sockIoBufSize else 0 := by
  cases hrep with
  | fresh | fast | reply => cases hslow
  | transition => cases hdone
  -- the history has gone back to the pool, and the server of slow mode has no queue
  | idle | exchange | slowReply => rfl

/-- **Slow mode takes up no memory.** In every run, once a connection has left fast mode and its
transition is over, it holds no buffer in memory, neither a queue nor a history, however long it
lasts and whatever its requests and responses are; but if it was put into slow mode when only its
last response was left, the queue of that response stays allocated. -/
theorem slow_memory {tr : List (Entry cfg L)} {c : Connection cfg L} (h : Run tr (.live c))
    (hslow : c.fastMode = false) (hdone : c.inTransition = false) :
    c.memory = if tr.any (·.keepsQueue) then cfg.sockIoBufSize else 0 := by
  obtain ⟨out, hrep, hI⟩ := h.invariant
    (I := fun tr out => ∀ s, out = .live s → s.phase.stale.isSome = tr.any (·.keepsQueue))
    (fun s hs => by rw [← Outcome.live.inj hs]; rfl)
    (fun hI hrep hstep s' hs' => by
      subst hs'
      rw [hstep.stale hrep, hI _ rfl, List.any_append, List.any_cons, List.any_nil, Bool.or_false])
  obtain ⟨s, rfl, hrep⟩ := hrep.live
  rw [hrep.memory hslow hdone, hI s rfl]

/-- One client is put into slow mode at once, another when its server has closed and a part of the
response is left. -/
theorem slow_memory_both :
    (∃ (tr : List (Entry .shipped .bodiless)) (c : Connection .shipped .bodiless),
      Run tr (.live c) ∧ c.fastMode = false ∧ c.memory = 0) ∧
    ∃ (tr : List (Entry .shipped .bodiless)) (c : Connection .shipped .bodiless),
      Run tr (.live c) ∧ c.fastMode = false ∧ c.memory = Config.shipped.sockIoBufSize := by
  constructor
  · obtain ⟨tr, st, hrun, htr⟩ := exists_run (L := .bodiless)
      [(.slowSwitch, {}), (.clientReadable, { clientReads := [.data (ascii "GET /")] })]
      (fun (tr : List (Entry .shipped _)) st => !tr.any (·.keepsQueue) &&
        st.isLiveWith fun c => !c.fastMode && !c.inTransition)
      (by decide +kernel)
    obtain ⟨hnone, htr⟩ := Bool.and_eq_true_iff.mp htr
    obtain ⟨c, rfl, hc⟩ := Status.isLiveWith_iff.mp htr
    simp only [Bool.and_eq_true, Bool.not_eq_true'] at hnone hc
    refine ⟨tr, c, hrun, hc.1, ?_⟩
    rw [slow_memory hrun hc.1 hc.2, hnone]
    rfl
  · obtain ⟨tr, st, hrun, htr⟩ := exists_run (L := .bodiless)
      [(.clientReadable, { clientReads := [.data (ascii "GET /")] }),
        (.serverReadable false, { serverReads := [.data (ascii "HTTP/1.1"), .data []] }),
        (.slowSwitch, {})]
      (fun (tr : List (Entry .shipped _)) st => tr.any (·.keepsQueue) &&
        st.isLiveWith fun c => !c.fastMode && !c.inTransition)
      (by decide +kernel)
    obtain ⟨hsome, htr⟩ := Bool.and_eq_true_iff.mp htr
    obtain ⟨c, rfl, hc⟩ := Status.isLiveWith_iff.mp htr
    simp only [Bool.and_eq_true, Bool.not_eq_true'] at hc
    refine ⟨tr, c, hrun, hc.1, ?_⟩
    rw [slow_memory hrun hc.1 hc.2, hsome]
    rfl

end LSProxy
