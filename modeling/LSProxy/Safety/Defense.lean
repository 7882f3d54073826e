import LSProxy.Safety.Monitor
import LSProxy.Safety.Responses

/-!
# What the defence guarantees

The proxy holds off slow clients by three means: a connection that moves too little is put in slow
mode or dropped at a tick, in slow mode a request reaches a server only when it is complete, and a
newcomer is spared at its first tick.

* `first_tick_passes` — the first tick a connection meets changes nothing about it but its
  counters;
* `survival_price` — what a connection has moved is at least the threshold times the ticks it has
  outlived, but for the first;
* `slow_mode_ends` — no connection outlives two ticks outside fast mode, whatever it moves: the
  counters are fed in fast mode only;
* `server_needs_request` — before slow mode one server is opened, later one for each complete
  request; outside fast mode a server is held only to finish the transition, or since a complete
  request has been dispatched to it.
-/

namespace LSProxy

open Session

variable {cfg : Config} {L : Llhttp}

/-! ### Ticks -/

/-- The event is a tick of `monitor_data_rates`. -/
def Entry.isTick (e : Entry cfg L) : Bool := e.cb == .monitor

/-- How many ticks a trace has. -/
def ticks (tr : List (Entry cfg L)) : ℕ := tr.countP (·.isTick)

/-- How many bytes the calls move between the client and the proxy. -/
def bytesMoved (calls : List Call) : ℕ := bytesRead calls + bytesWritten calls

@[simp] theorem bytesMoved_append (calls calls' : List Call) :
    bytesMoved (calls ++ calls') = bytesMoved calls + bytesMoved calls' := by
  simp only [bytesMoved, bytesRead_append, bytesWritten_append]
  omega

theorem ticks_concat (tr : List (Entry cfg L)) (e : Entry cfg L) :
    ticks (tr ++ [e]) = ticks tr + if e.isTick then 1 else 0 := by
  simp [ticks, List.countP_append]

/-- What a tick does to a session it keeps. -/
theorem Session.Step.kept {s s' : Session cfg L} {io : Io} {calls : List Call}
    (h : Step s .monitor io calls (.live s')) :
    s'.counts = {} ∧ cfg.minDown ≤ s.counts.read + s.counts.write ∧
      (s'.phase.isFast = true → s.phase.isFast = true ∧
        cfg.minDtr ≤ s.counts.read + s.counts.write) := by
  cases h with
  | monitorKeep hkeep hslow =>
    refine ⟨rfl, ?_, fun hfast => ⟨hfast, ?_⟩⟩
    · dsimp only
      omega
    · have hle := not_and.mp hslow hfast
      dsimp only
      omega
  | monitorSwitch hkeep _ _ hsw =>
    refine ⟨rfl, ?_, fun hfast => ?_⟩
    · dsimp only
      omega
    · rw [hsw.switched.2] at hfast
      cases hfast

/-! ### The first tick -/

/-- A tick that finds no fault with the rates of a connection resets its counters, and does nothing
else. -/
theorem fire_monitor_keep {c : Connection cfg L} {io : Io} {g : Scratch cfg.sockIoBufSize}
    {pool : List (Hist cfg)}
    (hkeep : ¬ (c.client.writeCount < cfg.minDown ∧ c.client.readCount < cfg.minDown))
    (hslow : ¬ (c.fastMode = true ∧
      c.client.readCount + c.client.writeCount < cfg.minDtr)) :
    c.fire .monitor io g pool = ⟨.live { c with
      client := { c.client with readCount := 0, writeCount := 0 } }, [], g, pool⟩ := by
  simp [-not_and, -not_lt, Connection.fire, Callback.handler, monitorDataRates, hkeep, hslow,
    Effect.of]

/-- A run of one event is that event. -/
theorem RunFrom.fired {st₀ st : Status cfg L} {e : Entry cfg L} (h : RunFrom st₀ [e] st) :
    ∃ g pool, e.calls = (e.conn.fire e.cb e.io g pool).calls ∧
      st = (e.conn.fire e.cb e.io g pool).status := by
  generalize htr : [e] = tr at h
  cases h with
  | start => exact absurd htr (by simp)
  | @fire tr c cb io g pool _ _ =>
    rw [← List.nil_append [e]] at htr
    obtain ⟨-, he⟩ := List.append_inj' htr rfl
    obtain rfl := List.head_eq_of_cons_eq he
    exact ⟨g, pool, rfl, rfl⟩

/-- Between two ticks the counters only grow. -/
theorem Session.Step.counts_le {s s' : Session cfg L} {cb : Callback} {io : Io}
    {calls : List Call} (h : Step s cb io calls (.live s')) (hcb : cb ≠ .monitor) :
    s.counts.read ≤ s'.counts.read ∧ s.counts.write ≤ s'.counts.write := by
  cases h with
  | monitorKeep | monitorSwitch => exact absurd rfl hcb
  | freshConnect _ h | fastClientReadable h | fastServerReadable h => cases h <;> simp
  | idleDispatch _ _ _ _ h =>
    cases h
    exact ⟨le_rfl, le_rfl⟩
  | _ => exact ⟨le_rfl, le_rfl⟩

/-- **A newcomer passes its first tick.** Its counters start with what the first tick asks for, so
that tick neither deletes the connection nor puts it in slow mode: it resets the counters, and does
nothing else. -/
theorem first_tick_passes {pre : List (Entry cfg L)} {t : Entry cfg L} {st : Status cfg L}
    (h : Run (pre ++ [t]) st) (hpre : ∀ x ∈ pre, x.cb ≠ .monitor) (ht : t.cb = .monitor) :
    t.calls = [] ∧ st = .live { t.conn with
      client := { t.conn.client with readCount := 0, writeCount := 0 } } := by
  obtain ⟨st₁, h₁, htick⟩ := h.split
  obtain ⟨out, hrep, hle⟩ := h₁.invariant_of (P := fun x => x.cb ≠ .monitor)
    (I := fun _ out => ∀ s, out = .live s →
      cfg.counterInit ≤ s.counts.read ∧ cfg.counterInit ≤ s.counts.write)
    (fun s hs => Outcome.live.inj hs ▸ ⟨le_rfl, le_rfl⟩)
    (by
      rintro tr s c cb io calls out hI - hstep hcb s' rfl
      have hold := hI s rfl
      have hgrow := hstep.counts_le hcb
      exact ⟨hold.1.trans hgrow.1, hold.2.trans hgrow.2⟩)
    hpre
  have hlive := htick.head
  subst hlive
  obtain ⟨s, rfl, hrep⟩ := hrep.live
  obtain ⟨hread, hwrite⟩ := hle s rfl
  rw [← hrep.counts.1] at hread
  rw [← hrep.counts.2] at hwrite
  -- `COUNTER_INIT` is the sum of what the two tests ask for
  have hinit : cfg.counterInit = cfg.minDtr + cfg.minDown := Nat.add_mul ..
  obtain ⟨g, pool, hcalls, hst⟩ := htick.fired
  rw [ht, fire_monitor_keep (by omega) (by omega)] at hcalls hst
  exact ⟨hcalls, hst⟩

/-- A client that sends half a request and stalls is kept by its first tick. -/
theorem first_tick_passes_stalled :
    ∃ (pre : List (Entry .shipped .bodiless)) (t : Entry .shipped .bodiless)
      (st : Status .shipped .bodiless), Run (pre ++ [t]) st ∧ t.cb = .monitor ∧
        bytesMoved (callsOf pre) = 5 ∧ t.calls = [] ∧ st = .live { t.conn with
          client := { t.conn.client with readCount := 0, writeCount := 0 } } := by
  obtain ⟨tr, st, hrun, htr⟩ := exists_run (L := .bodiless)
    [(.clientReadable, { clientReads := [.data (ascii "GET /")] }), (.monitor, {})]
    (fun (tr : List (Entry .shipped _)) _ => cut 1 tr fun pre t rest => rest.isEmpty &&
      t.cb == .monitor && pre.all (·.cb != .monitor) && bytesMoved (callsOf pre) == 5)
    (by decide +kernel)
  obtain ⟨pre, t, rest, rfl, hcut⟩ := of_cut htr
  simp only [Bool.and_eq_true, beq_iff_eq, List.isEmpty_iff, List.all_eq_true,
    bne_iff_ne] at hcut
  obtain ⟨⟨⟨rfl, ht⟩, hpre⟩, hmoved⟩ := hcut
  exact ⟨pre, t, st, hrun, ht, hmoved, first_tick_passes hrun hpre ht⟩

/-! ### The price of staying -/

/-- What a session has paid for the ticks of its trace, at the rate `rate` for each of them but the
first: its counters are paid already, since the last tick. -/
def Paid (rate : ℕ) (tr : List (Entry cfg L)) (n : Counts) : Prop :=
  (ticks tr - 1) * rate + (if ticks tr = 0 then 0 else n.read + n.write) ≤
    bytesMoved (callsOf tr)

/-- Between two ticks the counters grow by no more than what is moved. -/
theorem Paid.step {rate : ℕ} {tr : List (Entry cfg L)} {s s' : Session cfg L}
    {c : Connection cfg L} {cb : Callback} {io : Io} {calls : List Call}
    (hp : Paid rate tr s.counts) (h : Step s cb io calls (.live s')) (hrep : Rep s c)
    (hcb : cb ≠ .monitor) : Paid rate (tr ++ [⟨c, cb, io, calls⟩]) s'.counts := by
  have htracks := h.tracks hrep hcb
  have hread := htracks.read_le
  have hwrite := htracks.write_le
  have htick : (⟨c, cb, io, calls⟩ : Entry cfg L).isTick = false := beq_eq_false_iff_ne.mpr hcb
  unfold Paid at hp ⊢
  rw [ticks_concat, htick, callsOf_append, callsOf_singleton, bytesMoved_append]
  simp only [Bool.false_eq_true, if_false, Nat.add_zero]
  have hmoved : bytesMoved calls = bytesRead calls + bytesWritten calls := rfl
  by_cases hnone : ticks tr = 0
  · rw [if_pos hnone] at hp ⊢
    omega
  · rw [if_neg hnone] at hp ⊢
    omega

/-- A tick takes what it asks for out of the counters. -/
theorem Paid.tick {rate : ℕ} {tr : List (Entry cfg L)} {n : Counts} {c : Connection cfg L}
    {io : Io} {calls : List Call} (hp : Paid rate tr n) (hrate : rate ≤ n.read + n.write) :
    Paid rate (tr ++ [⟨c, .monitor, io, calls⟩]) {} := by
  have htick : (⟨c, .monitor, io, calls⟩ : Entry cfg L).isTick = true := rfl
  unfold Paid at hp ⊢
  rw [ticks_concat, htick, callsOf_append, callsOf_singleton, bytesMoved_append]
  cases hn : ticks tr with
  | zero => simp
  | succ k =>
    rw [hn] at hp
    simp only [Nat.add_sub_cancel, Nat.succ_ne_zero, if_false, if_true] at hp ⊢
    rw [Nat.succ_mul]
    omega

/-- **The price of staying.** A connection that has met `n` ticks and is still there has moved at
least `n - 1` times what a tick asks for to keep it; one that is still in fast mode, `n - 1` times
what a tick asks for to leave it there. -/
theorem survival_price {tr : List (Entry cfg L)} {c : Connection cfg L} (h : Run tr (.live c)) :
    (ticks tr - 1) * cfg.minDown ≤ bytesMoved (callsOf tr) ∧
      (c.fastMode = true → (ticks tr - 1) * cfg.minDtr ≤ bytesMoved (callsOf tr)) := by
  obtain ⟨out, hrep, hpaid⟩ := h.invariant
    (I := fun tr out => ∀ s, out = .live s → Paid cfg.minDown tr s.counts ∧
      (s.phase.isFast = true → Paid cfg.minDtr tr s.counts))
    (fun s hs => ⟨by simp [Paid, ticks], fun _ => by simp [Paid, ticks]⟩)
    (by
      rintro tr s c cb io calls out hI hrep hstep s' rfl
      obtain ⟨hdown, hdtr⟩ := hI s rfl
      by_cases hcb : cb = .monitor
      · subst hcb
        obtain ⟨hzero, hkept, hfast⟩ := hstep.kept
        rw [hzero]
        exact ⟨hdown.tick hkept, fun hf => (hdtr (hfast hf).1).tick (hfast hf).2⟩
      · refine ⟨hdown.step hstep hrep hcb, fun hf => (hdtr ?_).step hstep hrep hcb⟩
        -- who is in fast mode has always been
        by_contra hnot
        have hslow := hstep.slow (Bool.not_eq_true _ ▸ hnot)
        rw [hf] at hslow
        cases hslow)
  obtain ⟨s, rfl, hrep⟩ := hrep.live
  obtain ⟨hdown, hdtr⟩ := hpaid s rfl
  refine ⟨(Nat.le_add_right _ _).trans hdown, fun hf => ?_⟩
  rw [hrep.fastMode] at hf
  exact (Nat.le_add_right _ _).trans (hdtr hf)

/-- The constants of the tests: the thresholds are twenty bytes and ten in an interval. -/
def Config.lenient : Config :=
  { Config.shipped with dtrThreshold := 2, minDownloadSpeed := 1 }

/-- A client that stays in fast mode over three ticks. -/
theorem survival_price_three :
    ∃ (tr : List (Entry .lenient .bodiless)) (c : Connection .lenient .bodiless),
      Run tr (.live c) ∧ ticks tr = 3 ∧ c.fastMode = true ∧
        2 * Config.lenient.minDtr ≤ bytesMoved (callsOf tr) := by
  obtain ⟨tr, st, hrun, htr⟩ := exists_run (L := .bodiless)
    [(.clientReadable, { clientReads := [.data (ascii "GET /")], serverWrites := [.wrote 4] }),
      (.monitor, {}),
      (.clientReadable,
        { clientReads := [.data (ascii "a?b=twenty-bytes-ok&c")], serverWrites := [.wrote 20] }),
      (.monitor, {}),
      (.clientReadable,
        { clientReads := [.data (ascii "d?e=twenty-bytes-ok&f")], serverWrites := [.wrote 20] }),
      (.monitor, {})]
    (fun (tr : List (Entry .lenient _)) st => st.isLiveWith fun c => c.fastMode && ticks tr == 3)
    (by decide +kernel)
  obtain ⟨c, rfl, hc⟩ := Status.isLiveWith_iff.mp htr
  simp only [Bool.and_eq_true, beq_iff_eq] at hc
  have hprice := (survival_price hrun).2 hc.1
  rw [hc.2] at hprice
  exact ⟨tr, c, hrun, hc.2, hc.1, hprice⟩

/-! ### The end of slow mode -/

/-- Nothing that the connection moves is counted any more: it has left fast mode, or only writes
what is queued for its client. -/
def Connection.starves (c : Connection cfg L) : Bool := !c.fastMode || c.isReplyOnly

/-- The same of a phase. -/
def Phase.starves : Phase cfg L → Bool
  | .fresh | .fast .. => false
  | _ => true

theorem Rep.starves {s : Session cfg L} {c : Connection cfg L} (hrep : Rep s c) :
    c.starves = s.phase.starves := by
  cases hrep <;> rfl

/-- The event is a tick that leaves a connection of which nothing is counted. -/
def Entry.starvingTick (e : Entry cfg L) : Bool :=
  e.isTick && (e.conn.starves || e.switches)

/-- Nothing is counted, and nothing will be. -/
theorem Session.Step.starved {s s' : Session cfg L} {cb : Callback} {io : Io} {calls : List Call}
    (h : Step s cb io calls (.live s')) (hst : s.phase.starves = true) :
    s'.phase.starves = true ∧ (cb ≠ .monitor → s'.counts = s.counts) := by
  cases h with
  | freshConnect | fastClientReadable | fastServerReadable | fastClientWritable
  | fastServerWritable => cases hst
  | idleDispatch _ _ _ _ h =>
    cases h
    exact ⟨rfl, fun _ => rfl⟩
  | monitorKeep => exact ⟨hst, fun hcb => absurd rfl hcb⟩
  | monitorSwitch _ _ _ h =>
    cases h <;> exact ⟨rfl, fun hcb => absurd rfl hcb⟩
  | signalSwitch h => cases h <;> exact ⟨rfl, fun _ => rfl⟩
  | signalSlow => exact ⟨hst, fun _ => rfl⟩
  | _ => exact ⟨rfl, fun _ => rfl⟩

/-- A connection is put in slow mode, and moves uncounted from then on. -/
theorem Session.Step.starves_of_switches {s s' : Session cfg L} {c : Connection cfg L} {io : Io}
    {calls : List Call} (h : Step s .monitor io calls (.live s')) (hrep : Rep s c)
    (hsw : (⟨c, .monitor, io, calls⟩ : Entry cfg L).switches = true) :
    s'.phase.starves = true := by
  cases h with
  | monitorSwitch _ _ _ h => cases h <;> rfl
  | @monitorKeep n ph _ _ hslow =>
    obtain ⟨hread, hwrite⟩ := hrep.counts
    simp only [Entry.switches, hrep.fastMode, hread, hwrite, Bool.and_eq_true,
      decide_eq_true_eq] at hsw
    exact absurd ⟨hsw.1, hsw.2.2⟩ hslow

/-- **Slow mode ends at the second tick.** A connection that lives has met at most one tick that
left it outside fast mode or in reply-only mode: the counters are fed in fast mode only, so the
next tick takes it for idle and deletes it, however much it moves. -/
theorem slow_mode_ends {tr : List (Entry cfg L)} {c : Connection cfg L} (h : Run tr (.live c))
    (hmin : 0 < cfg.minDown) : tr.countP (·.starvingTick) ≤ 1 := by
  obtain ⟨out, hrep, hI⟩ := h.invariant
    (I := fun tr out => ∀ s, out = .live s → tr.countP (·.starvingTick) = 0 ∨
      (tr.countP (·.starvingTick) = 1 ∧ s.phase.starves = true ∧ s.counts = {}))
    (fun s _ => .inl rfl)
    (by
      rintro tr s c cb io calls out hI hrep hstep s' rfl
      rw [List.countP_append, List.countP_singleton]
      by_cases hcb : cb = .monitor
      · subst hcb
        rcases hI s rfl with hnone | ⟨-, -, hzero⟩
        · rw [hnone]
          split
          · next htick =>
            refine .inr ⟨rfl, ?_, hstep.kept.1⟩
            rcases Bool.or_eq_true_iff.mp (Bool.and_eq_true_iff.mp htick).2 with hst | hsw
            · exact (hstep.starved (hrep.starves ▸ hst)).1
            · exact hstep.starves_of_switches hrep hsw
          · exact .inl rfl
        · -- with counters at zero the tick cannot keep the connection
          have hkept := hstep.kept.2.1
          rw [hzero] at hkept
          exact absurd hmin (Nat.not_lt.mpr hkept)
      · have hno : (⟨c, cb, io, calls⟩ : Entry cfg L).starvingTick = false := by
          simp [Entry.starvingTick, Entry.isTick, hcb]
        rw [hno, if_neg Bool.false_ne_true]
        refine (hI s rfl).imp id fun ⟨hone, hst, hzero⟩ => ⟨hone, (hstep.starved hst).1, ?_⟩
        exact ((hstep.starved hst).2 hcb).trans hzero)
  obtain ⟨s, rfl, -⟩ := hrep.live
  rcases hI s rfl with hnone | ⟨hone, -⟩ <;> omega

/-- A client that the first tick after `SIGUSR1` leaves in slow mode. -/
theorem slow_mode_ends_signal :
    ∃ (tr : List (Entry .shipped .bodiless)) (c : Connection .shipped .bodiless),
      Run tr (.live c) ∧ ticks tr = 1 ∧ c.fastMode = false ∧ tr.countP (·.starvingTick) ≤ 1 := by
  obtain ⟨tr, st, hrun, htr⟩ := exists_run (L := .bodiless)
    [(.slowSwitch, {}), (.monitor, {}),
      (.clientReadable, { clientReads := [.data (ascii "GET /")] })]
    (fun (tr : List (Entry .shipped _)) st => st.isLiveWith fun c => !c.fastMode && ticks tr == 1)
    (by decide +kernel)
  obtain ⟨c, rfl, hc⟩ := Status.isLiveWith_iff.mp htr
  simp only [Bool.and_eq_true, Bool.not_eq_true', beq_iff_eq] at hc
  exact ⟨tr, c, hrun, hc.2, hc.1, slow_mode_ends hrun (by decide)⟩

/-! ### Servers -/

/-- The event reads the client in slow mode, and the parser finds the end of a request in what it
has read. -/
def Entry.completesRequest (e : Entry cfg L) : Bool :=
  e.cb == .clientReadable && !e.conn.fastMode &&
    e.conn.parser.any fun p => (p.doParse e.requestData).any (·.firstEom.isSome)

/-- One if the connection is fresh, none otherwise: how many servers it may still open in fast
mode. -/
def Outcome.unopened : Outcome cfg L → ℕ
  | .live ⟨_, .fresh⟩ => 1
  | _ => 0

/-- Before slow mode a step opens a server for a fresh connection only. -/
theorem Session.Step.connects_early {s : Session cfg L} {c : Connection cfg L} {cb : Callback}
    {io : Io} {calls : List Call} {out : Outcome cfg L} (h : Step s cb io calls out)
    (hrep : Rep s c) :
    (if c.fastMode || c.inTransition then calls else []).count .connect + out.unopened ≤
      (Outcome.live s).unopened := by
  cases h with
  | freshConnect _ h | fastClientReadable h | fastServerReadable h =>
    cases h <;> split <;> simp [Outcome.unopened]
  | transitionDeliver h | idleDeliver h | exchangeDeliver h | slowReplyDeliver h
    | slowReplyDone h => cases h <;> split <;> simp [Outcome.unopened]
  | monitorSwitch _ _ _ h | signalSwitch h => cases h <;> split <;> simp [Outcome.unopened]
  | @monitorKeep _ ph => cases ph <;> split <;> simp [Outcome.unopened]
  | @monitorDrop _ ph => cases ph.hasServer <;> split <;> simp [Outcome.unopened]
  | idleDispatch ho _ _ _ h =>
    -- that is slow mode
    subst ho
    cases hrep
    cases h <;> simp [Outcome.unopened]
  | _ => split <;> simp [Outcome.unopened]

/-- Outside fast mode a step opens a server for a complete request only. -/
theorem Session.Step.connects_slow {s : Session cfg L} {c : Connection cfg L} {cb : Callback}
    {io : Io} {calls : List Call} {out : Outcome cfg L} (h : Step s cb io calls out)
    (hrep : Rep s c) (hslow : c.fastMode = false) :
    calls.count .connect ≤
      if (⟨c, cb, io, calls⟩ : Entry cfg L).completesRequest then 1 else 0 := by
  cases h with
  | freshConnect _ h | fastClientReadable h | fastServerReadable h =>
    rw [hrep.fastMode] at hslow
    cases hslow
  | transitionDeliver h | idleDeliver h | exchangeDeliver h | slowReplyDeliver h
    | slowReplyDone h => cases h <;> simp
  | monitorDrop => split <;> simp
  -- the parser has found the end of the request
  | idleDispatch ho _ hp hk h =>
    subst ho
    cases hrep
    cases h <;> simp [Entry.completesRequest, Entry.requestData, hp, hk]
  | _ => simp

/-- The server is there since the last complete request was dispatched. -/
def ServesRequest (tr : List (Entry cfg L)) : Prop :=
  ∃ pre e post, tr = pre ++ e :: post ∧ e.completesRequest = true ∧ .connect ∈ e.calls ∧
    .closeServer ∉ callsOf post

theorem ServesRequest.concat {tr : List (Entry cfg L)} {e : Entry cfg L} (h : ServesRequest tr)
    (hcalls : .closeServer ∉ e.calls) : ServesRequest (tr ++ [e]) := by
  obtain ⟨pre, x, post, rfl, hx, hconnect, hpost⟩ := h
  refine ⟨pre, x, post ++ [e], by simp, hx, hconnect, ?_⟩
  rw [callsOf_append, callsOf_singleton]
  exact fun hmem => (List.mem_append.mp hmem).elim hpost hcalls

/-- A session that has dispatched a request, and waits for the response. -/
def Phase.isExchange : Phase cfg L → Bool
  | .exchange .. => true
  | _ => false

/-- An exchange begins with a complete request, and lasts as long as its server. -/
theorem Session.Step.serves {s s' : Session cfg L} {c : Connection cfg L} {cb : Callback} {io : Io}
    {calls : List Call} (h : Step s cb io calls (.live s')) (hrep : Rep s c)
    (hex : s'.phase.isExchange = true) :
    (s.phase.isExchange = true ∧ .closeServer ∉ calls) ∨
      ((⟨c, cb, io, calls⟩ : Entry cfg L).completesRequest = true ∧ .connect ∈ calls) := by
  cases h with
  | freshConnect _ h | fastClientReadable h | fastServerReadable h => cases h <;> cases hex
  | monitorSwitch _ _ _ h | signalSwitch h => cases h <;> cases hex
  | exchangeDeliver h => exact .inl ⟨rfl, by cases h <;> simp⟩
  | exchangeRead | exchangeSend | exchangeSwap | monitorKeep | signalSlow =>
    exact .inl ⟨hex, by simp⟩
  | idleDispatch ho _ hp hk h =>
    subst ho
    cases hrep
    cases h
    exact .inr ⟨by simp [Entry.completesRequest, Entry.requestData, hp, hk], by simp⟩
  | _ => cases hex

/-- **A server needs a request.** In every run a connection opens at most one server before slow
mode, and outside fast mode no more than its client has completed requests. Outside fast mode, once
the transition is over, the server it holds is one that was opened for a complete request: a client
that trickles its request holds none. -/
theorem server_needs_request {tr : List (Entry cfg L)} {st : Status cfg L} (h : Run tr st) :
    (earlyCalls tr).count .connect ≤ 1 ∧
      (slowCalls tr).count .connect ≤ tr.countP (·.completesRequest) ∧
      ∀ c, st = .live c → c.fastMode = false → c.inTransition = false →
        c.server.isSome = true → ServesRequest tr := by
  obtain ⟨out, hrep, hearly, hcount, hserves⟩ := h.invariant
    (I := fun tr out => (earlyCalls tr).count .connect + out.unopened ≤ 1 ∧
      (slowCalls tr).count .connect ≤ tr.countP (·.completesRequest) ∧
        ∀ s, out = .live s → s.phase.isExchange = true → ServesRequest tr)
    ⟨le_rfl, le_rfl, fun s hs hex => by obtain rfl := Outcome.live.inj hs; cases hex⟩
    (by
      rintro tr s c cb io calls out ⟨hearly, hcount, hserves⟩ hrep hstep
      refine ⟨?_, ?_, ?_⟩
      · have hone := hstep.connects_early hrep
        rw [earlyCalls_concat, List.count_append]
        dsimp only
        omega
      · rw [slowCalls_concat, List.count_append, List.countP_append, List.countP_singleton]
        dsimp only
        split
        · exact hcount.trans (Nat.le_add_right _ _)
        · next hslow =>
          exact Nat.add_le_add hcount (hstep.connects_slow hrep (Bool.not_eq_true _ ▸ hslow))
      · rintro s' rfl hex
        rcases hstep.serves hrep hex with ⟨hold, hkept⟩ | ⟨hdone, hconnect⟩
        · exact (hserves s rfl hold).concat hkept
        · exact ⟨tr, _, [], rfl, hdone, hconnect, by simp⟩)
  refine ⟨(Nat.le_add_right _ _).trans hearly, hcount, ?_⟩
  rintro c rfl hslow hover hserver
  obtain ⟨s, rfl, hrep⟩ := hrep.live
  refine hserves s rfl ?_
  -- with a server, outside fast mode and the transition, there is nothing but the exchange
  cases hrep with
  | exchange => rfl
  | fresh | fast | reply => cases hslow
  | transition => cases hover
  | idle | slowReply => cases hserver

/-- A client that has sent a complete request in slow mode, and then another one. -/
theorem server_needs_request_two :
    ∃ (tr : List (Entry .shipped .bodiless)) (c : Connection .shipped .bodiless),
      Run tr (.live c) ∧ (slowCalls tr).count .connect = 2 ∧
        2 ≤ tr.countP (·.completesRequest) ∧ ServesRequest tr := by
  obtain ⟨tr, st, hrun, htr⟩ := exists_run (L := .bodiless)
    [(.slowSwitch, {}),
      (.clientReadable, { clientReads := [.data (ascii "GET / HTTP/1.1\r\n\r\n")] }),
      (.serverWritable, { serverWrites := [.wrote 18] }),
      (.serverWritable, {}),
      (.serverReadable false, { serverReads := [.data (ascii "HTTP/1.1 204\r\n\r\n")] }),
      (.clientReadable, { clientReads := [.data (ascii "GET /")] }),
      (.clientReadable, { clientReads := [.data (ascii "a HTTP/1.1\r\n\r\n")] })]
    (fun (tr : List (Entry .shipped _)) st => st.isLiveWith fun c =>
      !c.fastMode && !c.inTransition && c.server.isSome && (slowCalls tr).count .connect == 2)
    (by decide +kernel)
  obtain ⟨c, rfl, hc⟩ := Status.isLiveWith_iff.mp htr
  simp only [Bool.and_eq_true, Bool.not_eq_true', beq_iff_eq] at hc
  obtain ⟨⟨⟨hslow, hover⟩, hserver⟩, hcount⟩ := hc
  obtain ⟨-, hle, hserves⟩ := server_needs_request hrun
  exact ⟨tr, c, hrun, hcount, hcount.symm.trans_le hle, hserves c rfl hslow hover hserver⟩

end LSProxy
