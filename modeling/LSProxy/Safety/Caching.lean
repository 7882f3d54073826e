import LSProxy.Session.Traces
import LSProxy.Safety.Handover

/-!
# The cache of a history cannot be seen

A `Hybridbuf` keeps the first `HIST_CACHE_SIZE` bytes of a history in memory and the rest in a
file. As long as the files take what they are given, no one can tell how large the cache is: with
any other size, and with none at all, a connection that is given the same does the same.

* `Config.withCache` — the same proxy with another `HIST_CACHE_SIZE`;
* `Session.Step.withCache` — a step of a session is one with the other cache;
* `cache_unobserved` — so are the runs of connections.
-/

namespace LSProxy

open Session Simulation

variable {cfg : Config} {L : Llhttp} {m : ℕ} {hm : m < 2 ^ 32}

/-- The proxy with `HIST_CACHE_SIZE` at `m`. -/
def Config.withCache (cfg : Config) (m : ℕ) (hm : m < 2 ^ 32) : Config :=
  { cfg with histCacheSize := m, histCacheSize_lt := hm }

/-- The same phase with another cache. -/
def Phase.withCache (m : ℕ) (hm : m < 2 ^ 32) : Phase cfg L → Phase (cfg.withCache m hm) L
  | .fresh => .fresh
  | .fast p hist cq sq cw sw => .fast p hist cq sq cw sw
  | .reply cq => .reply cq
  | .transition p b sq cw sw => .transition p b sq cw sw
  | .idle p b stale cw => .idle p b stale cw
  | .exchange p b stale cw sw => .exchange p b stale cw sw
  | .slowReply b stale => .slowReply b stale

@[simp] theorem Phase.isFast_withCache (ph : Phase cfg L) :
    (ph.withCache m hm).isFast = ph.isFast := by cases ph <;> rfl

@[simp] theorem Phase.hasServer_withCache (ph : Phase cfg L) :
    (ph.withCache m hm).hasServer = ph.hasServer := by cases ph <;> rfl

/-- The same session with another cache. -/
def Session.withCache (m : ℕ) (hm : m < 2 ^ 32) (s : Session cfg L) :
    Session (cfg.withCache m hm) L :=
  ⟨s.counts, s.phase.withCache m hm⟩

/-- The same outcome with another cache. -/
def Outcome.withCache (m : ℕ) (hm : m < 2 ^ 32) : Outcome cfg L → Outcome (cfg.withCache m hm) L
  | .live s => .live (s.withCache m hm)
  | .deleted => .deleted
  | .crashed f => .crashed f

/-! ### Steps -/

namespace Session

/-- What is recorded does not depend on the cache. -/
theorem recorded_withCache {io : Io} (hdisk : io.DiskOk) (p : HttpParser L) (hist data : Bytes) :
    recorded (cfg.withCache m hm) io p hist data = recorded cfg io p hist data := by
  rw [recorded_eq p hist data (hdisk 0), recorded_eq p hist data (hdisk 0)]

theorem FastForwardToServer.withCache {n : Counts} {p : HttpParser L} {hist : Bytes}
    {cq sq : Circularbuf cfg.sockIoBufSize} {cw : Bool} {io : Io} {calls : List Call}
    {out : Outcome cfg L} (h : FastForwardToServer n p hist cq sq cw io calls out)
    (hdisk : io.DiskOk) (m : ℕ) (hm : m < 2 ^ 32) :
    @FastForwardToServer (cfg.withCache m hm) L n p hist cq sq cw io calls
      (out.withCache m hm) := by
  cases h with
  | malformedReply ho hp hcq => exact .malformedReply ho hp hcq
  | malformedDelete ho hp hcq => exact .malformedDelete ho hp hcq
  | histFault ho hp hhist => exact .histFault ho hp ((recorded_withCache hdisk ..).trans hhist)
  | eof ho hp hhist hw heof =>
    exact .eof ho hp ((recorded_withCache hdisk ..).trans hhist) hw heof
  | forward ho hp hhist hw heof =>
    exact .forward ho hp ((recorded_withCache hdisk ..).trans hhist) hw heof

theorem FastForwardToClient.withCache {n : Counts} {p : HttpParser L} {hist : Bytes}
    {cq sq : Circularbuf cfg.sockIoBufSize} {sw : Bool} {io : Io} {calls : List Call}
    {out : Outcome cfg L} (h : FastForwardToClient n p hist cq sq sw io calls out)
    (m : ℕ) (hm : m < 2 ^ 32) :
    @FastForwardToClient (cfg.withCache m hm) L n p hist cq sq sw io calls
      (out.withCache m hm) := by
  cases h with
  | eofReply ho hw heof hcq => exact .eofReply ho hw heof hcq
  | eofDelete ho hw heof hcq => exact .eofDelete ho hw heof hcq
  | forward ho hw heof => exact .forward ho hw heof

theorem SlowSwitch.withCache {io : Io} {ph : Phase cfg L} {r : Except Fault (Phase cfg L)}
    (h : SlowSwitch io ph r) (hdisk : io.DiskOk) (m : ℕ) (hm : m < 2 ^ 32) :
    SlowSwitch io (ph.withCache m hm) (r.map (·.withCache m hm)) := by
  cases h with
  | fresh => exact .fresh
  | reply => exact .reply
  | copyFault hcopy =>
    rw [copied_history hdisk] at hcopy
    cases hcopy
  | dumpFault hcopy hdump =>
    rw [copied_history hdisk] at hcopy
    exact .dumpFault ((copied_history hdisk _).trans hcopy) hdump
  | fast hcopy hdump =>
    rw [copied_history hdisk] at hcopy
    exact .fast ((copied_history hdisk _).trans hcopy) hdump

theorem Deliver.withCache {b b' : SlowBufs} {io : Io} {calls : List Call} {cw : Bool}
    (h : Deliver cfg b io calls b' cw) (m : ℕ) (hm : m < 2 ^ 32) :
    Deliver (cfg.withCache m hm) b io calls b' cw := by
  cases h with
  | some hne hw => exact .some hne hw
  | none hnil => exact .none hnil

theorem Dispatch.withCache {n : Counts} {p' : HttpParser L} {k : ℕ} {data : Bytes} {b : SlowBufs}
    {stale : Option (Circularbuf cfg.sockIoBufSize)} {cw : Bool} {io : Io} {calls : List Call}
    {out : Outcome cfg L} (h : Dispatch n p' k data b stale cw io calls out) (m : ℕ)
    (hm : m < 2 ^ 32) :
    @Dispatch (cfg.withCache m hm) L n p' k data b stale cw io calls (out.withCache m hm) := by
  cases h with
  | storeFault hr => exact .storeFault hr
  | tmpFault hr ht => exact .tmpFault hr ht
  | refused hr ht hc => exact .refused hr ht hc
  | connect hr ht hc => exact .connect hr ht hc

/-- **A step with another cache.** Only the history passes through the cache, when it is recorded
and when it is copied, and both lose nothing. -/
theorem Step.withCache {s : Session cfg L} {cb : Callback} {io : Io} {calls : List Call}
    {out : Outcome cfg L} (h : Step s cb io calls out) (hdisk : io.DiskOk) (m : ℕ)
    (hm : m < 2 ^ 32) :
    Step (s.withCache m hm) cb io calls (out.withCache m hm) := by
  cases h with
  | freshRefused hc => exact .freshRefused hc
  | freshConnect hc h => exact .freshConnect hc (h.withCache hdisk m hm)
  | fastClientReadable h => exact .fastClientReadable (h.withCache hdisk m hm)
  | fastServerReadable h => exact .fastServerReadable (h.withCache m hm)
  | fastClientWritable hw => exact .fastClientWritable hw
  | fastServerWritable hw => exact .fastServerWritable hw
  | replyDone hw hdone => exact .replyDone hw hdone
  | replyMore hw hmore => exact .replyMore hw hmore
  | transitionTimeout => exact .transitionTimeout
  | transitionEof ho heof => exact .transitionEof ho heof
  | transitionFault ho heof hstore => exact .transitionFault ho heof hstore
  | transitionRead ho heof hstore => exact .transitionRead ho heof hstore
  | transitionNull => exact .transitionNull
  | transitionDrained hw hsq => exact .transitionDrained hw hsq
  | transitionWrite hw hsq => exact .transitionWrite hw hsq
  | transitionDeliver h => exact .transitionDeliver (h.withCache m hm)
  | idleEof ho heof => exact .idleEof ho heof
  | idleMalformedReply ho heof hp hb => exact .idleMalformedReply ho heof hp hb
  | idleMalformedDelete ho heof hp hb => exact .idleMalformedDelete ho heof hp hb
  | idleFault ho heof hp hk hr => exact .idleFault ho heof hp hk hr
  | idleRead ho heof hp hk hr => exact .idleRead ho heof hp hk hr
  | idleDispatch ho heof hp hk h => exact .idleDispatch ho heof hp hk (h.withCache m hm)
  | idleDeliver h => exact .idleDeliver (h.withCache m hm)
  | exchangeFault ho hstore => exact .exchangeFault ho hstore
  | exchangeMalformedReply ho hstore hp hb => exact .exchangeMalformedReply ho hstore hp hb
  | exchangeMalformedDelete ho hstore hp hb => exact .exchangeMalformedDelete ho hstore hp hb
  | exchangeEnd ho hstore hp hend => exact .exchangeEnd ho hstore hp hend
  | exchangeRead ho hstore hp hend => exact .exchangeRead ho hstore hp hend
  | exchangeSend hne hw => exact .exchangeSend hne hw
  | exchangeSwap hnil => exact .exchangeSwap hnil
  | exchangeDeliver h => exact .exchangeDeliver (h.withCache m hm)
  | slowReplyDeliver h => exact .slowReplyDeliver (h.withCache m hm)
  | slowReplyDone h => exact .slowReplyDone (h.withCache m hm)
  | @monitorDrop n ph _ hdrop =>
    have hstep := @Step.monitorDrop _ _ n (ph.withCache m hm) io hdrop
    rwa [Phase.hasServer_withCache] at hstep
  | monitorKeep hkeep hslow => exact .monitorKeep hkeep (by rwa [Phase.isFast_withCache])
  | monitorSwitch hkeep hfast hslow h =>
    exact .monitorSwitch hkeep ((Phase.isFast_withCache _).trans hfast) hslow
      (h.withCache hdisk m hm)
  | monitorFault hkeep hfast hslow h =>
    exact .monitorFault hkeep ((Phase.isFast_withCache _).trans hfast) hslow
      (h.withCache hdisk m hm)
  | signalSlow hslow => exact .signalSlow ((Phase.isFast_withCache _).trans hslow)
  | signalSwitch h => exact .signalSwitch (h.withCache hdisk m hm)
  | signalFault h => exact .signalFault (h.withCache hdisk m hm)

end Session

/-! ### Runs -/

/-- A run of a session is one with the other cache. -/
theorem Session.runs_withCache {out₀ out : Outcome cfg L} {obs : List Observation}
    (h : Runs Takes out₀ obs out) (hdisk : ∀ o ∈ obs, o.io.DiskOk) (m : ℕ) (hm : m < 2 ^ 32) :
    Runs Takes (out₀.withCache m hm) obs (out.withCache m hm) := by
  induction h with
  | start => exact .start
  | step _ hstep ih =>
    refine .step (ih fun o ho => hdisk o (List.mem_append_left _ ho)) ?_
    cases hstep with
    | step hstep =>
      exact .step (hstep.withCache (hdisk _ (List.mem_append_right _ (.head _))) m hm)

/-- **The cache cannot be seen.** As long as the files take what they are given, a run of a
connection is possible with any other `HIST_CACHE_SIZE`, with none in particular. Whoever is given
the same then does the same, and ends in the same session with the other cache. -/
theorem cache_unobserved {tr : List (Entry cfg L)} {st : Status cfg L} (h : Run tr st)
    (hdisk : ∀ e ∈ tr, e.io.DiskOk) (m : ℕ) (hm : m < 2 ^ 32) :
    (∃ (tr' : List (Entry (cfg.withCache m hm) L)) (st' : Status (cfg.withCache m hm) L),
      Run tr' st' ∧ tr'.map (·.observed.input) = tr.map (·.observed.input)) ∧
    ∀ (tr' : List (Entry (cfg.withCache m hm) L)) (st' : Status (cfg.withCache m hm) L),
      Run tr' st' → tr'.map (·.observed.input) = tr.map (·.observed.input) →
      tr'.map (·.observed) = tr.map (·.observed) ∧
        ∃ out : Outcome cfg L, out.Represents st ∧ (out.withCache m hm).Represents st' := by
  obtain ⟨pool, id, h⟩ := h
  obtain ⟨out, hrun, hrep⟩ := h.takes (represents_acceptNew pool id)
  have hobs : ∀ o ∈ tr.map (·.observed), o.io.DiskOk := by
    intro o ho
    obtain ⟨e, he, rfl⟩ := List.mem_map.mp ho
    exact hdisk e he
  have hother := runs_withCache hrun hobs m hm
  refine ⟨?_, ?_⟩
  · obtain ⟨tr', st', h', hobs', -⟩ := Session.runs_fired hother (represents_acceptNew [] 0)
    refine ⟨tr', st', ⟨[], 0, h'⟩, ?_⟩
    have hinput := congrArg (List.map (·.input)) hobs'
    rwa [List.map_map, List.map_map] at hinput
  · rintro tr' st' ⟨pool', id', h'⟩ hinput
    obtain ⟨out', hrun', hrep'⟩ := h'.takes (represents_acceptNew pool' id')
    -- the session of the other run is decided by what it is given
    obtain ⟨hobs', rfl⟩ := Session.takes_unique hrun' hother
      (by simpa [Function.comp_def] using hinput)
    exact ⟨hobs', out, hrep, hrep'⟩

/-- A request that a cache of four bytes does not hold is put into slow mode and sent whole; without
a cache the same is done. -/
theorem cache_unobserved_none :
    ∃ (tr : List (Entry (Config.shipped.withCache 4 (by decide)) .bodiless))
      (st : Status (Config.shipped.withCache 4 (by decide)) .bodiless), Run tr st ∧
        .serverWrite (ascii "GET / HTTP/1.1\r\n\r\n") ∈ callsOf tr ∧
        ∃ (tr' : List (Entry ((Config.shipped.withCache 4 (by decide)).withCache 0 (by decide))
            .bodiless)) (st' : Status _ .bodiless),
          Run tr' st' ∧ tr'.map (·.observed) = tr.map (·.observed) := by
  obtain ⟨tr, st, h, hdisk, hsent⟩ := exists_run_diskOk (L := .bodiless)
    [(.clientReadable, { clientReads := [.data (ascii "GET /")], serverWrites := [.wrote 5] }),
      (.slowSwitch, {}), (.serverReadable true, {}),
      (.clientReadable, { clientReads := [.data (ascii " HTTP/1.1\r\n\r\n")] }),
      (.serverWritable, { serverWrites := [.wrote 18] })]
    (fun (tr : List (Entry (Config.shipped.withCache 4 (by decide)) _)) _ =>
      (callsOf tr).contains (.serverWrite (ascii "GET / HTTP/1.1\r\n\r\n")))
    (by decide +kernel) (by simp [Io.DiskOk])
  obtain ⟨⟨tr', st', h', hinput⟩, hsame⟩ := cache_unobserved h hdisk 0 (by decide)
  exact ⟨tr, st, h, by simpa using hsent, tr', st', h', (hsame tr' st' h' hinput).1⟩

end LSProxy
