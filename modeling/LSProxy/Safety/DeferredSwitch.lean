import LSProxy.Safety.Handover
import LSProxy.Safety.Descriptors

/-!
# The deferred switch

`put_all_connection_slow_mode` records the events that are registered, and one second later
`put_events_slow_mode` goes through them. Meanwhile they can be freed: with their client, with their
server (which goes after every exchange of slow mode), or because they are timers and have fired.
The timer looks into an event before it asks whether the event is pending.

* `Process.Sound.mem_events_iff` — an event is allocated as long as the object it was made for;
* `Process.LogEntry.frees` — what happens to the objects frees the event;
* `Process.Sound.putEventsSlowMode_cases` — how the loop of `put_events_slow_mode` ends;
* `deferred_switch` — the timer finds every recorded event allocated just if none has been freed.
-/

namespace LSProxy

open Session Ownership

variable {cfg : Config} {L : Llhttp}

namespace Process

/-! ### Events and their objects -/

/-- The object that the event was made for exists. -/
def Alive (ps : Process cfg L) : EventId → Prop
  | .acceptNew | .monitorDataRates => True
  | .clientRead b | .clientWrite b => (ps.proxy.conns b).isSome = true
  | .serverRead b n | .serverWrite b n => ps.table.serverOf b = some n
  | .closeAfterTimeout k => ∃ fd, .closeTimer k fd ∈ ps.table.objects
  | .putEventsSlowMode k => ∃ evtList, .slowTimer k evtList ∈ ps.table.objects

/-- An event is allocated as long as its object exists. -/
theorem Sound.mem_events_iff {ps : Process cfg L} (hs : ps.Sound) (evt : EventId) :
    evt ∈ ps.table.events ↔ ps.Alive evt := by
  have hheld : evt ∈ ps.table.events ↔ ∃ x ∈ ps.table.objects, evt ∈ x.events := by
    constructor
    · intro hmem
      by_contra hfree
      exact hs.valid.events evt ⟨hmem, hfree⟩
    · intro hheld
      exact hs.valid.sound.held_subset (show .event evt ∈ _ from hheld)
  -- by the kind of object, and back by the kind of event
  rw [hheld]
  constructor
  · rintro ⟨x, hx, hevt⟩
    cases x with
    | process =>
      rcases Finset.mem_insert.mp hevt with rfl | hevt
      · trivial
      · obtain rfl := Finset.mem_singleton.mp hevt
        trivial
    | client b =>
      have hlive := (hs.fits.client b).mp hx
      rcases Finset.mem_insert.mp hevt with rfl | hevt
      · exact hlive
      · obtain rfl := Finset.mem_singleton.mp hevt
        exact hlive
    | server b n =>
      have hlive := (hs.valid.server b n).mp hx
      rcases Finset.mem_insert.mp hevt with rfl | hevt
      · exact hlive
      · obtain rfl := Finset.mem_singleton.mp hevt
        exact hlive
    | closeTimer k fd =>
      obtain rfl := Finset.mem_singleton.mp hevt
      exact ⟨fd, hx⟩
    | slowTimer k evtList =>
      obtain rfl := Finset.mem_singleton.mp hevt
      exact ⟨evtList, hx⟩
    | _ => exact absurd hevt (Finset.notMem_empty evt)
  · intro halive
    cases evt with
    | acceptNew | monitorDataRates => exact ⟨.process, hs.valid.process, by simp [Object.events]⟩
    | clientRead b | clientWrite b =>
      exact ⟨.client b, (hs.fits.client b).mpr halive, by simp [Object.events]⟩
    | serverRead b n | serverWrite b n =>
      exact ⟨.server b n, (hs.valid.server b n).mpr halive, by simp [Object.events]⟩
    | closeAfterTimeout k =>
      obtain ⟨fd, hx⟩ := halive
      exact ⟨_, hx, by simp [Object.events]⟩
    | putEventsSlowMode k =>
      obtain ⟨evtList, hx⟩ := halive
      exact ⟨_, hx, by simp [Object.events]⟩

/-! ### What frees an event -/

/-- A callback deletes connection `b`. -/
def LogEntry.deletesClient (x : LogEntry cfg L) (b : ℕ) : Bool :=
  match x.ev with
  | .fire b' _ _ => b' == b && x.calls.contains .closeClient
  | _ => false

/-- A callback closes the server `n` of connection `b`. -/
def LogEntry.closesServer (x : LogEntry cfg L) (b n : ℕ) : Bool :=
  match x.ev with
  | .fire b' _ _ =>
    b' == b && x.before.table.serverOf b == some n && x.calls.contains .closeServer
  | _ => false

/-- The event is freed: its client or its server is destroyed, or it is a timer that fires. -/
def LogEntry.frees (x : LogEntry cfg L) : EventId → Bool
  | .acceptNew | .monitorDataRates => false
  | .clientRead b | .clientWrite b => x.deletesClient b
  | .serverRead b n | .serverWrite b n => x.closesServer b n
  | .closeAfterTimeout k =>
    match x.ev with
    | .closeAfterTimeout k' _ => k' == k
    | _ => false
  | .putEventsSlowMode k =>
    match x.ev with
    | .putEventsSlowMode k' _ _ => k' == k
    | _ => false

section Frees

variable {ps ps' : Process cfg L} {b : ℕ} {c : Connection cfg L} {cb : Callback} {io : Io}
  {evt : EventId}

/-- A callback fires no timer. -/
theorem closeTimer_mem_callbackTable {e : Effect cfg L} {k : ℕ} {fd : Fd}
    (hk : .closeTimer k fd ∈ ps.table.objects) :
    .closeTimer k fd ∈ (ps.callbackTable b c io e).objects := by
  have hcalls : .closeTimer k fd ∈ (e.calls.foldl (Table.call b io) ps.table).objects :=
    List.foldlRecOn (motive := fun t : Table => .closeTimer k fd ∈ t.objects) e.calls
      (Table.call b io) hk fun t ht call _ => Table.closeTimer_mem_call ht b io call
  unfold callbackTable
  rw [Table.mem_deleteHists]
  refine ⟨?_, fun i _ => Object.noConfusion⟩
  split
  · exact mem_newSlowBuffers.mpr (.inl hcalls)
  · exact hcalls

/-- **What a callback frees** are the events of the client and of the server it destroys. -/
theorem Sound.callback_alive (hs : ps.Sound) (hc : ps.proxy.conns b = some c)
    (hen : c.enabled cb = true) (hr : ps.callback b c cb io = .ok ps') (halive : ps.Alive evt) :
    ps'.Alive evt ↔ (⟨ps, .fire b cb io⟩ : LogEntry cfg L).frees evt = false := by
  have hcalls : (⟨ps, .fire b cb io⟩ : LogEntry cfg L).calls = _ := LogEntry.calls_fire hc
  obtain ⟨s, hrep⟩ := hs.owned.rep b c hc
  have hlife := (fire_lifecycle hrep hen io ps.proxy.globalBuffer ps.proxy.pool).1
  obtain ⟨px', hsettle, rfl⟩ := callback_ok hr
  obtain ⟨hleft, -, -⟩ := settle_left (c := c) hsettle
  obtain ⟨hcalled, -⟩ := hs.callbackTable hc io
    (fire_orderly hrep hen io ps.proxy.globalBuffer ps.proxy.pool) hleft
  have hgone := (hlife _ hleft).closeClient_mem
  obtain ⟨-, -, -, -, hothers⟩ := Proxy.settle_ok hsettle
  cases evt with
  | acceptNew | monitorDataRates => exact iff_of_true trivial rfl
  | clientRead b' | clientWrite b' =>
    show (px'.conns b').isSome = true ↔ (b == b' && List.contains _ _) = false
    -- the client goes just if the callback closes it
    rcases eq_or_ne b' b with rfl | hb
    · rw [beq_self_eq_true, Bool.true_and, ← Bool.not_eq_true, List.contains_iff_mem, hcalls, hgone,
        Option.map_eq_none_iff, Option.isSome_iff_ne_none]
    · rw [hothers b' hb, beq_false_of_ne hb.symm, Bool.false_and]
      exact iff_of_true halive rfl
  | serverRead b' n | serverWrite b' n =>
    show (ps.callbackTable b c io _).serverOf b' = some n ↔
      (b == b' && ps.table.serverOf b' == some n && List.contains _ _) = false
    have halive : ps.table.serverOf b' = some n := halive
    rw [callbackTable_serverOf, halive]
    rcases eq_or_ne b' b with rfl | hb
    -- the callback may make another server, but not with this number
    · have hn : n < ps.table.nextServer :=
        hs.valid.sound.used ((hs.valid.server b' n).mpr halive)
          (show .fd (.server b' n) ∈ (Object.server b' n).holds from Finset.mem_singleton_self _)
      rw [hcalled.server n hn, and_iff_right halive, beq_self_eq_true, beq_self_eq_true,
        Bool.true_and, Bool.true_and, ← Bool.not_eq_true, List.contains_iff_mem, hcalls]
    · rw [hcalled.others b' hb, beq_false_of_ne hb.symm, Bool.false_and, Bool.false_and]
      exact iff_of_true halive rfl
  | closeAfterTimeout k =>
    obtain ⟨fd, hk⟩ := halive
    exact iff_of_true ⟨fd, closeTimer_mem_callbackTable hk⟩ rfl
  | putEventsSlowMode k =>
    obtain ⟨evtList, hk⟩ := halive
    refine iff_of_true ⟨evtList, ?_⟩ rfl
    rw [mem_callbackTable hcalled rfl]
    exact ⟨.inl ⟨hk, fun _ => by simp [Object.clientOf]⟩, fun i _ => Object.noConfusion⟩

/-- `accept_new` frees nothing. -/
theorem acceptNew_events (hmem : evt ∈ ps.table.events) (io : Io) :
    evt ∈ (ps.acceptNew io).table.events := by
  unfold Process.acceptNew Table.closeSocketGracefully
  split
  · split
    · exact hmem
    · exact Finset.mem_union_left _ hmem
  · split
    · exact Finset.mem_union_left _ (Finset.mem_union_left _ hmem)
    · exact Finset.mem_union_left _ hmem

/-- **One event**: an event that is allocated stays so just if this does not free it. -/
theorem Sound.mem_events_step {ev : Event} (hs : ps.Sound) (h : ps.step ev = some (.ok ps'))
    (hmem : evt ∈ ps.table.events) :
    evt ∈ ps'.table.events ↔ (⟨ps, ev⟩ : LogEntry cfg L).frees evt = false := by
  cases ev with
  | acceptNew io =>
    obtain rfl := Except.ok.inj (Option.some.inj h)
    exact iff_of_true (acceptNew_events hmem io) (by cases evt <;> rfl)
  | fire b cb io =>
    obtain ⟨c, hc, hen, -, hr⟩ := step_fire h
    rw [(hs.step h).1.mem_events_iff]
    exact hs.callback_alive hc hen hr ((hs.mem_events_iff evt).mp hmem)
  | sigusr1 evtList =>
    obtain ⟨-, -, rfl⟩ := step_sigusr1 h
    exact iff_of_true (Finset.mem_union_left _ hmem) (by cases evt <;> rfl)
  | putEventsSlowMode k evtList ios =>
    obtain ⟨-, ⟨ps₁, hloop, hr⟩ | ⟨f, -, hr⟩⟩ := step_putEventsSlowMode h
    -- the loop frees nothing; its own timer goes at the end
    · obtain rfl := Except.ok.inj hr
      obtain ⟨-, hevents, -⟩ := hs.putEventsSlowMode hloop
      have hself : evt ∈ (ps₁.table.delete (.slowTimer k evtList)).events ↔
          evt ≠ .putEventsSlowMode k := by
        rw [← hevents] at hmem
        exact Finset.mem_sdiff.trans ((and_iff_right hmem).trans Finset.mem_singleton.not)
      rw [hself]
      cases evt with
      | putEventsSlowMode k' =>
        show EventId.putEventsSlowMode k' ≠ .putEventsSlowMode k ↔ (k == k') = false
        rw [beq_eq_false_iff_ne, ne_comm, ne_eq, EventId.putEventsSlowMode.injEq]
      | _ => exact iff_of_true EventId.noConfusion rfl
    · cases hr
  | closeAfterTimeout k fd =>
    obtain ⟨-, rfl⟩ := step_closeAfterTimeout h
    have hself : evt ∈ (ps.table.delete (.closeTimer k fd)).events ↔
        evt ≠ .closeAfterTimeout k :=
      Finset.mem_sdiff.trans ((and_iff_right hmem).trans Finset.mem_singleton.not)
    rw [hself]
    cases evt with
    | closeAfterTimeout k' =>
      show EventId.closeAfterTimeout k' ≠ .closeAfterTimeout k ↔ (k == k') = false
      rw [beq_eq_false_iff_ne, ne_comm, ne_eq, EventId.closeAfterTimeout.injEq]
    | _ => exact iff_of_true EventId.noConfusion rfl

/-- **A run**: an event that is allocated stays so just if nothing frees it. Once freed, its name
does not come back. -/
theorem RunFrom.mem_events {log : List (LogEntry cfg L)} (h : RunFrom ps log (.ok ps'))
    (hs : ps.Sound) (hmem : evt ∈ ps.table.events) :
    evt ∈ ps'.table.events ↔ ∀ x ∈ log, x.frees evt = false := by
  generalize hr : (Except.ok ps' : Except Failure (Process cfg L)) = r at h
  induction h generalizing ps' with
  | start =>
    obtain rfl := Except.ok.inj hr
    exact iff_of_true hmem (by simp)
  | @step log ps₁ ev r h hstep ih =>
    subst hr
    obtain ⟨hs₁, hpass₁⟩ := h.passes hs ps₁ rfl
    rw [List.forall_mem_append, List.forall_mem_singleton, ← ih rfl]
    -- what has been freed before does not come back under its name
    by_cases hkept : evt ∈ ps₁.table.events
    · rw [and_iff_right hkept]
      exact hs₁.mem_events_step hstep hkept
    · have hused : .event evt ∈ ps₁.table.Used ps₁.proxy.accepted ps₁.proxy.nextId :=
        hpass₁.evolves.used_subset (hs.valid.sound.opened_subset hmem)
      exact iff_of_false ((hs₁.step hstep).2.evolves.gone hused hkept) fun h => hkept h.1

end Frees

/-! ### The loop -/

section Loop

variable {ps ps' : Process cfg L} {b : ℕ} {c : Connection cfg L} {io : Io} {evt : EventId}
  {events : Finset EventId} {ios : EventId → Io} {evtList : List EventId}
  {r : Except Failure (Process cfg L)}

/-- `set_slow_mode` fails only with the disk. -/
theorem Sound.slowSwitch_error {f : Failure} (hs : ps.Sound) (hc : ps.proxy.conns b = some c)
    (hen : c.enabled .slowSwitch = true) (hr : ps.callback b c .slowSwitch io = .error f) :
    (∃ f', f = .fault f') ∧ ¬ io.DiskOk := by
  obtain ⟨s, hrep⟩ := hs.owned.rep b c hc
  obtain ⟨out, hstep, hout⟩ := fire_step hrep hen io ps.proxy.globalBuffer ps.proxy.pool
  obtain ⟨f', hsettle, rfl⟩ := callback_error hr
  refine ⟨⟨f', rfl⟩, fun hdisk => ?_⟩
  rw [Proxy.settle_error_iff.mp hsettle] at hout
  generalize (c.fire .slowSwitch io ps.proxy.globalBuffer ps.proxy.pool).calls = calls at hstep
  cases hstep with
  | signalFault h =>
    obtain ⟨ph', hok⟩ := h.succeeds hdisk
    cases hok
  | signalSlow => exact hout
  | signalSwitch => exact hout

/-- The connection of an event that is allocated is live. -/
theorem Sound.associatedConn_live (hs : ps.Sound) (hmem : evt ∈ ps.table.events)
    (hconn : evt.associatedConn = some b) : (ps.proxy.conns b).isSome = true := by
  have halive := (hs.mem_events_iff evt).mp hmem
  cases evt <;> cases hconn
  case clientRead | clientWrite => exact halive
  case serverRead n | serverWrite n =>
    have hserver := hs.fits.server b
    rw [show ps.table.serverOf b = some n from halive] at hserver
    obtain ⟨c, hc, -⟩ := (Option.any_eq_true _ _).mp hserver.symm
    rw [hc]
    rfl

/-- How the loop of `put_events_slow_mode` ends, where `events` are allocated. -/
inductive LoopEnds (events : Finset EventId) (ios : EventId → Io) (evtList : List EventId) :
    Except Failure (Process cfg L) → Prop
  | done {ps' : Process cfg L} (hall : ∀ evt ∈ evtList, evt ∈ events) :
      LoopEnds events ios evtList (.ok ps')
  | missing {evt : EventId} (hmem : evt ∈ evtList) (hfreed : evt ∉ events) :
      LoopEnds events ios evtList (.error (.missing evt))
  | fault {evt : EventId} {f : Fault} (hmem : evt ∈ evtList) (hdisk : ¬ (ios evt).DiskOk) :
      LoopEnds events ios evtList (.error (.fault f))

/-- The loop gets past an event that is allocated. -/
theorem LoopEnds.cons (h : LoopEnds events ios evtList r) (hmem : evt ∈ events) :
    LoopEnds events ios (evt :: evtList) r := by
  cases h with
  | done hall => exact .done (List.forall_mem_cons.mpr ⟨hmem, hall⟩)
  | missing hin hfreed => exact .missing (List.mem_cons_of_mem _ hin) hfreed
  | fault hin hdisk => exact .fault (List.mem_cons_of_mem _ hin) hdisk

/-- **The loop** ends at the first event that has been freed, unless the disk fails before. It
never comes to a connection that has been deleted. -/
theorem Sound.putEventsSlowMode_ends (hs : ps.Sound) (ios : EventId → Io)
    (evtList : List EventId) :
    LoopEnds ps.table.events ios evtList (ps.putEventsSlowMode ios evtList) := by
  induction evtList generalizing ps with
  | nil => exact .done fun evt hevt => absurd hevt List.not_mem_nil
  | cons evt rest ih =>
    unfold Process.putEventsSlowMode
    split
    case isFalse hfreed => exact .missing List.mem_cons_self hfreed
    case isTrue hmem =>
    split
    case h_2 => exact (ih hs).cons hmem
    case h_1 b hconn =>
    have hlive := hs.associatedConn_live hmem hconn
    split
    case h_2 hnone =>
      rw [hnone] at hlive
      cases hlive
    case h_1 c hc =>
    split
    case isFalse => exact (ih hs).cons hmem
    case isTrue hpending =>
    have hen := enabled_of_pending hconn hc hpending
    split
    case h_1 ps₁ hr =>
      -- `set_slow_mode` frees nothing, so the rest of the list finds the same events
      obtain ⟨⟨hs₁, -⟩, hevents, -⟩ := hs.slowSwitch hc hen hr
      rw [← hevents] at hmem ⊢
      exact (ih hs₁).cons hmem
    case h_2 f hr =>
      obtain ⟨⟨f', rfl⟩, hdisk⟩ := hs.slowSwitch_error hc hen hr
      exact .fault List.mem_cons_self hdisk

end Loop

end Process

/-- **The deferred switch** touches only live objects just if nothing frees a recorded event. From
any state, let the signal record the events `evtList`; when the timer fires, all of them are still
allocated, and `put_events_slow_mode` inspects no other, just if what came in between has freed none
of them. It never switches a connection that has been deleted. -/
theorem deferred_switch {n : ℕ} {pre mid : List (Process.LogEntry cfg L)}
    {ps₀ ps₁ ps₂ : Process cfg L} {evtList : List EventId}
    (hpre : Process.RunFrom (Process.start cfg L n) pre (.ok ps₀))
    (hsig : ps₀.step (.sigusr1 evtList) = some (.ok ps₁))
    (hmid : Process.RunFrom ps₁ mid (.ok ps₂))
    (hpending : .slowTimer ps₀.table.nextTimer evtList ∈ ps₂.table.objects) :
    ((∀ evt ∈ evtList, evt ∈ ps₂.table.events) ↔
      ∀ x ∈ mid, ∀ evt ∈ evtList, x.frees evt = false) ∧
    ((∀ ios evt, ps₂.step (.putEventsSlowMode ps₀.table.nextTimer evtList ios) ≠
        some (.error (.missing evt))) ↔
      ∀ x ∈ mid, ∀ evt ∈ evtList, x.frees evt = false) ∧
    ∀ ios b, ps₂.step (.putEventsSlowMode ps₀.table.nextTimer evtList ios) ≠
      some (.error (.dead b)) := by
  obtain ⟨hs₀, -⟩ := hpre.passes (Process.sound_start n) ps₀ rfl
  have hs₁ := (hs₀.step hsig).1
  have hs₂ := (hmid.passes hs₁ ps₂ rfl).1
  obtain ⟨-, hlist, rfl⟩ := Process.step_sigusr1 hsig
  -- what the signal has recorded is there when the second begins
  have hrecorded : ∀ evt ∈ evtList,
      evt ∈ (ps₀.table.newTimer (.slowTimer · evtList)).events := by
    intro evt hevt
    have hreg : evt ∈ ps₀.registered := hlist ▸ List.mem_toFinset.mpr hevt
    exact Finset.mem_union_left _ (Finset.mem_filter.mp hreg).1
  have hkept : (∀ evt ∈ evtList, evt ∈ ps₂.table.events) ↔
      ∀ x ∈ mid, ∀ evt ∈ evtList, x.frees evt = false := by
    constructor
    · intro hall x hx evt hevt
      exact (hmid.mem_events hs₁ (hrecorded evt hevt)).mp (hall evt hevt) x hx
    · intro hall evt hevt
      exact (hmid.mem_events hs₁ (hrecorded evt hevt)).mpr fun x hx => hall x hx evt hevt
  have hfails : ∀ {ios f}, ps₂.step (.putEventsSlowMode ps₀.table.nextTimer evtList ios) =
      some (.error f) ↔ ps₂.putEventsSlowMode ios evtList = .error f := by
    intro ios f
    unfold Process.step
    dsimp only
    rw [if_pos hpending]
    cases ps₂.putEventsSlowMode ios evtList <;> simp
  refine ⟨hkept, ?_, fun ios b hdead => ?_⟩
  · rw [← hkept]
    constructor
    · intro hnone evt hevt
      -- with a disk that works the loop would get to the missing event
      have hdisk : ({} : Io).DiskOk := by simp [Io.DiskOk]
      have hends := hs₂.putEventsSlowMode_ends (fun _ => {}) evtList
      generalize hr : ps₂.putEventsSlowMode (fun _ => {}) evtList = r at hends
      cases hends with
      | done hall => exact hall evt hevt
      | missing => exact absurd (hfails.mpr hr) (hnone _ _)
      | fault _ hfails => exact absurd hdisk hfails
    -- a missing event would be one of the list
    · intro hall ios evt hmissing
      have hends := hs₂.putEventsSlowMode_ends ios evtList
      rw [hfails.mp hmissing] at hends
      cases hends with
      | missing hevt hfreed => exact hfreed (hall evt hevt)
  · have hends := hs₂.putEventsSlowMode_ends ios evtList
    rw [hfails.mp hdead] at hends
    cases hends

/-- A client is connected when the signal comes. Before the timer fires another comes and goes, and
the first one is served: nothing recorded is freed. -/
theorem deferred_switch_kept :
    ∃ (ps₀ ps₁ ps₂ : Process .small .bodiless) (mid : List (Process.LogEntry .small .bodiless)),
      ps₀.step (.sigusr1 [.acceptNew, .monitorDataRates, .clientRead 0]) = some (.ok ps₁) ∧
        Process.RunFrom ps₁ mid (.ok ps₂) ∧ mid.length = 3 ∧
        ∀ ios evt, ps₂.step (.putEventsSlowMode ps₀.table.nextTimer
          [.acceptNew, .monitorDataRates, .clientRead 0] ios) ≠ some (.error (.missing evt)) := by
  obtain ⟨pre, r, hpre, hr⟩ := Process.exists_run (L := .bodiless) Config.small.maxHybridPool
    [.acceptNew {}]
    (fun _ (r : Except Process.Failure (Process .small _)) => Process.isOkWith r fun ps₀ =>
      (ps₀.step (.sigusr1 [.acceptNew, .monitorDataRates, .clientRead 0])).any fun r₁ =>
        Process.isOkWith r₁ fun ps₁ => (ps₁.exec [.acceptNew {},
            .fire 0 .clientReadable
              { clientReads := [.data (ascii "GET / HTTP/1.1\r\n\r\n")],
                serverWrites := [.wrote 18] },
            .fire 1 .clientReadable { clientReads := [.data []] }]).any fun mr =>
          Process.isOkWith mr.2 fun ps₂ =>
            decide (.slowTimer ps₀.table.nextTimer [.acceptNew, .monitorDataRates, .clientRead 0] ∈
                ps₂.table.objects) &&
              mr.1.length == 3 &&
              mr.1.all fun x => !x.frees .acceptNew && !x.frees .monitorDataRates &&
                !x.frees (.clientRead 0))
    (by decide +kernel)
  obtain ⟨ps₀, rfl, hr⟩ := Process.isOkWith_iff.mp hr
  obtain ⟨r₁, hsig, hr⟩ := (Option.any_eq_true _ _).mp hr
  obtain ⟨ps₁, rfl, hr⟩ := Process.isOkWith_iff.mp hr
  obtain ⟨⟨mid, r₂⟩, hex, hr⟩ := (Option.any_eq_true _ _).mp hr
  obtain ⟨ps₂, rfl, hmid⟩ := Process.isOkWith_iff.mp hr
  simp only [Bool.and_eq_true, decide_eq_true_eq, beq_iff_eq, List.all_eq_true,
    Bool.not_eq_true'] at hmid
  obtain ⟨⟨hpending, hlength⟩, hkept⟩ := hmid
  have hrun : Process.RunFrom ps₁ mid (.ok ps₂) := Process.run_of_exec .start hex
  refine ⟨ps₀, ps₁, ps₂, mid, hsig, hrun, hlength,
    (deferred_switch hpre hsig hrun hpending).2.1.mpr fun x hx => ?_⟩
  obtain ⟨⟨haccept, hmonitor⟩, hclient⟩ := hkept x hx
  simp [haccept, hmonitor, hclient]

/-- The client whose reading event the signal recorded leaves before the timer fires. Of two signals
within a second, the second records the timer of the first. -/
theorem deferred_switch_freed :
    (∃ log, Process.RunFrom (Process.start .small .bodiless Config.small.maxHybridPool) log
      (.error (.missing (.clientRead 0)))) ∧
    ∃ log, Process.RunFrom (Process.start .small .bodiless Config.small.maxHybridPool) log
      (.error (.missing (.putEventsSlowMode 0))) := by
  constructor
  · obtain ⟨log, r, hrun, hr⟩ := Process.exists_run (L := .bodiless) Config.small.maxHybridPool
      [.acceptNew {},
        .sigusr1 [.acceptNew, .monitorDataRates, .clientRead 0],
        .fire 0 .clientReadable
          { clientReads := [.data []], clientClose := { last := .data [] } },
        .putEventsSlowMode 0 [.acceptNew, .monitorDataRates, .clientRead 0] (fun _ => {})]
      (fun _ (r : Except Process.Failure (Process .small _)) => match r with
        | .error f => f == .missing (.clientRead 0)
        | .ok _ => false)
      (by decide +kernel)
    cases r with
    | ok ps => cases hr
    | error f => exact ⟨log, beq_iff_eq.mp hr ▸ hrun⟩
  · obtain ⟨log, r, hrun, hr⟩ := Process.exists_run (L := .bodiless) Config.small.maxHybridPool
      [.sigusr1 [.acceptNew, .monitorDataRates],
        .sigusr1 [.acceptNew, .monitorDataRates, .putEventsSlowMode 0],
        .putEventsSlowMode 0 [.acceptNew, .monitorDataRates] (fun _ => {}),
        .putEventsSlowMode 1 [.acceptNew, .monitorDataRates, .putEventsSlowMode 0] (fun _ => {})]
      (fun _ (r : Except Process.Failure (Process .small _)) => match r with
        | .error f => f == .missing (.putEventsSlowMode 0)
        | .ok _ => false)
      (by decide +kernel)
    cases r with
    | ok ps => cases hr
    | error f => exact ⟨log, beq_iff_eq.mp hr ▸ hrun⟩

end LSProxy
