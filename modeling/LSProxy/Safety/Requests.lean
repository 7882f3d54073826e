import Mathlib.Data.List.Forall2
import LSProxy.Safety.Handover

/-!
# Requests in slow mode

In slow mode each request is stored, sent to a server of its own and cleared away again. The
clearing is done by `Server::send_request_slowly`, when it finds nothing left to send and swaps
`request_buf` with `request_tmp_buf`; nothing makes it happen before the exchange ends. What is
swapped back has not been parsed, and nothing parses it later.

`Served` is what holds when neither slip shows: no exchange ends before the swap, and no read gets
bytes past the end of the request it completes.

* `exactly_once` — the `k`-th server connection is sent a prefix of the `k`-th request, and when
  the client is read again the buffers hold nothing of a request that was dispatched;
* `messages_dispatched` — the messages of the stream are dispatched one by one and in order, and
  `request_buf` holds what the parser has read of the next one.
-/

namespace LSProxy

open Session

variable {cfg : Config} {L : Llhttp}

/-- The exchange with a server ends, because the response is complete or the server has closed,
while the server's writing event is pending: `request_buf` has not been cleared. -/
def Entry.endsEarly (e : Entry cfg L) : Bool :=
  e.cb == .serverReadable false && !e.conn.fastMode && !e.conn.inTransition &&
    e.conn.server.any (·.writeEvt) && e.conn.parser.any fun p =>
      (p.doParse (readAll e.io.serverReads cfg.sockIoBufSize).data).any fun p' =>
        (readAll e.io.serverReads cfg.sockIoBufSize).hasEof || p'.lastEom.isSome

/-- Each message is on a stream of its own, the last one possibly only in part. -/
def Delivered (ss ms : List Bytes) : Prop :=
  ss = ms ∨ ∃ ms₀ m w, w <+: m ∧ ss = ms₀ ++ [w] ∧ ms = ms₀ ++ [m]

theorem Delivered.forall₂ {ss ms : List Bytes} (h : Delivered ss ms) :
    List.Forall₂ (· <+: ·) ss ms := by
  have hrefl : ∀ ms : List Bytes, List.Forall₂ (· <+: ·) ms ms := fun ms =>
    List.forall₂_same.mpr fun _ _ => List.prefix_rfl
  rcases h with rfl | ⟨ms₀, m, w, hw, rfl, rfl⟩
  · exact hrefl ss
  · exact List.rel_append (hrefl ms₀) (.cons hw .nil)

/-- The connection only replies. -/
def Phase.IsOver : Phase cfg L → Prop
  | .slowReply .. => True
  | _ => False

/-- The connection will not dispatch again. -/
def Outcome.IsOver : Outcome cfg L → Prop
  | .live s => s.phase.IsOver
  | _ => True

/-- Slow mode so far. It began in the middle of a request that started in `start` and of which
`seen` had been read; `calls` is what has been done since. -/
inductive Served (start : L.State) (seen : Bytes) (calls : List Call) : Outcome cfg L → Prop
  | receiving {s : Session cfg L} {ms : List Bytes} {rest : Bytes}
      (hr : s.phase.Receiving start ms rest) (hlive : ¬ (Outcome.live s).IsOver)
      (hin : ms.flatten ++ rest = seen ++ calls.flatMap (·.clientIn))
      (hs : streams calls = ms) : Served start seen calls (.live s)
  | sending {n : Counts} {p : HttpParser L} {b : SlowBufs}
      {stale : Option (Circularbuf cfg.sockIoBufSize)} {cw : Bool} {ms : List Bytes} {m : Bytes}
      (hparses : L.requests.Parses L.init start (ms ++ [m]) [] L.init)
      (hin : (ms ++ [m]).flatten = seen ++ calls.flatMap (·.clientIn))
      (hs : streams calls = ms ++ [m.take b.request.offset])
      (hreq : b.request.content = m) (htmp : b.tmp = []) :
      Served start seen calls (.live ⟨n, .exchange p b stale cw true⟩)
  | sent {n : Counts} {p : HttpParser L} {b : SlowBufs}
      {stale : Option (Circularbuf cfg.sockIoBufSize)} {cw : Bool} {ms : List Bytes}
      (hparses : L.requests.Parses L.init start ms [] L.init)
      (hin : ms.flatten = seen ++ calls.flatMap (·.clientIn)) (hs : streams calls = ms)
      (hreq : b.request = .filled []) (htmp : b.tmp = []) :
      Served start seen calls (.live ⟨n, .exchange p b stale cw false⟩)
  | ended {out : Outcome cfg L} {ms : List Bytes} {rest : Bytes} {now : L.State}
      (hover : out.IsOver) (hparses : L.requests.Parses L.init start ms rest now)
      (hin : ms.flatten ++ rest <+: seen ++ calls.flatMap (·.clientIn))
      (hs : Delivered (streams calls) ms) : Served start seen calls out

/-! ### One step -/

/-- Calls that touch neither the client's stream nor the streams of the servers. -/
theorem clientIn_append {calls calls' : List Call} {stream : Bytes}
    (h : calls'.flatMap (·.clientIn) = []) :
    stream ++ (calls ++ calls').flatMap (·.clientIn) = stream ++ calls.flatMap (·.clientIn) := by
  rw [List.flatMap_append, h, List.append_nil]

theorem streams_append_of_still {calls calls' : List Call} {ss : List Bytes}
    (hs : streams calls = ss) (h : calls'.foldl streamStep ss = ss) :
    streams (calls ++ calls') = ss := by
  rw [streams_append, hs, h]

theorem Phase.Receiving.parses {s : Session cfg L} {start : L.State} {ms : List Bytes}
    {rest : Bytes} (hr : s.phase.Receiving start ms rest) (hlive : ¬ (Outcome.live s).IsOver) :
    ∃ now, L.requests.Parses L.init start ms rest now := by
  obtain ⟨n, ph⟩ := s
  cases ph with
  | transition => exact ⟨_, hr.2.2.2.2⟩
  | idle => exact ⟨_, hr.2.2.2⟩
  | slowReply => exact absurd trivial hlive
  | _ => exact hr.elim

/-- While no request is dispatched nothing is written on a connection of slow mode. -/
theorem Session.Step.streams_receiving {s : Session cfg L} {cb : Callback} {io : Io}
    {calls : List Call} {out : Outcome cfg L} {start : L.State} {ms : List Bytes} {rest : Bytes}
    (h : Step s cb io calls out) (hr : s.phase.Receiving start ms rest) (hno : .connect ∉ calls) :
    calls.foldl streamStep ms = ms := by
  cases h with
  | transitionWrite | transitionDrained =>
    -- the server of fast mode
    obtain rfl := hr.1
    rfl
  | transitionDeliver h | idleDeliver h | slowReplyDeliver h | slowReplyDone h => cases h <;> rfl
  | idleDispatch _ _ _ _ h =>
    cases h with
    | connect => exact absurd hno (by simp)
    | _ => rfl
  | monitorDrop => split <;> rfl
  | _ => first | rfl | exact hr.elim

theorem Session.Step.served_receiving {s : Session cfg L} {c : Connection cfg L} {cb : Callback}
    {io : Io} {calls calls' : List Call} {out : Outcome cfg L} {start : L.State} {seen : Bytes}
    {ms : List Bytes} {rest : Bytes} (h : Step s cb io calls' out) (hrep : Rep s c)
    (hkept : (⟨c, cb, io, calls'⟩ : Entry cfg L).losesRequest = false)
    (hpipe : (⟨c, cb, io, calls'⟩ : Entry cfg L).pipelines = false)
    (hr : s.phase.Receiving start ms rest) (hlive : ¬ (Outcome.live s).IsOver)
    (hin : ms.flatten ++ rest = seen ++ calls.flatMap (·.clientIn)) (hs : streams calls = ms) :
    Served start seen (calls ++ calls') out := by
  by_cases hc : .connect ∈ calls'
  · obtain ⟨n, p, b, stale, cw, m, data, rfl, rfl, hm, hreq, -, hparses, htmp⟩ :=
      h.dispatches hrep hkept hr hc
    -- nothing is pipelined: the message is all that was read
    rw [htmp hpipe, List.append_nil] at hm
    refine .sending hparses ?_ ?_ (congrArg Filebuf.content hreq) (htmp hpipe)
    · rw [List.flatten_append, List.flatten_singleton, hm, ← List.append_assoc, hin,
        List.flatMap_append, List.append_assoc]
      simp
    · rw [streams_append, hs, hreq]
      rfl
  · have hr' := h.receiving hrep hkept hr hc
    have hs' := streams_append_of_still hs (h.streams_receiving hr hc)
    have hin' : ms.flatten ++ (rest ++ calls'.flatMap (·.clientIn))
        = seen ++ (calls ++ calls').flatMap (·.clientIn) := by
      rw [← List.append_assoc, hin, List.flatMap_append, List.append_assoc]
    -- a deleted connection leaves the last request unfinished
    by_cases hover : out.IsOver
    · obtain ⟨now, hparses⟩ := hr.parses hlive
      refine .ended hover hparses ⟨calls'.flatMap (·.clientIn), ?_⟩ (.inl hs')
      rw [← hin', List.append_assoc]
    · cases out with
      | live s' => exact .receiving hr' hover hin' hs'
      | deleted => exact absurd trivial hover
      | crashed f => exact absurd trivial hover

/-- The bytes written and what follows the cursor. -/
theorem take_offset_append (b : SlowBufs) (size : ℕ) (results : List WriteResult) :
    b.request.content.take b.request.offset ++
        (writeAll results (b.request.fetch size).2).data =
      b.request.content.take
        (b.request.offset + (writeAll results (b.request.fetch size).2).data.length) := by
  have hpre : (writeAll results (b.request.fetch size).2).data
      <+: b.request.content.drop b.request.offset :=
    (writeAll_isPrefix _ _).trans (List.take_prefix _ _)
  rw [List.take_add, ← List.prefix_iff_eq_take.mp hpre]

theorem Session.Step.served_sending {n : Counts} {p : HttpParser L} {b : SlowBufs}
    {stale : Option (Circularbuf cfg.sockIoBufSize)} {cw : Bool} {c : Connection cfg L}
    {cb : Callback} {io : Io} {calls calls' : List Call} {out : Outcome cfg L} {start : L.State}
    {seen : Bytes} {ms : List Bytes} {m : Bytes}
    (h : Step ⟨n, .exchange p b stale cw true⟩ cb io calls' out)
    (hrep : Rep ⟨n, .exchange p b stale cw true⟩ c)
    (hend : (⟨c, cb, io, calls'⟩ : Entry cfg L).endsEarly = false)
    (hparses : L.requests.Parses L.init start (ms ++ [m]) [] L.init)
    (hin : (ms ++ [m]).flatten = seen ++ calls.flatMap (·.clientIn))
    (hs : streams calls = ms ++ [m.take b.request.offset])
    (hreq : b.request.content = m) (htmp : b.tmp = []) :
    Served start seen (calls ++ calls') out := by
  have ends : ∀ {calls' : List Call} {out : Outcome cfg L}, out.IsOver →
      calls'.flatMap (·.clientIn) = [] →
      (∀ ss : List Bytes, calls'.foldl streamStep ss = ss) →
      Served start seen (calls ++ calls') out := fun hover hcl hst => by
    refine .ended hover hparses ?_ (.inr ⟨ms, m, _, List.take_prefix _ _,
      streams_append_of_still hs (hst _), rfl⟩)
    rw [clientIn_append hcl, List.append_nil, hin]
  cases h with
  | exchangeFault => exact ends trivial rfl fun _ => rfl
  | exchangeMalformedReply => exact ends trivial rfl fun _ => rfl
  | exchangeMalformedDelete => exact ends trivial rfl fun _ => rfl
  | exchangeEnd ho hstore hp hfin =>
    cases hrep with
    | exchange =>
      rcases hfin with hfin | hfin <;>
        exact absurd hend (by simp [Entry.endsEarly, ho, hp, hfin])
  | exchangeRead =>
    exact .sending hparses (hin.trans (clientIn_append rfl).symm)
      (streams_append_of_still hs rfl) hreq htmp
  | exchangeSend hne hw =>
    subst hreq
    refine .sending hparses (hin.trans (clientIn_append rfl).symm) ?_ rfl htmp
    rw [streams_append_of_noConnect ms hs (by simp), ← hw]
    simp [take_offset_append]
  | exchangeSwap hnil =>
    -- nothing is left after the cursor: the whole message has been written
    have hall : m.take b.request.offset = m := by
      rw [Filebuf.fetch, Filebuf.fileRead, List.take_eq_nil_iff] at hnil
      rcases hnil with h0 | hdrop
      · exact absurd h0 cfg.sockIoBufSize_pos.ne'
      · rw [hreq, List.drop_eq_nil_iff] at hdrop
        exact List.take_of_length_le hdrop
    rw [hall] at hs
    exact .sent hparses (hin.trans (clientIn_append rfl).symm) (streams_append_of_still hs rfl)
      (congrArg Filebuf.filled htmp) rfl
  | exchangeDeliver h =>
    cases h <;> exact .sending hparses (hin.trans (clientIn_append rfl).symm)
      (streams_append_of_still hs rfl) hreq htmp
  | monitorDrop => exact ends trivial (by split <;> rfl) fun _ => by split <;> rfl
  | monitorKeep | signalSlow =>
    exact .sending hparses (hin.trans (clientIn_append rfl).symm)
      (streams_append_of_still hs rfl) hreq htmp
  | monitorSwitch _ hfast | monitorFault _ hfast => exact absurd hfast Bool.false_ne_true
  | signalSwitch h | signalFault h => exact absurd h.isFast Bool.false_ne_true

theorem Session.Step.served_sent {n : Counts} {p : HttpParser L} {b : SlowBufs}
    {stale : Option (Circularbuf cfg.sockIoBufSize)} {cw : Bool} {cb : Callback} {io : Io}
    {calls calls' : List Call} {out : Outcome cfg L} {start : L.State} {seen : Bytes}
    {ms : List Bytes} (h : Step ⟨n, .exchange p b stale cw false⟩ cb io calls' out)
    (hparses : L.requests.Parses L.init start ms [] L.init)
    (hin : ms.flatten = seen ++ calls.flatMap (·.clientIn)) (hs : streams calls = ms)
    (hreq : b.request = .filled []) (htmp : b.tmp = []) :
    Served start seen (calls ++ calls') out := by
  have ends : ∀ {calls' : List Call} {out : Outcome cfg L}, out.IsOver →
      calls'.flatMap (·.clientIn) = [] →
      (∀ ss : List Bytes, calls'.foldl streamStep ss = ss) →
      Served start seen (calls ++ calls') out := fun hover hcl hst => by
    refine .ended hover hparses ?_ (.inl (streams_append_of_still hs (hst _)))
    rw [clientIn_append hcl, List.append_nil, hin]
  cases h with
  | exchangeFault => exact ends trivial rfl fun _ => rfl
  | exchangeMalformedReply => exact ends trivial rfl fun _ => rfl
  | exchangeMalformedDelete => exact ends trivial rfl fun _ => rfl
  | exchangeEnd =>
    -- the parser starts afresh, and so does `request_buf`
    have hin' : ms.flatten ++ [] = seen ++ calls.flatMap (·.clientIn) := by
      rw [List.append_nil, hin]
    exact .receiving ⟨rfl, hreq, htmp, hparses⟩ id (hin'.trans (clientIn_append rfl).symm)
      (streams_append_of_still hs rfl)
  | exchangeRead =>
    exact .sent hparses (hin.trans (clientIn_append rfl).symm) (streams_append_of_still hs rfl)
      hreq htmp
  | exchangeDeliver h =>
    cases h <;> exact .sent hparses (hin.trans (clientIn_append rfl).symm)
      (streams_append_of_still hs rfl) hreq htmp
  | monitorDrop => exact ends trivial (by split <;> rfl) fun _ => by split <;> rfl
  | monitorKeep | signalSlow =>
    exact .sent hparses (hin.trans (clientIn_append rfl).symm) (streams_append_of_still hs rfl)
      hreq htmp
  | monitorSwitch _ hfast | monitorFault _ hfast => exact absurd hfast Bool.false_ne_true
  | signalSwitch h | signalFault h => exact absurd h.isFast Bool.false_ne_true

/-- Once over, no byte is taken from the client or sent to a server. -/
theorem Session.Step.ended {s : Session cfg L} {cb : Callback} {io : Io} {calls : List Call}
    {out : Outcome cfg L} (h : Step s cb io calls out) (hover : (Outcome.live s).IsOver) :
    out.IsOver ∧ calls.flatMap (·.clientIn) = [] ∧
      ∀ ss : List Bytes, calls.foldl streamStep ss = ss := by
  cases h with
  | slowReplyDeliver h =>
    cases h with
    | some => exact ⟨trivial, rfl, fun _ => rfl⟩
  | slowReplyDone h =>
    cases h with
    | none => exact ⟨trivial, rfl, fun _ => rfl⟩
  | monitorDrop =>
    refine ⟨trivial, ?_, fun ss => ?_⟩
    · split <;> rfl
    · split <;> rfl
  | monitorKeep => exact ⟨hover, rfl, fun _ => rfl⟩
  | signalSlow => exact ⟨hover, rfl, fun _ => rfl⟩
  | monitorSwitch _ _ _ h | monitorFault _ _ _ h | signalSwitch h | signalFault h =>
    cases h <;> exact hover.elim
  | _ => exact hover.elim

/-- One step of slow mode outside the two slips. -/
theorem Served.step {s : Session cfg L} {c : Connection cfg L} {cb : Callback} {io : Io}
    {calls calls' : List Call} {out : Outcome cfg L} {start : L.State} {seen : Bytes}
    (hI : Served start seen calls (.live s)) (hstep : Step s cb io calls' out) (hrep : Rep s c)
    (hkept : (⟨c, cb, io, calls'⟩ : Entry cfg L).losesRequest = false)
    (hpipe : (⟨c, cb, io, calls'⟩ : Entry cfg L).pipelines = false)
    (hend : (⟨c, cb, io, calls'⟩ : Entry cfg L).endsEarly = false) :
    Served start seen (calls ++ calls') out := by
  cases hI with
  | receiving hr hlive hin hs => exact hstep.served_receiving hrep hkept hpipe hr hlive hin hs
  | sending hparses hin hs hreq htmp =>
    exact hstep.served_sending hrep hend hparses hin hs hreq htmp
  | sent hparses hin hs hreq htmp => exact hstep.served_sent hparses hin hs hreq htmp
  | ended hover hparses hin hs =>
    obtain ⟨hover', hcl, hst⟩ := hstep.ended hover
    refine .ended hover' hparses ?_ ?_
    · rwa [clientIn_append hcl]
    · rwa [streams_append_of_still rfl (hst _)]

/-! ### The whole of slow mode -/

/-- Slow mode from the switch on. -/
theorem Run.served {pre post : List (Entry cfg L)} {e : Entry cfg L} {st : Status cfg L}
    (h : Run (pre ++ e :: post) st) (hsw : e.switches = true)
    (hkept : ∀ x ∈ pre ++ e :: post, x.losesRequest = false)
    (hok : ∀ x ∈ post, x.pipelines = false ∧ x.endsEarly = false) :
    ∃ pr out, requestInProgress pre e = some pr ∧ out.Represents st ∧
      Served pr.start pr.seen (callsOf post) out := by
  rw [List.append_cons] at h hkept
  obtain ⟨st₁, hpre, hpost⟩ := h.split
  obtain ⟨pr, hpr, ⟨s, c, rfl, hrep, hrecv, hparser, -⟩ | ⟨f, rfl, -⟩⟩ := hpre.switched hsw
    (fun x hx => hkept x (List.mem_append_left _ hx))
  · -- only a reply-only connection is over, and that has no parser
    have hlive : ¬ (Outcome.live s).IsOver := by
      intro hover
      cases hrep with
      | slowReply => exact absurd hparser (by simp)
      | _ => exact hover
    have hrep' : (Outcome.live s).Represents (.live c) := hrep
    obtain ⟨out, hout, hI⟩ := hpost.invariant_of
      (P := fun x => x.losesRequest = false ∧ x.pipelines = false ∧ x.endsEarly = false)
      (I := fun tr out => Served pr.start pr.seen (callsOf tr) out) hrep'
      (.receiving hrecv hlive (by simp) rfl)
      (by
        rintro tr s c cb io calls out hI hrep hstep ⟨hkept, hpipe, hend⟩
        rw [callsOf_append, callsOf_singleton]
        exact hI.step hstep hrep hkept hpipe hend)
      (fun x hx => ⟨hkept x (List.mem_append_right _ hx), hok x hx⟩)
    exact ⟨pr, out, hpr, hout, hI⟩
  · -- a switch that takes the process down is the last event
    cases post with
    | nil =>
      obtain rfl := hpost.of_nil
      exact ⟨pr, .crashed f, hpr, rfl, .ended trivial (.rest rfl) List.nil_prefix (.inl rfl)⟩
    | cons x post => cases hpost.head

/-- What `Served` says about the messages, and about the buffers when the client is read. -/
theorem Served.spec {start : L.State} {seen : Bytes} {calls : List Call} {out : Outcome cfg L}
    (h : Served start seen calls out) :
    ∃ ms rest now, L.requests.Parses L.init start ms rest now ∧
      ms.flatten ++ rest <+: seen ++ calls.flatMap (·.clientIn) ∧ Delivered (streams calls) ms ∧
      ∀ c, out.Represents (.live c) → c.fastMode = false → c.client.readEvt = true →
        streams calls = ms ∧ ms.flatten ++ rest = seen ++ calls.flatMap (·.clientIn) ∧
        c.client.requestBuf = some (.filled rest) ∧ c.client.requestTmpBuf = some (.filled []) ∧
        ∃ p, c.parser = some p ∧ p.state = now := by
  cases h with
  | @receiving s ms rest hr hlive hin hs =>
    obtain ⟨n, ph⟩ := s
    cases ph with
    | transition =>
      refine ⟨ms, rest, _, hr.2.2.2.2, by rw [hin], .inl hs, fun c hrep _ hread => ?_⟩
      cases hrep with
      | transition => exact absurd hread Bool.false_ne_true
    | idle p b =>
      refine ⟨ms, rest, _, hr.2.2.2, by rw [hin], .inl hs, fun c hrep _ _ => ?_⟩
      cases hrep with
      | idle =>
        obtain ⟨hreq, htmp, -, -⟩ := Rep.requestBuf Rep.idle hr rfl
        exact ⟨hs, hin, hreq, htmp, p, rfl, rfl⟩
    | slowReply => exact absurd trivial hlive
    | _ => exact hr.elim
  -- while a request is being sent the client is not read
  | @sending _ _ _ _ _ ms m hparses hin hs =>
    refine ⟨_, [], _, hparses, by rw [List.append_nil, hin],
      .inr ⟨ms, m, _, List.take_prefix _ _, hs, rfl⟩, fun c hrep _ hread => ?_⟩
    cases hrep with
    | exchange => exact absurd hread Bool.false_ne_true
  | sent hparses hin hs =>
    refine ⟨_, [], _, hparses, by rw [List.append_nil, hin], .inl hs, fun c hrep _ hread => ?_⟩
    cases hrep with
    | exchange => exact absurd hread Bool.false_ne_true
  | ended hover hparses hin hs =>
    refine ⟨_, _, _, hparses, hin, hs, fun c hrep _ hread => ?_⟩
    obtain ⟨s, rfl, hrep⟩ := hrep.live
    cases hrep with
    | slowReply => exact absurd hread Bool.false_ne_true
    | _ => exact hover.elim

/-- **Exactly-once forwarding in slow mode.** Let the event `e` run `set_slow_mode`, and let no
read of slow mode get bytes past the end of the request it completes. Then what is written on the
`k`-th server connection opened in slow mode is a prefix of the `k`-th request, and when the client
is read the buffers hold nothing of the requests dispatched before, in every run that loses nothing
of the requests on the disk and in which no exchange ends while the server's writing event is still
pending. What is lost of the responses does not matter. -/
theorem exactly_once {pre post : List (Entry cfg L)} {e : Entry cfg L} {st : Status cfg L}
    (h : Run (pre ++ e :: post) st) (hsw : e.switches = true)
    (hpipe : ∀ x ∈ post, x.pipelines = false)
    (hkept : ∀ x ∈ pre ++ e :: post, x.losesRequest = false)
    (hend : ∀ x ∈ post, x.endsEarly = false) :
    ∃ pr ms rest now, requestInProgress pre e = some pr ∧
      L.requests.Parses L.init pr.start ms rest now ∧
      ms.flatten ++ rest <+: pr.seen ++ (callsOf post).flatMap (·.clientIn) ∧
      List.Forall₂ (· <+: ·) (streams (callsOf post)) ms ∧
      ∀ c, st = .live c → c.fastMode = false → c.client.readEvt = true →
        ms.flatten ++ rest = pr.seen ++ (callsOf post).flatMap (·.clientIn) ∧
        c.client.requestBuf = some (.filled rest) ∧ c.client.requestTmpBuf = some (.filled []) := by
  obtain ⟨pr, out, hpr, hrep, hI⟩ := h.served hsw hkept fun x hx => ⟨hpipe x hx, hend x hx⟩
  obtain ⟨ms, rest, now, hparses, hin, hs, hread⟩ := hI.spec
  refine ⟨pr, ms, rest, now, hpr, hparses, hin, hs.forall₂, ?_⟩
  rintro c rfl hfast hevt
  obtain ⟨-, hall, hreq, htmp, -⟩ := hread c hrep hfast hevt
  exact ⟨hall, hreq, htmp⟩

/-- Two requests, the first in two reads and sent in two pieces. -/
theorem exactly_once_two :
    ∃ (post : List (Entry .shipped .bodiless)) (e : Entry .shipped .bodiless)
      (st : Status .shipped .bodiless), Run (e :: post) st ∧ (streams (callsOf post)).length = 2 ∧
        ∃ pr ms rest now, requestInProgress [] e = some pr ∧
          Llhttp.bodiless.requests.Parses .start pr.start ms rest now ∧
          List.Forall₂ (· <+: ·) (streams (callsOf post)) ms := by
  obtain ⟨tr, st, hrun, hdisk, htr⟩ := exists_run_diskOk (L := .bodiless)
    [(.slowSwitch, {}),
      (.clientReadable, { clientReads := [.data (ascii "GET / HT")] }),
      (.clientReadable, { clientReads := [.data (ascii "TP/1.1\r\n\r\n")] }),
      (.serverWritable, { serverWrites := [.wrote 4] }),
      (.serverWritable, { serverWrites := [.wrote 20] }),
      (.serverWritable, {}),
      (.serverReadable false,
        { serverReads := [.data (ascii "HTTP/1.1 204 No Content\r\n\r\n")] }),
      (.clientReadable, { clientReads := [.data (ascii "GET /b HTTP/1.1\r\n\r\n")] }),
      (.serverWritable, { serverWrites := [.wrote 2] })]
    (fun (tr : List (Entry .shipped _)) _ =>
      match tr with
      | e :: post => e.switches && post.all (fun x => !x.pipelines && !x.endsEarly) &&
          (streams (callsOf post)).length == 2
      | [] => false)
    (by decide +kernel) (by simp [Io.DiskOk])
  split at htr
  · next e post =>
    simp only [Bool.and_eq_true, List.all_eq_true, Bool.not_eq_true', beq_iff_eq] at htr
    obtain ⟨⟨hsw, hok⟩, hlen⟩ := htr
    obtain ⟨pr, ms, rest, now, hpr, hparses, -, hs, -⟩ := @exactly_once _ _ [] post e st hrun hsw
      (fun x hx => (hok x hx).1) (fun x hx => Entry.losesRequest_of_diskOk (hdisk x hx))
      (fun x hx => (hok x hx).2)
    exact ⟨post, e, st, hrun, hlen, pr, ms, rest, now, hpr, hparses, hs⟩
  · exact absurd htr (by simp)

/-- A request without a body ends with the line feed of an empty line. -/
theorem bodiless_completes (m : Bytes)
    (h : Llhttp.bodiless.requests.quiet .start m = some (.inside false 3)) :
    Llhttp.bodiless.requests.Completes .start (m ++ [10]) .start :=
  ⟨m, 10, .inside false 3, rfl, h, rfl⟩

/-- The first server answers before `send_request_slowly` finds that there is nothing left to send:
the second server is sent both requests. -/
theorem request_resent :
    ∃ (post : List (Entry .shipped .bodiless)) (e : Entry .shipped .bodiless)
      (st : Status .shipped .bodiless) (r₁ r₂ : Bytes), Run (e :: post) st ∧ e.switches = true ∧
        (∀ x ∈ post, x.pipelines = false) ∧ (∀ x ∈ e :: post, x.io.DiskOk) ∧
        requestInProgress [] e = some (.init .start) ∧
        Llhttp.bodiless.requests.Parses .start .start [r₁, r₂] [] .start ∧
        (callsOf post).flatMap (·.clientIn) = [r₁, r₂].flatten ∧
        ¬ List.Forall₂ (· <+: ·) (streams (callsOf post)) [r₁, r₂] := by
  obtain ⟨tr, st, hrun, hdisk, htr⟩ := exists_run_diskOk (L := .bodiless)
    [(.slowSwitch, {}),
      (.clientReadable, { clientReads := [.data (ascii "GET /a HTTP/1.1\r\n\r\n")] }),
      (.serverWritable, { serverWrites := [.wrote 20] }),
      (.serverReadable false,
        { serverReads := [.data (ascii "HTTP/1.1 204 No Content\r\n\r\n")] }),
      (.clientReadable, { clientReads := [.data (ascii "GET /b HTTP/1.1\r\n\r\n")] }),
      (.serverWritable, { serverWrites := [.wrote 40] })]
    (fun (tr : List (Entry .shipped _)) _ =>
      match tr with
      | e :: post => e.switches && e.conn.server.isNone && post.all (!·.pipelines) &&
          (callsOf post).flatMap (·.clientIn)
            == ascii "GET /a HTTP/1.1\r\n\r\nGET /b HTTP/1.1\r\n\r\n" &&
          streams (callsOf post) == [ascii "GET /a HTTP/1.1\r\n\r\n",
            ascii "GET /a HTTP/1.1\r\n\r\nGET /b HTTP/1.1\r\n\r\n"]
      | [] => false)
    (by decide +kernel) (by simp [Io.DiskOk])
  split at htr
  · next e post =>
    simp only [Bool.and_eq_true, List.all_eq_true, Bool.not_eq_true', beq_iff_eq,
      Option.isNone_iff_eq_none] at htr
    obtain ⟨⟨⟨⟨hsw, hserver⟩, hpipe⟩, hin⟩, hs⟩ := htr
    refine ⟨post, e, st, ascii "GET /a HTTP/1.1\r\n\r\n", ascii "GET /b HTTP/1.1\r\n\r\n", hrun,
      hsw, hpipe, hdisk, by simp [requestInProgress, hserver, Llhttp.bodiless],
      .cons (bodiless_completes (ascii "GET /a HTTP/1.1\r\n\r") rfl)
        (.cons (bodiless_completes (ascii "GET /b HTTP/1.1\r\n\r") rfl) (.rest rfl)), hin, ?_⟩
    rw [hs]
    simp only [List.forall₂_cons, List.forall₂_nil_right_iff, not_and]
    exact fun _ hpre => absurd hpre (by decide)
  · exact absurd htr (by simp)

/-- **Chunking independence of slow-mode requests.** Let the event `e` run `set_slow_mode`, and let
every exchange end only after `request_buf` has been drained and swapped. Then the messages of the
client's stream are dispatched one by one and in order, and when the client is read `request_buf`
holds what the parser has read since its last reset, which contains no complete request, in every
run that loses nothing of the requests on the disk and in which no read gets bytes past the end of
the request it completes. -/
theorem messages_dispatched {pre post : List (Entry cfg L)} {e : Entry cfg L} {st : Status cfg L}
    (h : Run (pre ++ e :: post) st) (hsw : e.switches = true)
    (hend : ∀ x ∈ post, x.endsEarly = false)
    (hkept : ∀ x ∈ pre ++ e :: post, x.losesRequest = false)
    (hpipe : ∀ x ∈ post, x.pipelines = false) :
    ∃ pr ms rest now, requestInProgress pre e = some pr ∧
      L.requests.Parses L.init pr.start ms rest now ∧
      ms.flatten ++ rest <+: pr.seen ++ (callsOf post).flatMap (·.clientIn) ∧
      Delivered (streams (callsOf post)) ms ∧
      ∀ c, st = .live c → c.fastMode = false → c.client.readEvt = true →
        streams (callsOf post) = ms ∧
        ms.flatten ++ rest = pr.seen ++ (callsOf post).flatMap (·.clientIn) ∧
        c.client.requestBuf = some (.filled rest) ∧
        ∃ p, c.parser = some p ∧
          L.requests.quiet (if ms.isEmpty then pr.start else L.init) rest = some p.state := by
  obtain ⟨pr, out, hpr, hrep, hI⟩ := h.served hsw hkept fun x hx => ⟨hpipe x hx, hend x hx⟩
  obtain ⟨ms, rest, now, hparses, hin, hs, hread⟩ := hI.spec
  refine ⟨pr, ms, rest, now, hpr, hparses, hin, hs, ?_⟩
  rintro c rfl hfast hevt
  obtain ⟨hstreams, hall, hreq, -, p, hp, rfl⟩ := hread c hrep hfast hevt
  exact ⟨hstreams, hall, hreq, p, hp, hparses.quiet_rest⟩

/-- The same run: the messages are on their streams. -/
theorem messages_dispatched_two :
    ∃ (post : List (Entry .shipped .bodiless)) (e : Entry .shipped .bodiless)
      (c : Connection .shipped .bodiless), Run (e :: post) (.live c) ∧
        c.client.readEvt = true ∧
        ∃ pr ms rest now, requestInProgress [] e = some pr ∧
          Llhttp.bodiless.requests.Parses .start pr.start ms rest now ∧
          streams (callsOf post) = ms ∧ ms.length = 2 ∧
          ms.flatten ++ rest = pr.seen ++ (callsOf post).flatMap (·.clientIn) := by
  obtain ⟨tr, st, hrun, hdisk, htr⟩ := exists_run_diskOk (L := .bodiless)
    [(.slowSwitch, {}),
      (.clientReadable, { clientReads := [.data (ascii "GET /a HTTP/1.1\r\n\r\n")] }),
      (.serverWritable, { serverWrites := [.wrote 20] }),
      (.serverWritable, {}),
      (.serverReadable false,
        { serverReads := [.data (ascii "HTTP/1.1 204 No Content\r\n\r\n")] }),
      (.clientReadable, { clientReads := [.data (ascii "GET /b HTTP/1.1\r\n\r\n")] }),
      (.serverWritable, { serverWrites := [.wrote 20] }),
      (.serverWritable, {}),
      (.serverReadable false,
        { serverReads := [.data (ascii "HTTP/1.1 204 No Content\r\n\r\n")] }),
      (.clientReadable, { clientReads := [.data (ascii "GET")] })]
    (fun (tr : List (Entry .shipped _)) st =>
      match tr with
      | e :: post => e.switches && post.all (fun x => !x.pipelines && !x.endsEarly) &&
          (streams (callsOf post)).length == 2 &&
          st.isLiveWith fun c => !c.fastMode && c.client.readEvt
      | [] => false)
    (by decide +kernel) (by simp [Io.DiskOk])
  split at htr
  · next e post =>
    simp only [Bool.and_eq_true, List.all_eq_true, Bool.not_eq_true', beq_iff_eq,
      Status.isLiveWith_iff] at htr
    obtain ⟨⟨⟨hsw, hok⟩, hlen⟩, c, rfl, hfast, hread⟩ := htr
    obtain ⟨pr, ms, rest, now, hpr, hparses, -, -, hidle⟩ :=
      @messages_dispatched _ _ [] post e _ hrun hsw (fun x hx => (hok x hx).2)
        (fun x hx => Entry.losesRequest_of_diskOk (hdisk x hx)) (fun x hx => (hok x hx).1)
    obtain ⟨rfl, hin, -⟩ := hidle c rfl hfast hread
    exact ⟨post, e, c, hrun, hread, pr, _, rest, now, hpr, hparses, rfl, hlen, hin⟩
  · exact absurd htr (by simp)

/-- Two requests arrive in one read. The second one is put aside, swapped back and never parsed:
it is sent together with the third, on one connection. -/
theorem request_swallowed :
    ∃ (post : List (Entry .shipped .bodiless)) (e : Entry .shipped .bodiless)
      (st : Status .shipped .bodiless) (r₁ r₂ r₃ : Bytes), Run (e :: post) st ∧
        e.switches = true ∧ (∀ x ∈ post, x.endsEarly = false) ∧ (∀ x ∈ e :: post, x.io.DiskOk) ∧
        requestInProgress [] e = some (.init .start) ∧
        Llhttp.bodiless.requests.Parses .start .start [r₁, r₂, r₃] [] .start ∧
        (callsOf post).flatMap (·.clientIn) = [r₁, r₂, r₃].flatten ∧
        streams (callsOf post) = [r₁, r₂ ++ r₃] ∧
        ¬ Delivered (streams (callsOf post)) [r₁, r₂, r₃] := by
  obtain ⟨tr, st, hrun, hdisk, htr⟩ := exists_run_diskOk (L := .bodiless)
    [(.slowSwitch, {}),
      (.clientReadable,
        { clientReads := [.data (ascii "GET /a HTTP/1.1\r\n\r\nGET /b HTTP/1.1\r\n\r\n")] }),
      (.serverWritable, { serverWrites := [.wrote 20] }),
      (.serverWritable, {}),
      (.serverReadable false,
        { serverReads := [.data (ascii "HTTP/1.1 204 No Content\r\n\r\n")] }),
      (.clientReadable, { clientReads := [.data (ascii "GET /c HTTP/1.1\r\n\r\n")] }),
      (.serverWritable, { serverWrites := [.wrote 40] })]
    (fun (tr : List (Entry .shipped _)) _ =>
      match tr with
      | e :: post => e.switches && e.conn.server.isNone && post.all (!·.endsEarly) &&
          (callsOf post).flatMap (·.clientIn) == [ascii "GET /a HTTP/1.1\r\n\r\n",
            ascii "GET /b HTTP/1.1\r\n\r\n", ascii "GET /c HTTP/1.1\r\n\r\n"].flatten &&
          streams (callsOf post) == [ascii "GET /a HTTP/1.1\r\n\r\n",
            ascii "GET /b HTTP/1.1\r\n\r\n" ++ ascii "GET /c HTTP/1.1\r\n\r\n"]
      | [] => false)
    (by decide +kernel) (by simp [Io.DiskOk])
  split at htr
  · next e post =>
    simp only [Bool.and_eq_true, List.all_eq_true, Bool.not_eq_true', beq_iff_eq,
      Option.isNone_iff_eq_none] at htr
    obtain ⟨⟨⟨⟨hsw, hserver⟩, hend⟩, hin⟩, hs⟩ := htr
    refine ⟨post, e, st, _, _, _, hrun, hsw, hend, hdisk,
      by simp [requestInProgress, hserver, Llhttp.bodiless],
      .cons (bodiless_completes (ascii "GET /a HTTP/1.1\r\n\r") rfl)
        (.cons (bodiless_completes (ascii "GET /b HTTP/1.1\r\n\r") rfl)
          (.cons (bodiless_completes (ascii "GET /c HTTP/1.1\r\n\r") rfl) (.rest rfl))),
      hin, hs, fun hd => ?_⟩
    -- one connection for each message
    have hlen := hd.forall₂.length_eq
    rw [hs] at hlen
    exact absurd hlen (by simp)
  · exact absurd htr (by simp)

end LSProxy
