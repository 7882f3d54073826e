import LSProxy.Session.Runs

/-!
# Draining a buffered request

A request that has been dispatched is sent by `Server::send_request_slowly`, a chunk at each call.
What the socket does not take of a chunk is given back by moving the one cursor of `request_buf`
back over it. The call that finds nothing left swaps `request_buf` with `request_tmp_buf`, whose
cursor has to be where the next request is to be stored.

* `Drain` — calls of `send_request_slowly`, none of which has been the last; between two of them
  the other callbacks of the connection may do as they like with everything else;
* `Swapped` — what the last call leaves;
* `request_drained` — the content is sent once and in order, and the last call leaves the buffers
  swapped;
* `Run.dispatched` — where a run dispatches a request, the cursors are where this starts from.
-/

namespace LSProxy

open Session

variable {cfg : Config} {L : Llhttp}

/-- The bytes ahead of the cursor. -/
def Filebuf.unread (f : Filebuf) : Bytes := f.content.drop f.offset

theorem Filebuf.fetch_eq (f : Filebuf) (maxSize : ℕ) :
    (f.fetch maxSize).2 = f.unread.take maxSize :=
  rfl

/-- Moving the cursor on. -/
theorem Filebuf.unread_advance (f : Filebuf) (n : ℕ) :
    ({ f with offset := f.offset + n } : Filebuf).unread = f.unread.drop n :=
  List.drop_drop.symm

/-! ### One call -/

/-- `server->send_request_slowly(fd)`. -/
def Connection.sendRequest (c : Connection cfg L) (io : Io)
    (globalBuffer : Scratch cfg.sockIoBufSize) (pool : List (Hist cfg)) : Effect cfg L :=
  .of ((Server.sendRequestSlowly io).run ⟨globalBuffer, pool, c, []⟩)

section Call

variable {c : Connection cfg L} {r t : Filebuf} {s : Server cfg}

/-- As long as there is something to send, a call moves the cursor past what the socket takes. -/
theorem Connection.sendRequest_more (hreq : c.client.requestBuf = some r)
    (hne : (r.fetch cfg.sockIoBufSize).2 ≠ []) (io : Io) (g : Scratch cfg.sockIoBufSize)
    (pool : List (Hist cfg)) {o : WriteOutcome}
    (ho : writeAll io.serverWrites (r.fetch cfg.sockIoBufSize).2 = o) :
    (c.sendRequest io g pool).calls = [.serverWrite o.data] ∧
      (c.sendRequest io g pool).status = .live { c with client :=
        { c.client with requestBuf := some { r with offset := r.offset + o.data.length } } } := by
  obtain ⟨g', hrun⟩ := run_sendRequestSlowly_more hreq hne ho g pool []
  unfold Connection.sendRequest
  rw [hrun]
  exact ⟨rfl, rfl⟩

/-- The call that finds nothing swaps the buffers. -/
theorem Connection.sendRequest_last (hreq : c.client.requestBuf = some r)
    (htmp : c.client.requestTmpBuf = some t) (hserver : c.server = some s)
    (hnil : (r.fetch cfg.sockIoBufSize).2 = []) (io : Io) (g : Scratch cfg.sockIoBufSize)
    (pool : List (Hist cfg)) :
    (c.sendRequest io g pool).calls = [] ∧
      (c.sendRequest io g pool).status = .live { c with
        client := { c.client with requestBuf := some t, requestTmpBuf := some r.clear }
        server := some s.stopWriting } := by
  obtain ⟨g', hrun⟩ := run_sendRequestSlowly_last hreq htmp hserver hnil g pool [] io
  unfold Connection.sendRequest
  rw [hrun]
  exact ⟨rfl, rfl⟩

end Call

/-! ### Calls one after another -/

/-- Calls of `send_request_slowly` from `c₀` on, each of which has found something to send: what
they have done on the sockets, and the connection they lead to. Between two calls anything may
become of the connection, as long as it keeps its server and the two buffers are left alone. -/
inductive Drain (c₀ : Connection cfg L) : List Call → Connection cfg L → Prop
  | start : Drain c₀ [] c₀
  | between {calls : List Call} {c c' : Connection cfg L} (h : Drain c₀ calls c)
      (hreq : c'.client.requestBuf = c.client.requestBuf)
      (htmp : c'.client.requestTmpBuf = c.client.requestTmpBuf)
      (hserver : c'.server.isSome) : Drain c₀ calls c'
  | send {calls : List Call} {c c' : Connection cfg L} {r : Filebuf} {io : Io}
      {globalBuffer : Scratch cfg.sockIoBufSize} {pool : List (Hist cfg)} (h : Drain c₀ calls c)
      (hreq : c.client.requestBuf = some r) (hne : (r.fetch cfg.sockIoBufSize).2 ≠ [])
      (hlive : (c.sendRequest io globalBuffer pool).status = .live c') :
      Drain c₀ (calls ++ (c.sendRequest io globalBuffer pool).calls) c'

/-- What the last call leaves: the next request is stored behind what `request_tmp_buf` held, and
`request_tmp_buf` is empty. -/
structure Swapped (t : Filebuf) (c : Connection cfg L) : Prop where
  request : c.client.requestBuf = some t
  appends : ∀ results data n, written results data.length = some n → ∃ t',
    t.store results data = .ok t' ∧ t'.content = t.content ++ data.take n ∧
      t'.offset = t'.content.length
  tmp : c.client.requestTmpBuf = some { content := [], offset := 0, dataSize := 0 }
  writeEvt : c.server.map (·.writeEvt) = some false

section Drain

variable {c₀ c c' : Connection cfg L} {calls : List Call} {r t : Filebuf} {s : Server cfg}

/-- **What has been sent and what lies ahead of the cursor make up the content.** -/
theorem Drain.invariant (h : Drain c₀ calls c) (hreq : c₀.client.requestBuf = some r)
    (hhead : r.offset = 0) (htmp : c₀.client.requestTmpBuf = some t) (hserver : c₀.server.isSome) :
    (∃ r', c.client.requestBuf = some r' ∧ r.content = calls.flatMap (·.serverOut) ++ r'.unread) ∧
      c.client.requestTmpBuf = some t ∧ c.server.isSome := by
  induction h with
  | start =>
    refine ⟨⟨r, hreq, ?_⟩, htmp, hserver⟩
    rw [Filebuf.unread, hhead]
    rfl
  -- the other callbacks leave both buffers alone
  | between _ hreq' htmp' hserver' ih =>
    obtain ⟨⟨r', hr', hsent⟩, ht', -⟩ := ih
    exact ⟨⟨r', hreq'.trans hr', hsent⟩, htmp'.trans ht', hserver'⟩
  | @send calls c c' r₁ io g pool _ hr₁ hne hlive ih =>
    obtain ⟨⟨r', hr', hsent⟩, ht', hserver'⟩ := ih
    obtain rfl := Option.some.inj (hr₁.symm.trans hr')
    obtain ⟨hcalls, hstatus⟩ := Connection.sendRequest_more hr₁ hne io g pool rfl
    obtain rfl := Status.live.inj (hstatus.symm.trans hlive)
    -- what the socket does not take is given back: the cursor moves by what was written
    obtain ⟨rest, hrest⟩ : (writeAll io.serverWrites (r₁.fetch cfg.sockIoBufSize).2).data <+:
        r₁.unread := (writeAll_isPrefix _ _).trans (List.take_prefix _ _)
    refine ⟨⟨_, rfl, ?_⟩, ht', hserver'⟩
    rw [hcalls, Filebuf.unread_advance, hsent, ← hrest, List.drop_left, List.flatMap_append,
      List.append_assoc]
    simp

/-- A cursor at the end of the file is where stores append. -/
theorem Filebuf.store_at_end (hend : t.offset = t.content.length) {results : List WriteResult}
    {data : Bytes} {n : ℕ} (hn : written results data.length = some n) :
    ∃ t', t.store results data = .ok t' ∧ t'.content = t.content ++ data.take n ∧
      t'.offset = t'.content.length := by
  have hle := written_le hn
  unfold Filebuf.store Filebuf.fileWrite
  rw [hn]
  refine ⟨_, rfl, ?_, ?_⟩
  · -- nothing lies past the cursor that would be overwritten
    show Segment.overwrite t.content t.offset (data.take n) = _
    rw [hend, Segment.overwrite_length]
  · show t.offset + n = (Segment.overwrite t.content t.offset (data.take n)).length
    rw [hend, Segment.overwrite_length, List.length_append, List.length_take_of_le hle]

end Drain

/-- **A buffered request is sent once and in order.** Whatever `request_buf`, read from its head,
and `request_tmp_buf`, stood at its end, contain, and however little of each chunk the socket
takes: what has been sent is a prefix of the content of `request_buf`, no call fails, and with the
call that finds nothing left all of it has been sent, the next request is stored behind what
`request_tmp_buf` held, and the writing event is off. -/
theorem request_drained {c₀ c : Connection cfg L} {calls : List Call} {r t : Filebuf}
    (hreq : c₀.client.requestBuf = some r) (hhead : r.offset = 0)
    (htmp : c₀.client.requestTmpBuf = some t) (hend : t.offset = t.content.length)
    (hserver : c₀.server.isSome) (h : Drain c₀ calls c) :
    calls.flatMap (·.serverOut) <+: r.content ∧
    ∀ io globalBuffer pool, ∃ c', (c.sendRequest io globalBuffer pool).status = .live c' ∧
      ∀ r', c.client.requestBuf = some r' → (r'.fetch cfg.sockIoBufSize).2 = [] →
        (calls ++ (c.sendRequest io globalBuffer pool).calls).flatMap (·.serverOut) = r.content ∧
          Swapped t c' := by
  obtain ⟨⟨r₁, hr₁, hsent⟩, ht₁, hs₁⟩ := h.invariant hreq hhead htmp hserver
  refine ⟨⟨_, hsent.symm⟩, fun io g pool => ?_⟩
  -- only the call that fetches nothing is the last
  by_cases hnil : (r₁.fetch cfg.sockIoBufSize).2 = []
  · obtain ⟨s, hs⟩ := Option.isSome_iff_exists.mp hs₁
    obtain ⟨hcalls, hstatus⟩ := Connection.sendRequest_last hr₁ ht₁ hs hnil io g pool
    refine ⟨_, hstatus, fun r' hr' _ => ⟨?_, rfl, ?_, rfl, rfl⟩⟩
    · -- nothing is ahead of the cursor
      have hunread : r₁.unread = [] := by
        rw [Filebuf.fetch_eq, List.take_eq_nil_iff] at hnil
        exact hnil.resolve_left cfg.sockIoBufSize_pos.ne'
      rw [hcalls, List.append_nil, hsent, hunread, List.append_nil]
    · exact fun results data n hn => Filebuf.store_at_end hend hn
  · -- there is something to send, so this call is not the last
    obtain ⟨-, hstatus⟩ := Connection.sendRequest_more hr₁ hnil io g pool rfl
    refine ⟨_, hstatus, fun r' hr' hnil' => ?_⟩
    rw [Option.some.inj (hr₁.symm.trans hr')] at hnil
    exact absurd hnil' hnil

/-- A connection that sends three bytes, with one byte of the next request in
`request_tmp_buf`. -/
def Connection.sendingAt (offset : ℕ) : Connection .shipped .bodiless :=
  { client :=
      { requestBuf := some ⟨[1, 2, 3], offset, 3⟩
        requestTmpBuf := some (.filled [7])
        readCount := 0
        writeCount := 0
        requestHistory := none }
    server := some { writeEvt := true } }

/-- The socket takes two bytes at the first call and one at the second. -/
theorem request_drained_swapped : ∃ (c' : Connection .shipped .bodiless) (calls : List Call),
    Drain (.sendingAt 0) calls (.sendingAt 3) ∧ calls.flatMap (·.serverOut) = [1, 2, 3] ∧
      Swapped (.filled [7]) c' := by
  have hne : ∀ k < 3, ((Filebuf.mk [1, 2, 3] k 3).fetch Config.shipped.sockIoBufSize).2 ≠ [] := by
    decide
  let g : Scratch Config.shipped.sockIoBufSize := .zero _
  obtain ⟨hcalls₁, hlive₁⟩ := Connection.sendRequest_more (c := .sendingAt 0) rfl
    (hne 0 (by decide)) { serverWrites := [.wrote 1] } g [] rfl
  obtain ⟨hcalls₂, hlive₂⟩ := Connection.sendRequest_more (c := .sendingAt 2) rfl
    (hne 2 (by decide)) { serverWrites := [.wrote 0] } g [] rfl
  have hdrain₁ : Drain (.sendingAt 0) _ (.sendingAt 2) :=
    Drain.start.send rfl (hne 0 (by decide)) hlive₁
  have hdrain₂ : Drain (.sendingAt 0) _ (.sendingAt 3) :=
    hdrain₁.send rfl (hne 2 (by decide)) hlive₂
  obtain ⟨-, hnext⟩ := request_drained rfl rfl rfl rfl rfl hdrain₂
  obtain ⟨c', -, hlast⟩ := hnext {} g []
  obtain ⟨-, hswapped⟩ := hlast _ rfl rfl
  rw [hcalls₁, hcalls₂] at hdrain₂
  exact ⟨c', _, hdrain₂, rfl, hswapped⟩

/-! ### Runs -/

/-- A server that appears in slow mode appears with a request to be sent from its head. -/
theorem Session.Step.dispatched {s s' : Session cfg L} {cb : Callback} {io : Io} {calls : List Call}
    {c' : Connection cfg L} (h : Step s cb io calls (.live s')) (hrep' : Rep s' c')
    (hslow : s.phase.isFast = false) (hnone : s.phase.hasServer = false)
    (hserver : s'.phase.hasServer = true) :
    (∃ r, c'.client.requestBuf = some r ∧ r.offset = 0) ∧
      ∃ t, c'.client.requestTmpBuf = some t ∧ t.offset = t.content.length := by
  cases h with
  -- the one step of slow mode that makes a server has just rewound the request
  | idleDispatch _ _ _ _ h =>
    cases h
    cases hrep'
    exact ⟨⟨_, rfl, rfl⟩, _, rfl, rfl⟩
  | monitorSwitch _ hfast => exact absurd (hfast.symm.trans hslow) (by simp)
  | signalSwitch h => exact absurd (h.isFast.symm.trans hslow) (by simp)
  -- a server is kept, not made
  | monitorKeep | signalSlow => exact absurd (hnone.symm.trans hserver) (by simp)
  | freshConnect | fastClientReadable | fastServerReadable => cases hslow
  | _ => first
    | exact (Bool.false_ne_true hserver).elim
    | exact (Bool.false_ne_true hnone.symm).elim

/-- **A run starts to send a request** with the cursor of `request_buf` at the head and that of
`request_tmp_buf` at the end. -/
theorem Run.dispatched {tr : List (Entry cfg L)} {e : Entry cfg L} {c : Connection cfg L}
    (h : Run (tr ++ [e]) (.live c)) (hslow : e.conn.fastMode = false)
    (hnone : e.conn.server = none) (hserver : c.server.isSome = true) :
    (∃ r, c.client.requestBuf = some r ∧ r.offset = 0) ∧
      ∃ t, c.client.requestTmpBuf = some t ∧ t.offset = t.content.length := by
  obtain ⟨pool, id, h⟩ := h
  obtain ⟨st₁, hpre, he⟩ := h.split
  obtain ⟨out₁, hrep₁, -⟩ := hpre.invariant (I := fun _ _ => True) (represents_acceptNew pool id)
    trivial (fun _ _ _ => trivial)
  obtain ⟨s, out, rfl, hrep, hstep, hout⟩ := he.step hrep₁
  obtain ⟨s', rfl, hrep'⟩ := hout.live
  refine hstep.dispatched hrep' (hrep.fastMode.symm.trans hslow) ?_
    (hrep'.hasServer.symm.trans hserver)
  rw [← hrep.hasServer, hnone]
  rfl

end LSProxy
