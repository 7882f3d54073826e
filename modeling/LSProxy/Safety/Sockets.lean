import LSProxy.Session.Lifecycle
import LSProxy.Safety.Admission

/-!
# What is done on the sockets, and in which order

The calls of a connection follow a protocol (`Sockets.after`): a server is connected to only where
there is none, it is read and written only while it is there, the error page is sent only where
there is none and only the closing of the client follows it, and nothing follows that.

* `socket_protocol` — every run of a connection follows it, and ends where the connection is;
* `active_count` — `Server::active_count`, an `unsigned` that goes up in `Server::Server` and down
  in `Server::~Server`, is in every execution of the process the number of servers there are.
-/

namespace LSProxy

open Session

variable {cfg : Config} {L : Llhttp}

/-! ### The protocol -/

/-- The sockets of a connection: that of the client alone, or with that of a server; that of a
client that has been sent the error page; none. -/
inductive Sockets
  | client
  | both
  | refused
  | closed
  deriving DecidableEq, Repr

/-- What a call leaves of the sockets; `none` where it is out of place. -/
def Sockets.after : Sockets → Call → Option Sockets
  | .client, .clientRead _ | .client, .clientWrite _ => some .client
  | .client, .connect => some .both
  | .client, .page503 _ => some .refused
  | .client, .closeClient => some .closed
  | .both, .clientRead _ | .both, .clientWrite _ => some .both
  | .both, .serverRead _ | .both, .serverWrite _ => some .both
  | .both, .closeServer => some .client
  | .refused, .closeClient => some .closed
  | _, _ => none

/-- The sockets a session has. -/
def Phase.sockets (ph : Phase cfg L) : Sockets := if ph.hasServer then .both else .client

/-- The sockets are those of a session, or none when it has been deleted. -/
def Outcome.HasSockets (k : Sockets) : Outcome cfg L → Prop
  | .live s => k = s.phase.sockets
  | .deleted => k = .closed
  | .crashed _ => True

/-- The sockets are those of a connection, or none when it has been deleted. -/
def Status.HasSockets (k : Sockets) : Status cfg L → Prop
  | .live c => k = if c.server.isSome then .both else .client
  | .deleted => k = .closed
  | .crashed _ => True

theorem Outcome.Represents.hasSockets {out : Outcome cfg L} {st : Status cfg L} {k : Sockets}
    (h : out.Represents st) (hk : out.HasSockets k) : st.HasSockets k := by
  cases st with
  | live c =>
    obtain ⟨s, rfl, hrep⟩ := h.live
    show k = if c.server.isSome then .both else .client
    rw [hrep.hasServer]
    exact hk
  | deleted =>
    cases out with
    | deleted => exact hk
    | live s => exact h.elim
    | crashed f => exact h.elim
  | crashed f => trivial

namespace Session

theorem FastForwardToServer.sockets {n : Counts} {p : HttpParser L} {hist : Bytes}
    {cq sq : Circularbuf cfg.sockIoBufSize} {cw : Bool} {io : Io} {calls : List Call}
    {out : Outcome cfg L} (h : FastForwardToServer n p hist cq sq cw io calls out) :
    ∃ k, calls.foldlM Sockets.after .both = some k ∧ out.HasSockets k := by
  cases h <;> exact ⟨_, rfl, by trivial⟩

theorem FastForwardToClient.sockets {n : Counts} {p : HttpParser L} {hist : Bytes}
    {cq sq : Circularbuf cfg.sockIoBufSize} {sw : Bool} {io : Io} {calls : List Call}
    {out : Outcome cfg L} (h : FastForwardToClient n p hist cq sq sw io calls out) :
    ∃ k, calls.foldlM Sockets.after .both = some k ∧ out.HasSockets k := by
  cases h <;> exact ⟨_, rfl, by trivial⟩

theorem Dispatch.sockets {n : Counts} {p : HttpParser L} {k : ℕ} {data : Bytes} {b : SlowBufs}
    {stale : Option (Circularbuf cfg.sockIoBufSize)} {cw : Bool} {io : Io} {calls : List Call}
    {out : Outcome cfg L} (h : Dispatch n p k data b stale cw io calls out) :
    ∃ k, calls.foldlM Sockets.after .client = some k ∧ out.HasSockets k := by
  cases h <;> exact ⟨_, rfl, by trivial⟩

/-- The client is written to, with a server or without. -/
theorem Deliver.sockets {b b' : SlowBufs} {io : Io} {calls : List Call} {cw : Bool}
    (h : Deliver cfg b io calls b' cw) (ph : Phase cfg L) :
    calls.foldlM Sockets.after ph.sockets = Option.some ph.sockets := by
  unfold Phase.sockets
  cases h <;> cases ph.hasServer <;> rfl

/-- **Every step follows the protocol.** -/
theorem Step.sockets {s : Session cfg L} {cb : Callback} {io : Io} {calls : List Call}
    {out : Outcome cfg L} (h : Step s cb io calls out) :
    ∃ k, calls.foldlM Sockets.after s.phase.sockets = some k ∧ out.HasSockets k := by
  cases h with
  | freshConnect _ h => exact h.sockets
  | fastClientReadable h => exact h.sockets
  | fastServerReadable h => exact h.sockets
  | idleDispatch _ _ _ _ h => exact h.sockets
  | transitionDeliver h | idleDeliver h | exchangeDeliver h | slowReplyDeliver h =>
    exact ⟨_, h.sockets _, rfl⟩
  | slowReplyDone h =>
    cases h
    exact ⟨_, rfl, rfl⟩
  | @monitorDrop n ph =>
    refine ⟨.closed, ?_, rfl⟩
    show List.foldlM Sockets.after ph.sockets
      ((if ph.hasServer then [.closeServer] else []) ++ [.closeClient]) = _
    unfold Phase.sockets
    cases ph.hasServer <;> rfl
  | monitorSwitch _ _ _ h | signalSwitch h =>
    refine ⟨_, rfl, ?_⟩
    show Phase.sockets _ = Phase.sockets _
    rw [Phase.sockets, Phase.sockets, h.switched.1]
  | _ => exact ⟨_, rfl, by trivial⟩

end Session

/-- **The protocol of the sockets.** In every run of a connection a server is connected to only
where there is none, read and written only while it is there and closed once; the error page is
sent only where there is no server, and only closing the client follows; the client is closed last,
just when the connection is deleted. -/
theorem socket_protocol {tr : List (Entry cfg L)} {st : Status cfg L} (h : Run tr st) :
    ∃ k, (callsOf tr).foldlM Sockets.after .client = some k ∧ st.HasSockets k := by
  obtain ⟨out, hrep, k, hk, hout⟩ := h.invariant
    (I := fun tr out => ∃ k, (callsOf tr).foldlM Sockets.after .client = some k ∧
      out.HasSockets k)
    ⟨.client, rfl, rfl⟩
    (by
      rintro tr s c cb io calls out ⟨k, hk, hs⟩ - hstep
      obtain rfl : k = s.phase.sockets := hs
      obtain ⟨k', hk', hout⟩ := hstep.sockets
      refine ⟨k', ?_, hout⟩
      rw [callsOf_append, callsOf_singleton, List.foldlM_append, hk]
      exact hk')
  exact ⟨k, hk, hrep.hasSockets hout⟩

/-- A request that is answered in slow mode, and the client leaving. -/
theorem socket_protocol_served :
    ∃ (tr : List (Entry .shipped .bodiless)) (st : Status .shipped .bodiless), Run tr st ∧
      (callsOf tr).contains .closeServer = true ∧
      (callsOf tr).foldlM Sockets.after .client = some .closed := by
  obtain ⟨tr, st, hrun, htr⟩ := exists_run (L := .bodiless)
    [(.slowSwitch, {}),
      (.clientReadable, { clientReads := [.data (ascii "GET / HTTP/1.1\r\n\r\n")] }),
      (.serverWritable, { serverWrites := [.wrote 17] }),
      (.serverReadable false, { serverReads := [.data (ascii "HTTP/1.1 204\r\n\r\n")] }),
      (.clientWritable, { clientWrites := [.wrote 15] }),
      (.clientReadable, { clientReads := [.data []] })]
    (fun (tr : List (Entry .shipped _)) st =>
      st.isDeleted && (callsOf tr).contains .closeServer)
    (by decide +kernel)
  rw [Bool.and_eq_true, Status.isDeleted_iff] at htr
  obtain ⟨rfl, hclosed⟩ := htr
  obtain ⟨k, hk, rfl⟩ := socket_protocol hrun
  exact ⟨tr, _, hrun, hclosed, hk⟩

/-! ### Servers of the process -/

/-- What a call does to `Server::active_count`, an `unsigned`. -/
def Call.countServers (n : UInt32) : Call → UInt32
  | .connect => n + 1
  | .closeServer => n - 1
  | _ => n

/-- `Server::active_count` after a log. -/
def activeCount (log : List Proxy.LogEntry) : UInt32 :=
  (log.flatMap (·.calls)).foldl Call.countServers 0

/-- What a connection with a server, or without, adds to the count. -/
def serverBit (serving : Bool) : UInt32 := if serving then 1 else 0

/-- The calls of a callback count the server of its connection. -/
theorem Lifecycle.countServers {serving : Bool} {calls : List Call} {left : Option Bool}
    (h : Lifecycle serving calls left) (n : UInt32) :
    calls.foldl Call.countServers (n + serverBit serving) = n + serverBit (left.getD false) := by
  induction h with
  | done | closeClient => rfl
  | connect _ ih =>
    rw [← ih, List.foldl_cons]
    simp [Call.countServers, serverBit]
  | refused _ ih =>
    rw [← ih, List.foldl_cons]
    rfl
  | closeServer _ ih =>
    rw [← ih, List.foldl_cons]
    simp [Call.countServers, serverBit]
  | @transfer c _ _ _ hc _ ih =>
    rw [← ih, List.foldl_cons]
    cases c <;> first | rfl | cases hc

namespace Proxy

/-- Connection `b` is live and has a server. -/
def serves (px : Proxy cfg L) (b : ℕ) : Bool := (px.conns b).any (·.server.isSome)

/-- The connections that have one. -/
def servers (px : Proxy cfg L) : Finset ℕ :=
  (Finset.range px.accepted).filter fun b => px.serves b = true

section Servers

variable {px px' : Proxy cfg L} {io : Io}

theorem Named.mem_servers (h : px.Named) {b : ℕ} : b ∈ px.servers ↔ px.serves b = true := by
  rw [servers, Finset.mem_filter, Finset.mem_range]
  refine ⟨fun hb => hb.2, fun hb => ⟨?_, hb⟩⟩
  obtain ⟨c, hc, -⟩ := (Option.any_eq_true _ _).mp hb
  exact h b c hc

/-- The number of servers, with that of connection `b` apart. -/
theorem Named.card_servers (h : px.Named) (b : ℕ) :
    UInt32.ofNat px.servers.card =
      UInt32.ofNat (px.servers.erase b).card + serverBit (px.serves b) := by
  by_cases hb : px.serves b = true
  · rw [hb, ← Finset.card_erase_add_one (h.mem_servers.mpr hb), UInt32.ofNat_add]
    rfl
  · rw [Finset.erase_eq_of_notMem (mt h.mem_servers.mp hb), Bool.eq_false_iff.mpr hb]
    simp [serverBit]

/-- Every server is that of a live connection. -/
theorem Named.servers_subset (h : px.Named) : px.servers ⊆ px.members := by
  intro b hb
  obtain ⟨c, hc, -⟩ := (Option.any_eq_true _ _).mp (h.mem_servers.mp hb)
  rw [h.mem_members, hc]
  rfl

theorem activeCount_concat (log : List LogEntry) (e : LogEntry) :
    activeCount (log ++ [e]) = e.calls.foldl Call.countServers (activeCount log) := by
  simp [activeCount]

/-- Accepting a socket neither creates nor destroys a server. -/
theorem Counted.servers_acceptNew (h : px.Counted) (h' : (px.acceptNew io).2.Counted) :
    (px.acceptNew io).2.servers = px.servers ∧
      ∀ n, (px.acceptNew io).1.foldl Call.countServers n = n := by
  have hsame : ∀ b, (px.acceptNew io).2.serves b = px.serves b := by
    intro b
    unfold serves Proxy.acceptNew
    split
    · rfl
    · dsimp only
      by_cases hb : b = px.accepted
      · -- the newcomer has no server, and its number was nobody's
        have hnone : px.conns px.accepted = none := by
          rw [← Option.not_isSome_iff_eq_none, ← h.named.mem_members]
          exact h.named.accepted_notMem
        rw [hb, Function.update_self, hnone]
        cases px.pool <;> rfl
      · rw [Function.update_of_ne hb]
  constructor
  · ext b
    rw [h'.named.mem_servers, h.named.mem_servers, hsame]
  · intro n
    unfold Proxy.acceptNew
    split <;> rfl

/-- An event of connection `b` counts the server of that connection. -/
theorem Counted.servers_fire (h : px.Counted) (h' : px'.Counted) {b : ℕ} {c : Connection cfg L}
    {cb : Callback} (hc : px.conns b = some c) (hen : c.enabled cb = true)
    (hr : px.settle b (c.fire cb io px.globalBuffer px.pool) = .ok px') :
    (c.fire cb io px.globalBuffer px.pool).calls.foldl Call.countServers
      (UInt32.ofNat px.servers.card) = UInt32.ofNat px'.servers.card := by
  obtain ⟨s, hrep⟩ := h.rep b c hc
  have hlife := (fire_lifecycle hrep hen io px.globalBuffer px.pool).1
  obtain ⟨-, -, -, hconn, hothers⟩ := settle_ok hr
  have hserves : px.serves b = c.server.isSome := by rw [serves, hc]; rfl
  -- the servers of the other connections
  have herase : px'.servers.erase b = px.servers.erase b := by
    ext b'
    rw [Finset.mem_erase, Finset.mem_erase, h'.named.mem_servers, h.named.mem_servers]
    refine and_congr_right fun hb => ?_
    rw [serves, serves, hothers b' hb]
  obtain ⟨left, hleft, hserves'⟩ : ∃ left,
      (c.fire cb io px.globalBuffer px.pool).status.left = some left ∧
        px'.serves b = left.getD false := by
    unfold serves
    cases hst : (c.fire cb io px.globalBuffer px.pool).status with
    | live c' =>
      rw [(hconn c').mpr hst]
      exact ⟨_, rfl, rfl⟩
    | deleted =>
      rw [settle_deleted hr hst]
      exact ⟨_, rfl, rfl⟩
    | crashed f =>
      rw [settle_error_iff.mpr hst] at hr
      cases hr
  rw [h.named.card_servers b, h'.named.card_servers b, herase, hserves, hserves']
  exact (hlife left hleft).countServers _

/-- In every execution the count is the number of servers. -/
theorem RunFrom.activeCount {log : List LogEntry} {r : Except Fault (Proxy cfg L)}
    (h : RunFrom (Proxy.start cfg L cfg.maxHybridPool) log r) :
    ∀ px, r = .ok px → LSProxy.activeCount log = UInt32.ofNat px.servers.card := by
  induction h with
  | start =>
    rintro px hr
    obtain rfl := Except.ok.inj hr
    rfl
  | step hrun hstep ih =>
    rintro px' rfl
    have h := (hrun.lends _ rfl).1
    have h' := ((hrun.step hstep).lends _ rfl).1
    rw [activeCount_concat, ih _ rfl]
    rcases step_cases hstep with
      ⟨io, rfl, rfl, rfl, hr⟩ | ⟨b, c, cb, io, rfl, hc, hen, rfl, rfl, hr⟩
    · obtain rfl := Except.ok.inj hr
      obtain ⟨hsame, hcalls⟩ := h.servers_acceptNew h'
      rw [hsame]
      exact hcalls _
    · exact h.servers_fire h' hc hen hr.symm

end Servers

end Proxy

/-- **`Server::active_count` is right.** In every state the process reaches it is the number of
connections that have a server: it neither drifts nor wraps below zero, and these are not more than
the connections, nor than `MAX_CONNECTION`. -/
theorem active_count {log : List Proxy.LogEntry} {px : Proxy cfg L}
    (h : Proxy.RunFrom (Proxy.start cfg L cfg.maxHybridPool) log (.ok px)) :
    activeCount log = UInt32.ofNat px.servers.card ∧
      (∀ b, b ∈ px.servers ↔ px.serves b = true) ∧
      px.servers.card ≤ px.connectionCount ∧ px.connectionCount ≤ cfg.maxConnection := by
  obtain ⟨hcounted, es, hlends, -⟩ := h.lends px rfl
  refine ⟨h.activeCount px rfl, fun b => hcounted.named.mem_servers, ?_, ?_⟩
  · rw [hcounted.count]
    exact Finset.card_le_card hcounted.named.servers_subset
  · rw [hcounted.count]
    exact (hlends.sound Proxy.sound_start).clients_le

/-- Of three clients two have a server when the count is two. -/
theorem active_count_two :
    ∃ (log : List Proxy.LogEntry) (px : Proxy .tested .bodiless),
      Proxy.RunFrom (Proxy.start .tested .bodiless Config.tested.maxHybridPool) log (.ok px) ∧
        px.connectionCount = 3 ∧ px.servers.card = 2 ∧ activeCount log = 2 := by
  obtain ⟨log, r, hrun, hr⟩ := Proxy.exists_run (L := .bodiless) Config.tested.maxHybridPool
    [.acceptNew {}, .acceptNew {}, .acceptNew {}, .acceptNew {},
      .fire 0 .clientReadable { clientReads := [.data (ascii "GET /")] },
      .fire 1 .clientReadable
        { clientReads := [.data (ascii "GET /")], serverWrites := [.wrote 4] },
      .fire 2 .clientReadable { clientReads := [.data (ascii "GET /")] },
      .fire 1 .clientReadable { clientReads := [.data []] }]
    (fun _ (r : Except Fault (Proxy .tested _)) => match r with
      | .ok px => px.connectionCount == 3 && px.servers.card == 2
      | .error _ => false)
    (by decide +kernel)
  cases r with
  | error f => cases hr
  | ok px =>
    simp only [Bool.and_eq_true, beq_iff_eq] at hr
    refine ⟨log, px, hrun, hr.1, hr.2, ?_⟩
    rw [(active_count hrun).1, hr.2]
    rfl

end LSProxy
