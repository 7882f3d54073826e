import LSProxy.Session.Runs

/-!
# Lifecycles

The order in which a callback creates and destroys the server and the client of its connection, as
it shows in the calls on the sockets: a server is created only where there is none, it is destroyed
only where there is one, and the client goes last, after the server.
-/

namespace LSProxy

open Session

variable {cfg : Config} {L : Llhttp}

/-- The call moves bytes; it creates and destroys nothing. -/
def Call.transfers : Call → Bool
  | .clientRead _ | .clientWrite _ | .serverRead _ | .serverWrite _ => true
  | _ => false

/-- The calls of a callback, from a connection with a server or without to one with a server or
without, or to none. -/
inductive Lifecycle : Bool → List Call → Option Bool → Prop
  | done {serving : Bool} : Lifecycle serving [] (some serving)
  | connect {calls : List Call} {left : Option Bool} (h : Lifecycle true calls left) :
      Lifecycle false (.connect :: calls) left
  | refused {bs : Bytes} {calls : List Call} {left : Option Bool} (h : Lifecycle false calls left) :
      Lifecycle false (.page503 bs :: calls) left
  | closeServer {calls : List Call} {left : Option Bool} (h : Lifecycle false calls left) :
      Lifecycle true (.closeServer :: calls) left
  | closeClient : Lifecycle false [.closeClient] none
  | transfer {c : Call} {serving : Bool} {calls : List Call} {left : Option Bool}
      (hc : c.transfers = true) (h : Lifecycle serving calls left) :
      Lifecycle serving (c :: calls) left

/-- The client is closed exactly when the connection does not outlive the callback. -/
theorem Lifecycle.closeClient_mem {serving : Bool} {calls : List Call} {left : Option Bool}
    (h : Lifecycle serving calls left) : .closeClient ∈ calls ↔ left = none := by
  induction h with
  | done => simp
  | closeClient => simp
  | connect _ ih | refused _ ih | closeServer _ ih => simpa using ih
  | @transfer c _ _ _ hc _ ih =>
    -- a transfer closes nothing
    have hne : Call.closeClient ≠ c := by
      rintro rfl
      cases hc
    simpa [hne] using ih

/-- What an outcome leaves: a connection with a server or without, or none. -/
def Outcome.left : Outcome cfg L → Option (Option Bool)
  | .live s => some (some s.phase.hasServer)
  | .deleted => some none
  | .crashed _ => none

namespace Session

theorem FastForwardToServer.lifecycle {n : Counts} {p : HttpParser L} {hist : Bytes}
    {cq sq : Circularbuf cfg.sockIoBufSize} {cw : Bool} {io : Io} {calls : List Call}
    {out : Outcome cfg L} {left : Option Bool}
    (h : FastForwardToServer n p hist cq sq cw io calls out)
    (hleft : out.left = some left) : Lifecycle true calls left := by
  cases h <;> cases hleft
  case malformedReply => exact .transfer rfl (.closeServer .done)
  case malformedDelete => exact .transfer rfl (.closeServer .closeClient)
  case eof => exact .transfer rfl (.transfer rfl (.closeServer .closeClient))
  case forward => exact .transfer rfl (.transfer rfl .done)

theorem FastForwardToClient.lifecycle {n : Counts} {p : HttpParser L} {hist : Bytes}
    {cq sq : Circularbuf cfg.sockIoBufSize} {sw : Bool} {io : Io} {calls : List Call}
    {out : Outcome cfg L} {left : Option Bool}
    (h : FastForwardToClient n p hist cq sq sw io calls out)
    (hleft : out.left = some left) : Lifecycle true calls left := by
  cases h <;> cases hleft
  case eofReply => exact .transfer rfl (.transfer rfl (.closeServer .done))
  case eofDelete => exact .transfer rfl (.transfer rfl (.closeServer .closeClient))
  case forward => exact .transfer rfl (.transfer rfl .done)

theorem Deliver.lifecycle {b b' : SlowBufs} {io : Io} {calls : List Call} {cw : Bool}
    (h : Deliver cfg b io calls b' cw) (serving : Bool) :
    Lifecycle serving calls (Option.some serving) := by
  cases h with
  | some => exact .transfer rfl .done
  | none => exact .done

theorem Dispatch.lifecycle {n : Counts} {p : HttpParser L} {k : ℕ} {data : Bytes} {b : SlowBufs}
    {stale : Option (Circularbuf cfg.sockIoBufSize)} {cw : Bool} {io : Io} {calls : List Call}
    {out : Outcome cfg L} {left : Option Bool} (h : Dispatch n p k data b stale cw io calls out)
    (hleft : out.left = some left) : Lifecycle false calls left := by
  cases h <;> cases hleft
  case refused => exact .refused .closeClient
  case connect => exact .connect .done

/-- **Every step keeps to the lifecycle.** -/
theorem Step.lifecycle {s : Session cfg L} {cb : Callback} {io : Io} {calls : List Call}
    {out : Outcome cfg L} {left : Option Bool} (h : Step s cb io calls out)
    (hleft : out.left = some left) : Lifecycle s.phase.hasServer calls left := by
  cases h with
  -- the page is sent while there is no server
  | freshRefused =>
    cases hleft
    exact .refused .closeClient
  | freshConnect hc h => exact .connect (h.lifecycle hleft)
  | fastClientReadable h => exact h.lifecycle hleft
  | fastServerReadable h => exact h.lifecycle hleft
  | transitionDeliver h | idleDeliver h | exchangeDeliver h | slowReplyDeliver h =>
    cases hleft
    exact h.lifecycle _
  -- the request is read before its server is made
  | idleDispatch ho heof hp hk h => exact .transfer rfl (h.lifecycle hleft)
  | slowReplyDone h =>
    cases hleft
    cases h
    exact .closeClient
  | @monitorDrop n ph =>
    cases hleft
    -- `~Connection` deletes the server first, if there is one
    show Lifecycle ph.hasServer ((if ph.hasServer then [.closeServer] else []) ++ [.closeClient]) _
    cases ph.hasServer with
    | false => exact .closeClient
    | true => exact .closeServer .closeClient
  | monitorSwitch hkeep hfast hslow h | signalSwitch h =>
    cases hleft
    -- a switch keeps the server and calls nothing
    rw [h.switched.1]
    exact .done
  | _ =>
    cases hleft
    repeat constructor

end Session

/-- The slow buffers are there from the moment fast mode is left. -/
theorem Rep.slowBuffers {s : Session cfg L} {c : Connection cfg L} (hrep : Rep s c) :
    c.client.requestBuf.isSome = !s.phase.isFast ∧
      c.client.requestTmpBuf.isSome = c.client.requestBuf.isSome ∧
      c.client.responseBuf.isSome = c.client.requestBuf.isSome := by
  cases hrep <;> exact ⟨rfl, rfl, rfl⟩

/-- What has become of a connection: one with a server or without, or none. -/
def Status.left : Status cfg L → Option (Option Bool)
  | .live c => some (some c.server.isSome)
  | .deleted => some none
  | .crashed _ => none

/-- The same of one event of a connection, which does not lose its slow buffers either. -/
theorem fire_lifecycle {s : Session cfg L} {c : Connection cfg L} {cb : Callback} (hrep : Rep s c)
    (hen : c.enabled cb = true) (io : Io) (g : Scratch cfg.sockIoBufSize)
    (pool : List (Hist cfg)) :
    (∀ left, (c.fire cb io g pool).status.left = some left →
      Lifecycle c.server.isSome (c.fire cb io g pool).calls left) ∧
    ∀ c', (c.fire cb io g pool).status = .live c' → c.client.requestBuf.isSome = true →
      c'.client.requestBuf.isSome = true := by
  obtain ⟨out, hstep, hout⟩ := fire_step hrep hen io g pool
  refine ⟨fun left hleft => ?_, fun c' hst hslow => ?_⟩
  · rw [hrep.hasServer]
    refine hstep.lifecycle ?_
    cases hst : (c.fire cb io g pool).status with
    | live c' =>
      rw [hst] at hout hleft
      obtain ⟨s', rfl, hrep'⟩ := hout.live
      rw [← hleft, Outcome.left, Status.left, hrep'.hasServer]
    | deleted =>
      rw [hst] at hout hleft
      cases out with
      | deleted => exact hleft
      | live s' => exact hout.elim
      | crashed f => exact hout.elim
    | crashed f =>
      rw [hst] at hleft
      cases hleft
  · rw [hst] at hout
    obtain ⟨s', rfl, hrep'⟩ := hout.live
    rw [hrep.slowBuffers.1, Bool.not_eq_true'] at hslow
    rw [hrep'.slowBuffers.1, hstep.slow hslow]
    rfl

end LSProxy
