import LSProxy.Safety.Streams

/-!
# The backlog of a response

Outside fast mode a response goes through `response_buf`, a file with two cursors. `dump_to`,
`Server::recv_to_buffer_slowly` and the transition branch of `Server::on_readable` append to it;
`Client::send_response_slowly` fetches a chunk, writes what the socket takes of it, and moves the
reading cursor back over the rest.

* `ResponseOp` — the calls that use `response_buf`, and what each of them stores;
* `Backlog` — such calls one after another, in any order; between two of them anything else may
  become of the connection;
* `response_backlog` — what has been stored is what has been written followed by what has not been
  read from the file, and the writing event is removed, or the connection deleted, only when
  nothing is left;
* `Run.backlog` — outside fast mode, every run of a connection is such a sequence of calls.
-/

namespace LSProxy

open Handler Session

variable {cfg : Config} {L : Llhttp}

/-! ### The file -/

/-- The file after `stored` has been stored in it and `sent` has left it. -/
structure FIFOfilebuf.Holds (f : FIFOfilebuf) (stored sent : Bytes) : Prop where
  content : f.content = stored
  writer : f.offset = stored.length
  size : f.dataSize = stored.length
  reader : f.readerOffset = sent.length
  split : stored = sent ++ f.unread

theorem FIFOfilebuf.Holds.of_queue (sent unread : Bytes) :
    (queue sent unread).Holds (sent ++ unread) sent where
  content := rfl
  writer := rfl
  size := rfl
  reader := rfl
  split := by rw [unread_queue]

theorem FIFOfilebuf.Holds.eq_queue {f : FIFOfilebuf} {stored sent : Bytes}
    (h : f.Holds stored sent) : f = .queue sent f.unread := by
  calc f = ⟨⟨f.content, f.offset, f.dataSize⟩, f.readerOffset⟩ := rfl
    _ = .queue sent f.unread := by
      rw [h.content, h.writer, h.size, h.reader, queue, ← h.split]

/-! ### The calls -/

/-- The calls that use `response_buf`. -/
inductive ResponseOp
  /-- `queued_output->dump_to(response_buf)`, in `set_slow_mode` -/
  | dump
  /-- `Server::recv_to_buffer_slowly` -/
  | receive
  /-- `Server::on_readable` in the transition -/
  | transition (timeout : Bool)
  /-- `Client::send_response_slowly` -/
  | send
  deriving DecidableEq, Repr

/-- `queued_output->dump_to(response_buf)`. -/
def Client.dumpQueuedOutput (io : Io) : Handler cfg L Unit := do
  let (q, buf) ← check ((← getClientQueue).dumpTo io.disk (← getResponseBuf))
  onClient fun c => { c with queuedOutput := some q, responseBuf := some buf }

/-- The function that is called. -/
def ResponseOp.handler (op : ResponseOp) (io : Io) : Handler cfg L Unit :=
  match op with
  | .dump => Client.dumpQueuedOutput io
  | .receive => Server.recvToBufferSlowly io
  | .transition timeout => Server.onReadable timeout io
  | .send => Client.sendResponseSlowly io

/-- `Server::on_readable` takes its transition branch in the transition only. -/
def ResponseOp.applies (op : ResponseOp) (c : Connection cfg L) : Bool :=
  match op with
  | .transition _ => !c.fastMode && c.inTransition
  | _ => true

/-- What the call stores in `response_buf`. A read in the transition that meets the end of the
stream stores nothing. -/
def ResponseOp.stores (op : ResponseOp) (c : Connection cfg L) (io : Io) : Bytes :=
  match op with
  | .dump => queued c.client.queuedOutput
  | .receive => (readAll io.serverReads cfg.sockIoBufSize).data
  | .transition timeout =>
    if timeout || (readAll io.serverReads cfg.sockIoBufSize).hasEof then []
    else (readAll io.serverReads cfg.sockIoBufSize).data
  | .send => []

/-- The effects of the call. -/
def Connection.perform (c : Connection cfg L) (op : ResponseOp) (io : Io)
    (globalBuffer : Scratch cfg.sockIoBufSize) (pool : List (Hist cfg)) : Effect cfg L :=
  .of ((op.handler io).run ⟨globalBuffer, pool, c, []⟩)

/-- What the effects wrote to the client. -/
def Effect.clientOut (e : Effect cfg L) : Bytes := e.calls.flatMap (·.clientOut)

/-- What a call on `c` may leave when `stored` has been stored and `sent` has been written: a file
that holds them, and the writing event unless nothing is left; no connection, with nothing left;
or a null dereference. -/
def Status.Delivers (st : Status cfg L) (c : Connection cfg L) (stored sent : Bytes) : Prop :=
  match st with
  | .live c' => (∃ f, c'.client.responseBuf = some f ∧ f.Holds stored sent) ∧
      (c.client.writeEvt = true → c'.client.writeEvt = false → stored = sent)
  | .deleted => stored = sent
  | .crashed f => ∃ p, f = .null p

/-- What the call writes goes on where `sent` has stopped. -/
structure Effect.Delivers (e : Effect cfg L) (c : Connection cfg L) (stored sent : Bytes) :
    Prop where
  isPrefix : sent ++ e.clientOut <+: stored
  status : e.status.Delivers c stored (sent ++ e.clientOut)

/-! ### One call -/

section Call

variable {c : Connection cfg L} {sent unread : Bytes} {io : Io}

/-- A call that leaves a live connection, with the event pending or as it was. -/
theorem delivers_live {w : World cfg L} (out : Bytes)
    (hout : w.calls.flatMap (·.clientOut) = out)
    (hbuf : w.conn.client.responseBuf = some (.queue (sent ++ out) unread))
    (hevt : w.conn.client.writeEvt = true ∨ w.conn.client.writeEvt = c.client.writeEvt) :
    (Effect.of (.ok () w)).Delivers c (sent ++ (out ++ unread)) sent := by
  subst hout
  rw [← List.append_assoc]
  refine ⟨List.prefix_append _ _, ⟨_, hbuf, .of_queue _ unread⟩, fun hon hoff => ?_⟩
  rcases hevt with hevt | hevt
  · exact absurd (hevt.symm.trans hoff) (by simp)
  · exact absurd ((hon.symm.trans hevt.symm).trans hoff) (by simp)

/-- A call that writes nothing and stores behind what is unread. -/
theorem delivers_stored {w : World cfg L} (hout : w.calls.flatMap (·.clientOut) = [])
    (hbuf : w.conn.client.responseBuf = some (.queue sent unread))
    (hevt : w.conn.client.writeEvt = true ∨ w.conn.client.writeEvt = c.client.writeEvt) :
    (Effect.of (.ok () w)).Delivers c (sent ++ unread) sent :=
  delivers_live [] hout (by rwa [List.append_nil]) hevt

/-- A call that leaves a live connection with nothing to write. -/
theorem delivers_done {w : World cfg L} (hout : w.calls.flatMap (·.clientOut) = [])
    (hbuf : w.conn.client.responseBuf = some (.queue sent [])) :
    (Effect.of (.ok () w)).Delivers c sent sent := by
  have hnone : (Effect.of (.ok () w)).clientOut = [] := hout
  have hholds := FIFOfilebuf.Holds.of_queue sent []
  rw [List.append_nil] at hholds
  refine ⟨?_, ?_⟩
  · rw [hnone, List.append_nil]
  · rw [hnone, List.append_nil]
    exact ⟨⟨_, hbuf, hholds⟩, fun _ _ => rfl⟩

/-- `delete conn` closes sockets and writes nothing. -/
theorem run_delete (io : Io) (w : World cfg L) :
    ∃ w', (Connection.delete io).run w = .error .deleted w' ∧
      w'.calls.flatMap (·.clientOut) = w.calls.flatMap (·.clientOut) := by
  have h := @agrees_delete cfg L w w _ io rfl (List.Sublist.refl _)
  unfold Agrees at h
  split at h
  · next hlive => exact absurd hlive (by simp)
  · next w' hrun _ =>
    refine ⟨w', hrun, ?_⟩
    rw [h.1, List.flatMap_append]
    split <;> simp
  · next hcrash => exact absurd hcrash (by simp)
  · exact h.elim

/-- A call that ends by deleting the connection, with nothing left to write. -/
theorem delivers_delete {w : World cfg L} (hout : w.calls.flatMap (·.clientOut) = []) :
    (Effect.of ((Connection.delete io).run w)).Delivers c sent sent := by
  obtain ⟨w', hrun, hcalls⟩ := run_delete io w
  have hnone : (Effect.of ((Connection.delete io).run w)).clientOut = [] := by
    rw [hrun, Effect.clientOut, Effect.of, hcalls, hout]
  refine ⟨?_, ?_⟩
  · rw [hnone, List.append_nil]
  · rw [hnone, List.append_nil, hrun]
    rfl

/-- A call that ends in a null dereference. -/
theorem delivers_null {w : World cfg L} {stored : Bytes} (p : Field)
    (hout : w.calls.flatMap (·.clientOut) = []) (hpre : sent <+: stored) :
    (Effect.of (.error (.fault (.null p)) w)).Delivers c stored sent := by
  refine ⟨?_, p, rfl⟩
  rwa [Effect.clientOut, Effect.of, hout, List.append_nil]

/-- **`send_response_slowly` sends a prefix of what waits**, and gives up the event or the
connection only when nothing does. -/
theorem delivers_send (hbuf : c.client.responseBuf = some (.queue sent unread))
    (g : Scratch cfg.sockIoBufSize) (pool : List (Hist cfg)) :
    (c.perform .send io g pool).Delivers c (sent ++ unread) sent := by
  unfold Connection.perform ResponseOp.handler
  by_cases hnil : unread = []
  · -- the fetch finds nothing
    subst hnil
    obtain ⟨g', hrun⟩ := run_sendResponseSlowly_last hbuf g pool [] io
    rw [hrun, List.append_nil]
    split
    · exact delivers_delete rfl
    · exact delivers_done rfl hbuf
  · obtain ⟨g', hrun⟩ := run_sendResponseSlowly_more hbuf hnil rfl g pool []
    -- what the socket takes comes first among what is unread
    have hpre : (writeAll io.clientWrites (unread.take cfg.sockIoBufSize)).data <+: unread :=
      (writeAll_isPrefix _ _).trans (List.take_prefix _ _)
    have hsplit : sent ++ unread
        = sent ++ ((writeAll io.clientWrites (unread.take cfg.sockIoBufSize)).data
          ++ unread.drop (writeAll io.clientWrites (unread.take cfg.sockIoBufSize)).data.length) :=
      congrArg (sent ++ ·) (List.prefix_iff_eq_append.mp hpre).symm
    rw [hrun, hsplit]
    exact delivers_live _ (List.append_nil _) rfl (.inr rfl)

/-- A connection that has a parser survives `send_response_slowly`. -/
theorem send_status (hbuf : c.client.responseBuf = some (.queue sent unread))
    (g : Scratch cfg.sockIoBufSize) (pool : List (Hist cfg)) :
    (∃ c', (c.perform .send io g pool).status = .live c') ∨
      ((c.perform .send io g pool).status = .deleted ∧ c.parser = none) := by
  unfold Connection.perform ResponseOp.handler
  by_cases hnil : unread = []
  · subst hnil
    obtain ⟨g', hrun⟩ := run_sendResponseSlowly_last hbuf g pool [] io
    rw [hrun]
    split
    · next hnone =>
      obtain ⟨w', hdel, -⟩ := run_delete io
        ⟨g', pool, { c with client := c.client.stopWriting }, []⟩
      rw [hdel]
      exact .inr ⟨rfl, Option.isNone_iff_eq_none.mp hnone⟩
    · exact .inl ⟨_, rfl⟩
  · obtain ⟨g', hrun⟩ := run_sendResponseSlowly_more hbuf hnil rfl g pool []
    rw [hrun]
    exact .inl ⟨_, rfl⟩

/-- Storing `data` without loss. -/
theorem FIFOfilebuf.store_queue_ok (hdisk : io.DiskOk) (data : Bytes) :
    (FIFOfilebuf.queue sent unread).store (io.disk 0) data
      = .ok (.queue sent (unread ++ data)) := by
  rw [FIFOfilebuf.store_queue, hdisk]
  simp

/-- **`recv_to_buffer_slowly` stores all it reads.** It deletes the connection only when it has
never stored anything. -/
theorem delivers_receive (hbuf : c.client.responseBuf = some (.queue sent unread))
    (hdisk : io.DiskOk) (g : Scratch cfg.sockIoBufSize) (pool : List (Hist cfg)) :
    (c.perform .receive io g pool).Delivers c
      (sent ++ (unread ++ ResponseOp.receive.stores c io)) sent := by
  have hstore := @FIFOfilebuf.store_queue_ok sent unread io hdisk
    (readAll io.serverReads cfg.sockIoBufSize).data
  unfold Connection.perform ResponseOp.handler ResponseOp.stores
  cases hp : c.parser with
  | none =>
    simp [Server.recvToBufferSlowly, hbuf, hstore, hp]
    exact delivers_null .parser rfl (List.prefix_append _ _)
  | some p =>
    cases hdo : p.doParse (readAll io.serverReads cfg.sockIoBufSize).data with
    | none =>
      -- `data_size` never goes down: it is zero only if nothing has ever been stored
      by_cases hnil : sent ++ (unread ++ (readAll io.serverReads cfg.sockIoBufSize).data) = []
      · obtain ⟨rfl, -⟩ := List.append_eq_nil_iff.mp hnil
        have h0 : (unread ++ (readAll io.serverReads cfg.sockIoBufSize).data).length = 0 :=
          congrArg List.length hnil
        rw [hnil]
        cases hs : c.server <;>
          simp [-List.length_append, Server.recvToBufferSlowly, hbuf, hstore, hp, hdo, hs, h0] <;>
          exact delivers_delete rfl
      · have hpos : 0 < sent.length
            + (unread ++ (readAll io.serverReads cfg.sockIoBufSize).data).length := by
          rw [← List.length_append]
          exact List.length_pos_iff.mpr hnil
        cases hs : c.server <;>
          simp [-List.length_append, Server.recvToBufferSlowly, hbuf, hstore, hp, hdo, hs, hpos] <;>
          exact delivers_stored rfl rfl (.inl rfl)
    | some p' =>
      by_cases hend : (readAll io.serverReads cfg.sockIoBufSize).hasEof = true ∨
          p'.lastEom.isSome = true
      · cases hs : c.server <;>
          simp [Server.recvToBufferSlowly, hbuf, hstore, hp, hdo, hs, hend] <;>
          exact delivers_stored rfl rfl (.inl rfl)
      · simp [-not_or, Server.recvToBufferSlowly, hbuf, hstore, hp, hdo, hend]
        exact delivers_stored rfl rfl (.inl rfl)

/-- In the transition, a read that does not meet the end of the stream is stored. -/
theorem run_onReadable_transition (hbuf : c.client.responseBuf = some (.queue sent unread))
    (hdisk : io.DiskOk) (hslow : c.fastMode = false) (htrans : c.inTransition = true)
    {o : ReadOutcome} (ho : readAll io.serverReads cfg.sockIoBufSize = o)
    (heof : o.hasEof = false) (g : Scratch cfg.sockIoBufSize) (pool : List (Hist cfg))
    (calls : List Call) :
    ∃ g', (Server.onReadable false io).run ⟨g, pool, c, calls⟩ = .ok () ⟨g', pool,
      { c with client := { c.client with
        writeEvt := true
        responseBuf := some (.queue sent (unread ++ o.data)) } },
        calls ++ [.serverRead o.data]⟩ := by
  subst ho
  have hstore := @FIFOfilebuf.store_queue_ok sent unread io hdisk
    (readAll io.serverReads cfg.sockIoBufSize).data
  refine ⟨g.put _ (readAll_length_le io.serverReads cfg.sockIoBufSize), ?_⟩
  simp [Server.onReadable, hslow, htrans, heof, hbuf, hstore]

/-- **The transition branch stores what it reads**, and never gives up the event. -/
theorem delivers_transition (hbuf : c.client.responseBuf = some (.queue sent unread))
    (hdisk : io.DiskOk) {timeout : Bool} (happ : (ResponseOp.transition timeout).applies c = true)
    (g : Scratch cfg.sockIoBufSize) (pool : List (Hist cfg)) :
    (c.perform (.transition timeout) io g pool).Delivers c
      (sent ++ (unread ++ (ResponseOp.transition timeout).stores c io)) sent := by
  obtain ⟨hslow, htrans⟩ : c.fastMode = false ∧ c.inTransition = true := by
    simpa [ResponseOp.applies] using happ
  unfold Connection.perform ResponseOp.handler ResponseOp.stores
  cases timeout with
  | true =>
    cases hs : c.server <;> simp [Server.onReadable, hslow, htrans, hs] <;>
      exact delivers_stored rfl hbuf (.inr rfl)
  | false =>
    cases heof : (readAll io.serverReads cfg.sockIoBufSize).hasEof with
    | true =>
      -- the bytes that came with the end of the stream are not stored
      cases hs : c.server <;> simp [Server.onReadable, hslow, htrans, heof, hs] <;>
        exact delivers_stored rfl hbuf (.inr rfl)
    | false =>
      obtain ⟨g', hrun⟩ := run_onReadable_transition hbuf hdisk hslow htrans rfl heof g pool []
      simp only [hrun, Bool.or_self, Bool.false_eq_true, if_false]
      exact delivers_stored rfl rfl (.inl rfl)

/-- `dump_to` empties the queue into the file. -/
theorem run_dumpQueuedOutput {q : Circularbuf cfg.sockIoBufSize}
    (hq : c.client.queuedOutput = some q)
    (hbuf : c.client.responseBuf = some (.queue sent unread)) (hdisk : io.DiskOk)
    (g : Scratch cfg.sockIoBufSize) (pool : List (Hist cfg)) (calls : List Call) :
    ∃ q', (Client.dumpQueuedOutput io).run ⟨g, pool, c, calls⟩ = .ok () ⟨g, pool,
      { c with client := { c.client with
        queuedOutput := some q'
        responseBuf := some (.queue sent (unread ++ q.contents)) } }, calls⟩ := by
  rcases q.dumpTo_spec io.disk sent unread with
    ⟨-, k, n, hlost⟩ | ⟨q', stored, hdump, -, hall⟩
  · exact absurd ((hdisk k n).symm.trans hlost) (by simp)
  · obtain rfl := hall hdisk
    refine ⟨q', ?_⟩
    simp only [Client.dumpQueuedOutput, EStateM.run_bind, run_getClientQueue, hq,
      run_require_some, run_getResponseBuf, hbuf, hdump, run_check_ok, run_onClient]

/-- **`dump_to` stores the contents of the queue**, and leaves the event as it is. -/
theorem delivers_dump (hbuf : c.client.responseBuf = some (.queue sent unread))
    (hdisk : io.DiskOk) (g : Scratch cfg.sockIoBufSize) (pool : List (Hist cfg)) :
    (c.perform .dump io g pool).Delivers c
      (sent ++ (unread ++ ResponseOp.dump.stores c io)) sent := by
  unfold Connection.perform ResponseOp.handler ResponseOp.stores
  cases hq : c.client.queuedOutput with
  | none =>
    simp only [Client.dumpQueuedOutput, EStateM.run_bind, run_getClientQueue, hq,
      run_require_none]
    exact delivers_null _ rfl (List.prefix_append _ _)
  | some q =>
    obtain ⟨q', hrun⟩ := run_dumpQueuedOutput hq hbuf hdisk g pool []
    rw [hrun]
    exact delivers_stored rfl rfl (.inr rfl)

/-- **One call** on a file that holds what has been stored and written. -/
theorem ResponseOp.delivers {f : FIFOfilebuf} {stored : Bytes} (op : ResponseOp)
    (hbuf : c.client.responseBuf = some f) (hf : f.Holds stored sent)
    (happ : op.applies c = true) (hdisk : io.DiskOk) (g : Scratch cfg.sockIoBufSize)
    (pool : List (Hist cfg)) :
    (c.perform op io g pool).Delivers c (stored ++ op.stores c io) sent := by
  rw [hf.eq_queue] at hbuf
  rw [hf.split, List.append_assoc]
  cases op with
  | dump => exact delivers_dump hbuf hdisk g pool
  | receive => exact delivers_receive hbuf hdisk g pool
  | transition timeout => exact delivers_transition hbuf hdisk happ g pool
  | send =>
    rw [ResponseOp.stores, List.append_nil]
    exact delivers_send hbuf g pool

end Call

/-! ### Calls one after another -/

/-- Calls that use `response_buf`, in any order, from the moment it is created: what they have
stored in it, what they have written to the client, and the connection they lead to. Between two
calls anything may become of the connection, as long as `response_buf` is left alone. -/
inductive Backlog : Bytes → Bytes → Connection cfg L → Prop
  | new {c : Connection cfg L} (hbuf : c.client.responseBuf = some {}) : Backlog [] [] c
  | between {stored sent : Bytes} {c c' : Connection cfg L} (h : Backlog stored sent c)
      (hbuf : c'.client.responseBuf = c.client.responseBuf) : Backlog stored sent c'
  | call {stored sent : Bytes} {c c' : Connection cfg L} {op : ResponseOp} {io : Io}
      {globalBuffer : Scratch cfg.sockIoBufSize} {pool : List (Hist cfg)}
      (h : Backlog stored sent c) (happ : op.applies c = true) (hdisk : io.DiskOk)
      (hlive : (c.perform op io globalBuffer pool).status = .live c') :
      Backlog (stored ++ op.stores c io)
        (sent ++ (c.perform op io globalBuffer pool).clientOut) c'

/-- A call that is known to return. -/
theorem Backlog.run {stored sent : Bytes} {c : Connection cfg L} {io : Io}
    {g : Scratch cfg.sockIoBufSize} {pool : List (Hist cfg)} {w : World cfg L}
    (h : Backlog stored sent c) (op : ResponseOp) (happ : op.applies c = true)
    (hdisk : io.DiskOk) (hrun : (op.handler io).run ⟨g, pool, c, []⟩ = .ok () w) :
    Backlog (stored ++ op.stores c io) (sent ++ w.calls.flatMap (·.clientOut)) w.conn := by
  have hlive : (c.perform op io g pool).status = .live w.conn :=
    congrArg (fun r => (Effect.of r).status) hrun
  have hout : (c.perform op io g pool).clientOut = w.calls.flatMap (·.clientOut) :=
    congrArg (fun r => (Effect.of r).clientOut) hrun
  rw [← hout]
  exact h.call happ hdisk hlive

/-- **The file holds what has been stored and written**, after every call. -/
theorem Backlog.holds {stored sent : Bytes} {c : Connection cfg L} (h : Backlog stored sent c) :
    ∃ f, c.client.responseBuf = some f ∧ f.Holds stored sent := by
  induction h with
  | new hbuf => exact ⟨{}, hbuf, .of_queue [] []⟩
  | between _ hbuf ih =>
    obtain ⟨f, hf, hholds⟩ := ih
    exact ⟨f, hbuf.trans hf, hholds⟩
  | @call stored sent c c' op io g pool _ happ hdisk hlive ih =>
    obtain ⟨f, hf, hholds⟩ := ih
    have hdel := (op.delivers hf hholds happ hdisk g pool).status
    rw [hlive] at hdel
    exact hdel.1

/-- **Response delivery through `response_buf`.** Whatever is stored, and however little of each
chunk the socket takes: what has been written is a prefix of what has been stored, the file holds
both, with the writing cursor at its end and the reading cursor behind what has been written, and
the next call keeps it so: no cursor is moved before the head of the file, and the writing event
is removed, or the connection deleted, only with everything written. `send_response_slowly` deletes
only a connection whose parser is gone. -/
theorem response_backlog {stored sent : Bytes} {c : Connection cfg L} (h : Backlog stored sent c) :
    sent <+: stored ∧ (∃ f, c.client.responseBuf = some f ∧ f.Holds stored sent) ∧
    ∀ (op : ResponseOp) io globalBuffer pool, op.applies c = true → io.DiskOk →
      (c.perform op io globalBuffer pool).Delivers c (stored ++ op.stores c io) sent ∧
      (op = .send → (∃ c', (c.perform op io globalBuffer pool).status = .live c') ∨
        ((c.perform op io globalBuffer pool).status = .deleted ∧ c.parser = none)) := by
  obtain ⟨f, hf, hholds⟩ := h.holds
  refine ⟨⟨f.unread, hholds.split.symm⟩, ⟨f, hf, hholds⟩, fun op io g pool happ hdisk => ?_⟩
  refine ⟨op.delivers hf hholds happ hdisk g pool, ?_⟩
  rintro rfl
  rw [hholds.eq_queue] at hf
  exact send_status hf g pool

/-- A connection in the transition. -/
def Connection.inTransitionWith (buf : FIFOfilebuf) (writeEvt : Bool) :
    Connection .shipped .bodiless :=
  { client :=
      { writeEvt := writeEvt
        responseBuf := some buf
        readCount := 0
        writeCount := 0
        requestHistory := none }
    server := some {}
    fastMode := false
    inTransition := true }

/-- Three bytes are stored, the socket takes one of them, and one more is stored. -/
theorem response_backlog_short : ∃ c : Connection .shipped .bodiless,
    Backlog [1, 2, 3, 4] [1] c ∧
      ∃ f, c.client.responseBuf = some f ∧ f.Holds [1, 2, 3, 4] [1] := by
  let g : Scratch Config.shipped.sockIoBufSize := .zero _
  let reads (data : Bytes) : Io := { serverReads := [.data data] }
  let takesOne : Io := { clientWrites := [.wrote 0] }
  have hreads : ∀ data, (reads data).DiskOk := fun _ _ n => written_nil n
  have htakes : takesOne.DiskOk := fun _ n => written_nil n
  have h₀ : Backlog [] [] (.inTransitionWith (.queue [] []) false) := .new rfl
  obtain ⟨g₁, hrun₁⟩ := run_onReadable_transition (c := .inTransitionWith (.queue [] []) false)
    rfl (hreads [1, 2, 3]) rfl rfl rfl rfl g [] []
  have h₁ : Backlog [1, 2, 3] [] (.inTransitionWith (.queue [] [1, 2, 3]) true) :=
    h₀.run (.transition false) rfl (hreads [1, 2, 3]) hrun₁
  obtain ⟨g₂, hrun₂⟩ := @run_sendResponseSlowly_more _ _
    (.inTransitionWith (.queue [] [1, 2, 3]) true) _ _ takesOne _ rfl (by decide) rfl g [] []
  have h₂ : Backlog [1, 2, 3] [1] (.inTransitionWith (.queue [1] [2, 3]) true) :=
    h₁.run .send rfl htakes hrun₂
  obtain ⟨g₃, hrun₃⟩ := run_onReadable_transition (c := .inTransitionWith (.queue [1] [2, 3]) true)
    rfl (hreads [4]) rfl rfl rfl rfl g [] []
  have h₃ : Backlog [1, 2, 3, 4] [1] (.inTransitionWith (.queue [1] [2, 3, 4]) true) :=
    h₂.run (.transition false) rfl (hreads [4]) hrun₃
  exact ⟨_, h₃, (response_backlog h₃).2.1⟩

/-! ### Runs -/

/-- `response_buf` of a session. -/
def Phase.response : Phase cfg L → Option FIFOfilebuf
  | .transition _ b _ _ _ | .idle _ b _ _ | .exchange _ b _ _ _ | .slowReply b _ =>
    some (.queue b.sent b.unread)
  | _ => none

theorem Rep.response {s : Session cfg L} {c : Connection cfg L} (hrep : Rep s c) :
    c.client.responseBuf = s.phase.response := by
  cases hrep <;> rfl

/-- In slow mode only `Client::on_writable` and `Server::on_readable` use `response_buf`, and write
to the client. -/
theorem Session.Step.response {s s' : Session cfg L} {cb : Callback} {io : Io} {calls : List Call}
    (h : Step s cb io calls (.live s')) (hslow : s.phase.isFast = false)
    (hclient : cb ≠ .clientWritable) (hserver : ∀ timeout, cb ≠ .serverReadable timeout) :
    s'.phase.response = s.phase.response ∧ calls.flatMap (·.clientOut) = [] := by
  cases h with
  | freshConnect | fastClientReadable | fastServerWritable => cases hslow
  | monitorSwitch _ hfast => exact absurd (hfast.symm.trans hslow) (by simp)
  | signalSwitch h => exact absurd (h.isFast.symm.trans hslow) (by simp)
  | fastClientWritable | replyMore | transitionDeliver | idleDeliver | exchangeDeliver
  | slowReplyDeliver => exact absurd rfl hclient
  | fastServerReadable | transitionTimeout | transitionEof | transitionRead
  | exchangeMalformedReply | exchangeEnd | exchangeRead => exact absurd rfl (hserver _)
  | idleDispatch _ _ _ _ h =>
    cases h
    exact ⟨rfl, rfl⟩
  | _ => exact ⟨rfl, rfl⟩

/-- An event in slow mode is a call, or leaves `response_buf` alone. -/
theorem Backlog.fire {stored sent : Bytes} {s : Session cfg L} {c c' : Connection cfg L}
    {cb : Callback} {io : Io} (h : Backlog stored sent c) (hrep : Rep s c)
    (hen : c.enabled cb = true) (hslow : c.fastMode = false) (hdisk : io.DiskOk)
    {g : Scratch cfg.sockIoBufSize} {pool : List (Hist cfg)}
    (hlive : (c.fire cb io g pool).status = .live c') :
    ∃ stored', Backlog stored' (sent ++ (c.fire cb io g pool).clientOut) c' := by
  by_cases hclient : cb = .clientWritable
  · subst hclient
    have hfire : c.fire .clientWritable io g pool = c.perform .send io g pool := by
      simp [Connection.fire, Connection.perform, Callback.handler, ResponseOp.handler,
        Client.onWritable, hslow]
    rw [hfire] at hlive ⊢
    exact ⟨_, h.call rfl hdisk hlive⟩
  · -- `Server::on_readable` is one of two calls
    by_cases hserver : ∃ timeout, cb = .serverReadable timeout
    · obtain ⟨timeout, rfl⟩ := hserver
      cases htrans : c.inTransition with
      | true =>
        have happ : (ResponseOp.transition timeout).applies c = true := by
          simp [ResponseOp.applies, hslow, htrans]
        exact ⟨_, h.call happ hdisk hlive⟩
      | false =>
        have hfire : c.fire (.serverReadable timeout) io g pool = c.perform .receive io g pool := by
          simp [Connection.fire, Connection.perform, Callback.handler, ResponseOp.handler,
            Server.onReadable, hslow, htrans]
        rw [hfire] at hlive ⊢
        exact ⟨_, h.call rfl hdisk hlive⟩
    · obtain ⟨out, hstep, hout⟩ := fire_step hrep hen io g pool
      rw [hlive] at hout
      obtain ⟨s', rfl, hrep'⟩ := hout.live
      obtain ⟨hbuf, hnone⟩ := hstep.response (hrep.fastMode.symm.trans hslow) hclient
        fun timeout ht => hserver ⟨timeout, ht⟩
      rw [Effect.clientOut, hnone, List.append_nil]
      exact ⟨stored, h.between (by rw [hrep.response, hrep'.response, hbuf])⟩

/-- `set_slow_mode` creates `response_buf`, and dumps the queue of the client into it. -/
theorem Backlog.of_switch {io : Io} {n n' : Counts} {ph ph' : Phase cfg L}
    {c c' : Connection cfg L} (h : SlowSwitch io ph (.ok ph')) (hrep : Rep ⟨n, ph⟩ c)
    (hrep' : Rep ⟨n', ph'⟩ c') (hdisk : io.DiskOk) : ∃ stored, Backlog stored [] c' := by
  have hbuf' := hrep'.response
  cases h with
  | fresh | reply => exact ⟨[], .new hbuf'⟩
  | @fast p hist copy stored cq cq' sq cw sw _ hdump =>
    -- the file when it has just been created
    let c₁ : Connection cfg L := { c with client := { c.client with responseBuf := some {} } }
    have hq : c₁.client.queuedOutput = some cq := by cases hrep; rfl
    have hempty : c₁.client.responseBuf = some (.queue [] []) := rfl
    obtain ⟨q', hrun⟩ := run_dumpQueuedOutput hq hempty hdisk (.zero cfg.sockIoBufSize) [] []
    have hdump' := (Backlog.new hempty).run .dump rfl hdisk hrun
    -- the loop that dumps the queue ends after one round
    have hstored : stored = cq.contents := by
      rcases cq.dumpAll_spec io.disk with ⟨herr, -⟩ | ⟨q₁, stored₁, hok, hall⟩
      · exact absurd (herr.symm.trans hdump) (by simp)
      · have heq := Except.ok.inj (hok.symm.trans hdump)
        rw [← hall hdisk]
        exact (FIFOfilebuf.queue_nil_inj (Prod.mk.inj heq).2).symm
    exact ⟨_, hdump'.between (by rw [hbuf', hstored]; rfl)⟩

/-- Before the switch nothing is written outside fast mode, and from the switch on the connection
is in a sequence of calls. -/
theorem RunFrom.backlog {pool₀ : List (Hist cfg)} {id : ℕ} {tr : List (Entry cfg L)}
    {st : Status cfg L} (h : RunFrom (.live (Connection.acceptNew L pool₀ id).1) tr st)
    (hdisk : ∀ e ∈ tr, e.io.DiskOk) (c : Connection cfg L) (hc : st = .live c) :
    (c.fastMode = true → slowCalls tr = []) ∧
      (c.fastMode = false →
        ∃ stored, Backlog stored ((slowCalls tr).flatMap (·.clientOut)) c) := by
  induction h generalizing c with
  | start =>
    obtain ⟨s, hs, hrep⟩ := Outcome.Represents.live (hc ▸ represents_acceptNew pool₀ id)
    obtain rfl := Outcome.live.inj hs
    exact ⟨fun _ => rfl, fun hslow => Bool.noConfusion (hrep.fastMode.symm.trans hslow)⟩
  | @fire tr c₁ cb io g pool h hen ih =>
    obtain ⟨hfirst, hlater⟩ := ih (fun e he => hdisk e (List.mem_append_left _ he)) c₁ rfl
    have hio : io.DiskOk := hdisk _ (List.mem_append_right _ (List.mem_singleton_self _))
    obtain ⟨out₁, hrep₁, -⟩ := h.invariant (I := fun _ _ => True) (represents_acceptNew pool₀ id)
      trivial (fun _ _ _ => trivial)
    obtain ⟨s₁, rfl, hrep₁⟩ := hrep₁.live
    obtain ⟨out, hstep, hout⟩ := fire_step hrep₁ hen io g pool
    rw [hc] at hout
    obtain ⟨s, rfl, hrep⟩ := hout.live
    rw [slowCalls_concat]
    cases hfast : c₁.fastMode with
    | true =>
      -- the event counts for nothing; it may be the switch
      rw [if_pos rfl, List.append_nil]
      refine ⟨fun _ => hfirst hfast, fun hslow => ?_⟩
      rw [hfirst hfast]
      exact Backlog.of_switch (hstep.slowSwitch (hrep₁.fastMode.symm.trans hfast)
        (hrep.fastMode.symm.trans hslow)) hrep₁ hrep hio
    | false =>
      rw [if_neg Bool.false_ne_true, List.flatMap_append]
      have hslow : c.fastMode = false :=
        hrep.fastMode.trans (hstep.slow (hrep₁.fastMode.symm.trans hfast))
      refine ⟨fun hfast' => Bool.noConfusion (hfast'.symm.trans hslow), fun _ => ?_⟩
      obtain ⟨stored, hback⟩ := hlater hfast
      exact hback.fire hrep₁ hen hfast hio hc

/-- **Outside fast mode every run is such a sequence of calls**, and what they have written is
what has been written to the client outside fast mode. -/
theorem Run.backlog {tr : List (Entry cfg L)} {c : Connection cfg L} (h : Run tr (.live c))
    (hdisk : ∀ e ∈ tr, e.io.DiskOk) (hslow : c.fastMode = false) :
    ∃ stored, Backlog stored ((slowCalls tr).flatMap (·.clientOut)) c := by
  obtain ⟨pool₀, id, h⟩ := h
  exact (h.backlog hdisk c rfl).2 hslow

end LSProxy
