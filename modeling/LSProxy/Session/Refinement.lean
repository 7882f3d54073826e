import LSProxy.Session.Spec

/-!
# The code refines the sessions

`Rep s conn` says that the connection `conn` is in the session `s`: for each phase, which pointers
are set, which events are pending and what the buffers hold. The history buffer is the only part
the session does not determine: of a Hybridbuf it knows the content, not the object nor what lies
in its memory past the content.

* `callback_refines` — a callback that can fire in a connection represented by a session does on
  the sockets what some step of the session does, and leaves a connection represented by the
  outcome of that step, whatever the scratch buffer and the pool hold;
* along the way no history buffer is duplicated (`World.histIds`).

There is one lemma for each handler, under the handler's name.
-/

namespace LSProxy

open Handler Session

variable {cfg : Config} {L : Llhttp}

/-! ### Representation -/

/-- The client of a connection in slow mode. -/
def slowClient (n : Counts) (b : SlowBufs) (readEvt writeEvt : Bool)
    (stale : Option (Circularbuf cfg.sockIoBufSize)) : Client cfg :=
  { readEvt := readEvt
    writeEvt := writeEvt
    queuedOutput := stale
    requestBuf := some b.request
    requestTmpBuf := some (.filled b.tmp)
    responseBuf := some (.queue b.sent b.unread)
    readCount := n.read
    writeCount := n.write
    requestHistory := none }

/-- `conn` is in the session `s`. -/
inductive Rep : Session cfg L → Connection cfg L → Prop
  | fresh {n : Counts} {h : Hist cfg} (hat : h.buf.At [] 0) :
      Rep ⟨n, .fresh⟩
        { client :=
            { readEvt := true
              readCount := n.read
              writeCount := n.write
              requestHistory := some h } }
  | fast {n : Counts} {p : HttpParser L} {hist : Bytes} {cq sq : Circularbuf cfg.sockIoBufSize}
      {cw sw : Bool} {h : Hist cfg} (hat : h.buf.At hist hist.length) :
      Rep ⟨n, .fast p hist cq sq cw sw⟩
        { client :=
            { readEvt := !sw
              writeEvt := cw
              queuedOutput := some cq
              readCount := n.read
              writeCount := n.write
              requestHistory := some h }
          server := some { readEvt := !cw, writeEvt := sw, queuedOutput := some sq }
          parser := some p }
  | reply {n : Counts} {cq : Circularbuf cfg.sockIoBufSize} {h : Hist cfg} :
      Rep ⟨n, .reply cq⟩
        { client :=
            { writeEvt := true
              queuedOutput := some cq
              readCount := n.read
              writeCount := n.write
              requestHistory := some h } }
  | transition {n : Counts} {p : HttpParser L} {b : SlowBufs}
      {sq : Option (Circularbuf cfg.sockIoBufSize)} {cw sw : Bool} :
      Rep ⟨n, .transition p b sq cw sw⟩
        { client := slowClient n b false cw none
          server := some
            { readEvt := true, readTimeout := true, writeEvt := sw, queuedOutput := sq }
          parser := some p
          fastMode := false
          inTransition := true }
  | idle {n : Counts} {p : HttpParser L} {b : SlowBufs}
      {stale : Option (Circularbuf cfg.sockIoBufSize)} {cw : Bool} :
      Rep ⟨n, .idle p b stale cw⟩
        { client := slowClient n b true cw stale
          parser := some p
          fastMode := false }
  | exchange {n : Counts} {p : HttpParser L} {b : SlowBufs}
      {stale : Option (Circularbuf cfg.sockIoBufSize)} {cw sw : Bool} :
      Rep ⟨n, .exchange p b stale cw sw⟩
        { client := slowClient n b false cw stale
          server := some { readEvt := true, writeEvt := sw }
          parser := some p
          fastMode := false }
  | slowReply {n : Counts} {b : SlowBufs} {stale : Option (Circularbuf cfg.sockIoBufSize)} :
      Rep ⟨n, .slowReply b stale⟩
        { client := slowClient n b false true stale
          fastMode := false }

/-- The identities of the history buffers in sight: those in the pool, and the client's own. -/
def World.histIds (w : World cfg L) : List ℕ :=
  w.pool.map (·.id) ++ (w.conn.client.requestHistory.map (·.id)).toList

/-- The result of a handler that started in `w₀` agrees with the calls and the outcome of a
step. -/
def Agrees (w₀ : World cfg L) (r : EStateM.Result Exit (World cfg L) Unit) (calls : List Call)
    (out : Outcome cfg L) : Prop :=
  match r, out with
  | .ok _ w, .live s =>
    Rep s w.conn ∧ w.calls = w₀.calls ++ calls ∧ w.histIds.Sublist w₀.histIds
  | .error .deleted w, .deleted => w.calls = w₀.calls ++ calls ∧ w.histIds.Sublist w₀.histIds
  | .error (.fault f) w, .crashed f' => f = f' ∧ w.calls = w₀.calls ++ calls
  | _, _ => False

/-- The handler does from `w` what one of the steps `S` does. -/
def Refines (x : Handler cfg L Unit) (w : World cfg L)
    (S : List Call → Outcome cfg L → Prop) : Prop :=
  ∃ calls out, S calls out ∧ Agrees w (x.run w) calls out

/-- What was done before the handler started comes first. -/
theorem Agrees.prepend {w₀ w : World cfg L} {r : EStateM.Result Exit (World cfg L) Unit}
    {calls : List Call} {out : Outcome cfg L} (h : Agrees w r calls out) (pre : List Call)
    (hcalls : w.calls = w₀.calls ++ pre) (hids : w.histIds.Sublist w₀.histIds) :
    Agrees w₀ r (pre ++ calls) out := by
  unfold Agrees at h ⊢
  rw [← List.append_assoc, ← hcalls]
  split at h
  · exact ⟨h.1, h.2.1, h.2.2.trans hids⟩
  · exact ⟨h.1, h.2.trans hids⟩
  · exact h
  · exact h

/-- A handler that leaves the connection alive, with its history or without it. -/
theorem agrees_live {w₀ w : World cfg L} {calls : List Call} {s : Session cfg L}
    (hrep : Rep s w.conn) (hcalls : w.calls = w₀.calls ++ calls)
    (hids : w.histIds.Sublist w₀.histIds) : Agrees w₀ (.ok () w) calls (.live s) :=
  ⟨hrep, hcalls, hids⟩

/-! ### Deleting a connection -/

/-- The pool after a client gives its history back. -/
def releaseTo (pool : List (Hist cfg)) : Option (Hist cfg) → List (Hist cfg)
  | some h =>
    if pool.length < cfg.maxHybridPool then pool ++ [⟨h.id, h.buf.clear⟩] else pool
  | none => pool

@[simp] theorem run_releaseRequestHistory (w : World cfg L) :
    Client.releaseRequestHistory.run w = .ok ()
      { w with
        pool := releaseTo w.pool w.conn.client.requestHistory
        conn := { w.conn with client := { w.conn.client with requestHistory := none } } } := by
  cases h : w.conn.client.requestHistory <;> simp [Client.releaseRequestHistory, h, releaseTo]

theorem releaseTo_ids (pool : List (Hist cfg)) (h : Option (Hist cfg)) :
    ((releaseTo pool h).map (·.id)).Sublist (pool.map (·.id) ++ (h.map (·.id)).toList) := by
  cases h with
  | none => simp [releaseTo]
  | some h =>
    simp only [releaseTo]
    split <;> simp

/-- `delete conn` closes what is open. -/
theorem agrees_delete {w₀ w : World cfg L} {calls : List Call} (io : Io)
    (hcalls : w.calls ++ ((if w.conn.server.isSome then [.closeServer] else []) ++ [.closeClient])
      = w₀.calls ++ calls)
    (hids : w.histIds.Sublist w₀.histIds) :
    Agrees w₀ ((Connection.delete io).run w) calls .deleted := by
  have hrel := (releaseTo_ids w.pool w.conn.client.requestHistory).trans hids
  cases hs : w.conn.server with
  | none =>
    rw [hs] at hcalls
    simpa [Connection.delete, Connection.freeClient, hs, Agrees, World.histIds] using
      ⟨hcalls, hrel⟩
  | some s =>
    rw [hs] at hcalls
    simpa [Connection.delete, Connection.freeClient, hs, Agrees, World.histIds] using
      ⟨hcalls, hrel⟩

/-! ### Fast mode -/

/-- The history buffer after `data` has been read and parsed, which left the parser `p`. -/
def record (io : Io) (p : HttpParser L) (buf : Hybridbuf cfg.histCacheSize) (data : Bytes) :
    Except Fault (Hybridbuf cfg.histCacheSize) :=
  match p.lastEom with
  | some k => buf.clear.store (io.disk 0) (data.drop k)
  | none => buf.store (io.disk 0) data

/-- The buffer holds what the session has recorded. -/
theorem record_at {p : HttpParser L} {hist : Bytes} {buf : Hybridbuf cfg.histCacheSize} (io : Io)
    (hat : buf.At hist hist.length) (data : Bytes) :
    (∃ f, recorded cfg io p hist data = .error f ∧ record io p buf data = .error f) ∨
      ∃ hist' buf', recorded cfg io p hist data = .ok hist' ∧ record io p buf data = .ok buf' ∧
        buf'.At hist' hist'.length := by
  unfold recorded record
  cases p.lastEom with
  | none => exact hat.store (io.disk 0) data
  | some k => exact (Hybridbuf.clear_at buf).store (io.disk 0) (data.drop k)

/-- `keep_track_request_history` on bytes the parser accepts. -/
theorem run_keepTrackRequestHistory {g : Scratch cfg.sockIoBufSize} {pool : List (Hist cfg)}
    {re we : Bool} {q : Option (Circularbuf cfg.sockIoBufSize)} {rb tb : Option Filebuf}
    {sb : Option FIFOfilebuf} {rc wc : ℕ} {h : Hist cfg} {s : Option (Server cfg)}
    {p p' : HttpParser L} {f t : Bool} {calls : List Call} {data : Bytes}
    {hle : data.length ≤ cfg.sockIoBufSize} (io : Io) (hp : p.doParse data = some p') :
    (Client.keepTrackRequestHistory io data.length).run
        ⟨g.put data hle, pool, ⟨⟨re, we, q, rb, tb, sb, rc, wc, some h⟩, s, some p, f, t⟩, calls⟩
      = match record io p' h.buf data with
        | .error e => .error (.fault e) ⟨g.put data hle, pool,
            ⟨⟨re, we, q, rb, tb, sb, rc, wc, some h⟩, s, some p', f, t⟩, calls⟩
        | .ok buf => .ok true ⟨g.put data hle, pool,
            ⟨⟨re, we, q, rb, tb, sb, rc, wc, some ⟨h.id, buf⟩⟩, s, some p', f, t⟩, calls⟩ := by
  unfold record
  cases hk : p'.lastEom with
  | none =>
    cases hs : h.buf.store (io.disk 0) data <;>
      simp [-bind_pure_comp, Client.keepTrackRequestHistory, hp, hk, hs]
  | some k =>
    cases hs : h.buf.clear.store (io.disk 0) (data.drop k) <;>
      simp [-bind_pure_comp, Client.keepTrackRequestHistory, hp, hk, hs]

/-- The world in which a connection in fast mode is read from the client. -/
abbrev fastWorld (g : Scratch cfg.sockIoBufSize) (pool : List (Hist cfg)) (n : Counts)
    (p : HttpParser L) (cq sq : Circularbuf cfg.sockIoBufSize) (cw sw : Bool) (h : Hist cfg)
    (calls : List Call) : World cfg L :=
  ⟨g, pool,
    { client :=
        { readEvt := !sw
          writeEvt := cw
          queuedOutput := some cq
          readCount := n.read
          writeCount := n.write
          requestHistory := some h }
      server := some { readEvt := !cw, writeEvt := sw, queuedOutput := some sq }
      parser := some p }, calls⟩

theorem fastForwardToServer_refines (g : Scratch cfg.sockIoBufSize) (pool : List (Hist cfg))
    (n : Counts) (p : HttpParser L) (hist : Bytes) (cq sq : Circularbuf cfg.sockIoBufSize)
    (cw : Bool) (h : Hist cfg) (calls : List Call) (io : Io)
    (hat : h.buf.At hist hist.length) :
    Refines (Connection.fastForwardToServer io) (fastWorld g pool n p cq sq cw false h calls)
      (FastForwardToServer n p hist cq sq cw io) := by
  unfold Refines Connection.fastForwardToServer
  simp only [EStateM.run_bind, run_getServerQueue, run_require_some, run_readClient, run_onClient,
    readAll_stat_nbytes]
  cases hp : p.doParse (readAll io.clientReads sq.remainingSpace).data with
  | none =>
    -- a malformed request: the connection stays while there is something to send back
    by_cases hcq : cq.contents = []
    · refine ⟨_, _, .malformedDelete rfl hp hcq, ?_⟩
      simp [Client.keepTrackRequestHistory, hp, (Circularbuf.dataSize_eq_zero_iff _).mpr hcq]
      exact agrees_delete io (by simp) (by simp [World.histIds])
    · refine ⟨_, _, .malformedReply rfl hp hcq, ?_⟩
      simp [Client.keepTrackRequestHistory, hp, (Circularbuf.dataSize_pos_iff _).mpr hcq]
      exact agrees_live .reply (by simp) (by simp [World.histIds])
  | some p' =>
    rw [run_keepTrackRequestHistory io hp]
    -- the disk may fail the history, before anything is forwarded
    rcases record_at (p := p') io hat (readAll io.clientReads sq.remainingSpace).data with
      ⟨f, hrec, hbuf⟩ | ⟨hist', buf', hrec, hbuf, hat'⟩
    · refine ⟨_, _, .histFault rfl hp hrec, ?_⟩
      simp [hbuf]
      exact ⟨rfl, by simp⟩
    · obtain ⟨sq', w, hw, -, -⟩ :=
        (sq.copyFrom (readAll io.clientReads sq.remainingSpace).data).1.writeAllTo_spec
          io.serverWrites
      cases heof : (readAll io.clientReads sq.remainingSpace).hasEof with
      | true =>
        refine ⟨_, _, .eof rfl hp hrec hw heof, ?_⟩
        simp [hbuf, hw, heof]
        exact agrees_delete io (by simp) (by simp [World.histIds])
      | false =>
        refine ⟨_, _, .forward rfl hp hrec hw heof, ?_⟩
        -- `nbytes == 0` is asked of what was written, not of what was to be written
        cases hd : w.data with
        | nil =>
          simp [hbuf, hw, heof, hd]
          exact agrees_live (.fast hat') (by simp) (by simp [World.histIds])
        | cons x xs =>
          simp [hbuf, hw, heof, hd]
          exact agrees_live (.fast hat') (by simp) (by simp [World.histIds])

theorem fastForwardToClient_refines (g : Scratch cfg.sockIoBufSize) (pool : List (Hist cfg))
    (n : Counts) (p : HttpParser L) (hist : Bytes) (cq sq : Circularbuf cfg.sockIoBufSize)
    (sw : Bool) (h : Hist cfg) (calls : List Call) (io : Io)
    (hat : h.buf.At hist hist.length) :
    Refines (Connection.fastForwardToClient io) (fastWorld g pool n p cq sq false sw h calls)
      (FastForwardToClient n p hist cq sq sw io) := by
  -- what has been read fits, so the assertion of `read_all_from` holds
  obtain ⟨-, hcopy⟩ :=
    Circularbuf.copyFrom_fits (readAll_length_le io.serverReads cq.remainingSpace)
  obtain ⟨cq', w, hw, -, -⟩ :=
    (cq.copyFrom (readAll io.serverReads cq.remainingSpace).data).1.writeAllTo_spec io.clientWrites
  unfold Refines
  cases heof : (readAll io.serverReads cq.remainingSpace).hasEof with
  | true =>
    -- the server has closed: what the client did not take decides
    by_cases hcq : cq'.contents = []
    · refine ⟨_, _, .eofDelete rfl hw heof hcq, ?_⟩
      simp [Connection.fastForwardToClient, hcopy, hw, heof,
        (Circularbuf.dataSize_eq_zero_iff _).mpr hcq]
      exact agrees_delete io (by simp) (by simp [World.histIds])
    · refine ⟨_, _, .eofReply rfl hw heof hcq, ?_⟩
      simp [Connection.fastForwardToClient, hcopy, hw, heof,
        (Circularbuf.dataSize_pos_iff _).mpr hcq]
      exact agrees_live .reply (by simp) (by simp [World.histIds])
  | false =>
    refine ⟨_, _, .forward rfl hw heof, ?_⟩
    cases hd : w.data <;> simp [Connection.fastForwardToClient, hcopy, hw, heof, hd] <;>
      exact agrees_live (.fast hat) (by simp) (by simp [World.histIds])

/-! ### Slow mode -/

/-- `send_response_slowly` with something to send: what the socket takes leaves `response_buf`. -/
theorem run_sendResponseSlowly_more {c : Connection cfg L} {sent unread : Bytes} {io : Io}
    {w : WriteOutcome} (hbuf : c.client.responseBuf = some (.queue sent unread))
    (hne : unread ≠ []) (hw : writeAll io.clientWrites (unread.take cfg.sockIoBufSize) = w)
    (g : Scratch cfg.sockIoBufSize) (pool : List (Hist cfg)) (calls : List Call) :
    ∃ g', (Client.sendResponseSlowly io).run ⟨g, pool, c, calls⟩ = .ok ()
      ⟨g', pool, { c with client := { c.client with
        responseBuf := some (.queue (sent ++ w.data) (unread.drop w.data.length)) } },
        calls ++ [.clientWrite w.data]⟩ := by
  subst hw
  have hle : (unread.take cfg.sockIoBufSize).length ≤ cfg.sockIoBufSize :=
    List.length_take_le _ _
  have hpos : 0 < (unread.take cfg.sockIoBufSize).length := by
    have hsize := cfg.sockIoBufSize_pos
    have hlen := List.length_pos_iff.mpr hne
    rw [List.length_take]
    omega
  have hpre := writeAll_isPrefix io.clientWrites (unread.take cfg.sockIoBufSize)
  have htake : unread.take (writeAll io.clientWrites (unread.take cfg.sockIoBufSize)).data.length
      = (writeAll io.clientWrites (unread.take cfg.sockIoBufSize)).data :=
    (List.prefix_iff_eq_take.mp (hpre.trans (List.take_prefix _ _))).symm
  refine ⟨g.put (unread.take cfg.sockIoBufSize) hle, ?_⟩
  by_cases hshort : (writeAll io.clientWrites (unread.take cfg.sockIoBufSize)).data.length
      < (unread.take cfg.sockIoBufSize).length
  · -- what the socket did not take goes back
    have hrewind := @FIFOfilebuf.rewind_queue sent _ _ _ hshort
    rw [htake] at hrewind
    simp [-List.length_take, Client.sendResponseSlowly, hbuf, FIFOfilebuf.fetch_queue, hpos,
      hshort, hrewind]
  · have hall : (writeAll io.clientWrites (unread.take cfg.sockIoBufSize)).data
        = unread.take cfg.sockIoBufSize :=
      hpre.eq_of_length (le_antisymm hpre.length_le (by omega))
    have hdrop : unread.drop (unread.take cfg.sockIoBufSize).length
        = unread.drop cfg.sockIoBufSize := by
      rw [List.length_take, List.drop_eq_drop_iff]
      omega
    simp [-List.length_take, Client.sendResponseSlowly, hbuf, FIFOfilebuf.fetch_queue, hpos, hall,
      hdrop]

/-- `send_response_slowly` with nothing left to send. -/
theorem run_sendResponseSlowly_last {c : Connection cfg L} {sent : Bytes}
    (hbuf : c.client.responseBuf = some (.queue sent [])) (g : Scratch cfg.sockIoBufSize)
    (pool : List (Hist cfg)) (calls : List Call) (io : Io) :
    ∃ g', (Client.sendResponseSlowly io).run ⟨g, pool, c, calls⟩
      = if c.parser.isNone then
          (Connection.delete io).run ⟨g', pool, { c with client := c.client.stopWriting }, calls⟩
        else .ok () ⟨g', pool, { c with client := c.client.stopWriting }, calls⟩ := by
  refine ⟨g.put [] (by simp), ?_⟩
  cases hp : c.parser <;>
    simp [Client.sendResponseSlowly, hbuf, FIFOfilebuf.fetch_queue, hp]

/-- `send_response_slowly`, up to the deletion of a connection whose parser is gone. -/
theorem run_sendResponseSlowly (g : Scratch cfg.sockIoBufSize) (pool : List (Hist cfg))
    (n : Counts) (b : SlowBufs) (re : Bool) (stale : Option (Circularbuf cfg.sockIoBufSize))
    (s : Option (Server cfg)) (p : Option (HttpParser L)) (f t : Bool) (calls : List Call)
    (io : Io) :
    ∃ calls' b' cw g', Deliver cfg b io calls' b' cw ∧
      (Client.sendResponseSlowly io).run
          ⟨g, pool, ⟨slowClient n b re true stale, s, p, f, t⟩, calls⟩
        = if cw = false ∧ p.isNone then
            (Connection.delete io).run
              ⟨g', pool, ⟨slowClient n b' re cw stale, s, p, f, t⟩, calls ++ calls'⟩
          else .ok () ⟨g', pool, ⟨slowClient n b' re cw stale, s, p, f, t⟩, calls ++ calls'⟩ := by
  obtain ⟨request, tmp, sent, unread⟩ := b
  by_cases hb : unread = []
  · subst hb
    obtain ⟨g', hrun⟩ := run_sendResponseSlowly_last
      (c := ⟨slowClient n ⟨request, tmp, sent, []⟩ re true stale, s, p, f, t⟩) rfl g pool calls io
    refine ⟨[], _, false, g', .none rfl, ?_⟩
    rw [hrun]
    simp [slowClient]
  · obtain ⟨g', hrun⟩ := run_sendResponseSlowly_more
      (c := ⟨slowClient n ⟨request, tmp, sent, unread⟩ re true stale, s, p, f, t⟩) rfl hb rfl
      g pool calls
    refine ⟨_, _, true, g', .some hb rfl, ?_⟩
    rw [hrun]
    simp [slowClient]

/-- `recv_to_buffer_slowly` of the client, from the end of the first message on. -/
theorem dispatchRequest_refines (g : Scratch cfg.sockIoBufSize) (pool : List (Hist cfg))
    (n : Counts) (p : HttpParser L) (b : SlowBufs) (cw : Bool)
    (stale : Option (Circularbuf cfg.sockIoBufSize)) (calls : List Call) (io : Io) {data : Bytes}
    {k : ℕ} (hk : k ≤ data.length) (hle : data.length ≤ cfg.sockIoBufSize) :
    Refines (Client.dispatchRequest io data.length k)
      ⟨g.put data hle, pool, ⟨slowClient n b true cw stale, none, some p, false, false⟩, calls⟩
      (Dispatch n p k data b stale cw io) := by
  have hfirst := Scratch.first_put_of_le (g := g) (h := hle) hk
  unfold Refines
  cases hr : b.request.store (io.disk 0) (data.take k) with
  | error f =>
    refine ⟨_, _, .storeFault hr, ?_⟩
    simp [Client.dispatchRequest, slowClient, hfirst, hr]
    exact ⟨rfl, by simp⟩
  | ok r =>
    cases ht : (Filebuf.filled b.tmp).store (io.disk 1) (data.drop k) with
    | error f =>
      have hmore : 0 < data.length - k := by
        by_contra h0
        rw [List.drop_eq_nil_of_le (by omega), Filebuf.store_filled_nil] at ht
        exact absurd ht (by simp)
      refine ⟨_, _, .tmpFault hr ht, ?_⟩
      simp [Client.dispatchRequest, slowClient, hfirst, hr, ht, hmore]
      exact ⟨rfl, by simp⟩
    | ok t =>
      obtain ⟨tmp, rfl⟩ := Filebuf.store_filled_ok ht
      -- with nothing left over the second store is not made, and would change nothing
      have htmp : (if 0 < data.length - k then Filebuf.filled tmp else .filled b.tmp)
          = .filled tmp := by
        split
        · rfl
        · rw [List.drop_eq_nil_of_le (by omega), Filebuf.store_filled_nil] at ht
          exact Except.ok.inj ht
      -- everything is stored before the server is connected to
      cases hc : io.connectOk with
      | false =>
        refine ⟨_, _, .refused hr ht hc, ?_⟩
        by_cases hmore : 0 < data.length - k <;>
          simp [Client.dispatchRequest, slowClient, hfirst, hr, ht, hmore, hc] <;>
          exact agrees_delete io (by simp) (by simp [World.histIds])
      | true =>
        refine ⟨_, _, .connect hr ht hc, ?_⟩
        by_cases hmore : 0 < data.length - k
        · simp [Client.dispatchRequest, slowClient, hfirst, hr, ht, hmore, hc]
          exact agrees_live .exchange (by simp) (by simp [World.histIds])
        · rw [if_neg hmore] at htmp
          simp [Client.dispatchRequest, slowClient, hfirst, hr, hmore, hc, htmp]
          exact agrees_live .exchange (by simp) (by simp [World.histIds])

/-- `recv_to_buffer_slowly` of the client. -/
theorem recvToBufferSlowly_client_refines (g : Scratch cfg.sockIoBufSize) (pool : List (Hist cfg))
    (n : Counts) (p : HttpParser L) (b : SlowBufs) (cw : Bool)
    (stale : Option (Circularbuf cfg.sockIoBufSize)) (calls : List Call) (io : Io) :
    Refines (Client.recvToBufferSlowly io)
      ⟨g, pool, ⟨slowClient n b true cw stale, none, some p, false, false⟩, calls⟩
      (Step ⟨n, .idle p b stale cw⟩ .clientReadable io) := by
  unfold Refines
  have hle := readAll_length_le io.clientReads cfg.sockIoBufSize
  cases heof : (readAll io.clientReads cfg.sockIoBufSize).hasEof with
  | true =>
    refine ⟨_, _, .idleEof rfl heof, ?_⟩
    simp [Client.recvToBufferSlowly, heof]
    exact agrees_delete io (by simp) (by simp [World.histIds])
  | false =>
    cases hp : p.doParse (readAll io.clientReads cfg.sockIoBufSize).data with
    | none =>
      -- `response_buf->data_size` counts what has been sent too
      by_cases hb : b.sent ++ b.unread = []
      · refine ⟨_, _, .idleMalformedDelete rfl heof hp hb, ?_⟩
        simp at hb
        simp [Client.recvToBufferSlowly, heof, hp, slowClient, hb]
        exact agrees_delete io (by simp) (by simp [World.histIds])
      · refine ⟨_, _, .idleMalformedReply rfl heof hp hb, ?_⟩
        have hpos : 0 < b.sent.length + b.unread.length := by
          rw [← List.length_append]
          exact List.length_pos_iff.mpr hb
        simp [Client.recvToBufferSlowly, heof, hp, slowClient, hpos]
        exact agrees_live .slowReply (by simp) (by simp [World.histIds])
    | some p' =>
      cases hk : p'.firstEom with
      | none =>
        -- the message goes on: all of the read is stored
        cases hr : b.request.store (io.disk 0)
            (readAll io.clientReads cfg.sockIoBufSize).data with
        | error f =>
          refine ⟨_, _, .idleFault rfl heof hp hk hr, ?_⟩
          simp [Client.recvToBufferSlowly, heof, hp, slowClient, hk, hr]
          exact ⟨rfl, by simp⟩
        | ok r =>
          refine ⟨_, _, .idleRead rfl heof hp hk hr, ?_⟩
          simp [Client.recvToBufferSlowly, heof, hp, slowClient, hk, hr]
          exact agrees_live .idle (by simp) (by simp [World.histIds])
      | some k =>
        -- it ends in this read: a server is connected
        obtain ⟨calls', out, hd, ha⟩ := dispatchRequest_refines g pool n p' b cw stale
          (calls ++ [.clientRead (readAll io.clientReads cfg.sockIoBufSize).data]) io
          (HttpParser.doParse_firstEom_le hp hk) hle
        refine ⟨_, _, .idleDispatch rfl heof hp hk hd, ?_⟩
        simp [Client.recvToBufferSlowly, heof, hp, hk]
        exact ha.prepend [.clientRead _] rfl (by simp [World.histIds])

theorem onReadable_client_refines {s : Session cfg L} {c : Connection cfg L} (hrep : Rep s c)
    (hen : c.enabled .clientReadable = true) (g : Scratch cfg.sockIoBufSize)
    (pool : List (Hist cfg)) (calls : List Call) (io : Io) :
    Refines (Client.onReadable io) ⟨g, pool, c, calls⟩ (Step s .clientReadable io) := by
  cases hrep with
  | @fresh n h hat =>
    -- the first readable event connects, then forwards
    cases hc : io.connectOk with
    | false =>
      refine ⟨_, _, .freshRefused hc, ?_⟩
      simp [Client.onReadable, hc]
      exact agrees_delete io (by simp) (by simp [World.histIds])
    | true =>
      obtain ⟨calls', out, hff, ha⟩ := fastForwardToServer_refines g pool n (.new L) []
        (.new cfg.sockIoBufSize_pos) (.new cfg.sockIoBufSize_pos) false h (calls ++ [.connect]) io
        hat
      refine ⟨_, _, .freshConnect hc hff, ?_⟩
      simp [Client.onReadable, hc]
      exact ha.prepend [.connect] rfl (by simp [World.histIds])
  | @fast n p hist cq sq cw sw h hat =>
    -- a pending writing event of the server keeps the reading event off
    obtain rfl : sw = false := by simpa [Connection.enabled] using hen
    obtain ⟨calls', out, hff, ha⟩ :=
      fastForwardToServer_refines g pool n p hist cq sq cw h calls io hat
    refine ⟨_, _, .fastClientReadable hff, ?_⟩
    simp [Client.onReadable]
    exact ha
  -- from here on the reading event is pending in `idle` only
  | reply => simp [Connection.enabled] at hen
  | transition => simp [Connection.enabled, slowClient] at hen
  | @idle n p b stale cw =>
    obtain ⟨calls', out, hst, ha⟩ :=
      recvToBufferSlowly_client_refines g pool n p b cw stale calls io
    refine ⟨_, _, hst, ?_⟩
    simp [Client.onReadable]
    exact ha
  | exchange => simp [Connection.enabled, slowClient] at hen
  | slowReply => simp [Connection.enabled, slowClient] at hen

theorem onWritable_client_refines {s : Session cfg L} {c : Connection cfg L} (hrep : Rep s c)
    (hen : c.enabled .clientWritable = true) (g : Scratch cfg.sockIoBufSize)
    (pool : List (Hist cfg)) (calls : List Call) (io : Io) :
    Refines (Client.onWritable io) ⟨g, pool, c, calls⟩ (Step s .clientWritable io) := by
  cases hrep with
  | fresh => simp [Connection.enabled] at hen
  | @fast n p hist cq sq cw sw h hat =>
    obtain rfl : cw = true := by simpa [Connection.enabled] using hen
    obtain ⟨cq', w, hw, -, -⟩ := cq.writeAllTo_spec io.clientWrites
    refine ⟨_, _, .fastClientWritable hw, ?_⟩
    simp [Client.onWritable, hw]
    exact agrees_live (.fast hat) (by simp) (by simp [World.histIds])
  | @reply n cq h =>
    obtain ⟨cq', w, hw, -, -⟩ := cq.writeAllTo_spec io.clientWrites
    -- an error for good gives up the rest
    by_cases hdone : (w.hasError = true ∧ w.errno = .other) ∨ cq'.contents = []
    · refine ⟨_, _, .replyDone hw hdone, ?_⟩
      rw [← Circularbuf.dataSize_eq_zero_iff] at hdone
      simp [Client.onWritable, hw, hdone]
      exact agrees_delete io (by simp) (by simp [World.histIds])
    · refine ⟨_, _, .replyMore hw hdone, ?_⟩
      rw [← Circularbuf.dataSize_eq_zero_iff] at hdone
      simp [Client.onWritable, hw, hdone]
      exact agrees_live .reply (by simp) (by simp [World.histIds])
  | @transition n p b sq cw sw =>
    -- slow mode: what is sent is `send_response_slowly` in every phase
    obtain rfl : cw = true := by simpa [Connection.enabled, slowClient] using hen
    obtain ⟨calls', b', cw', g', hd, hrun⟩ := run_sendResponseSlowly g pool n b false none
      (some { readEvt := true, readTimeout := true, writeEvt := sw, queuedOutput := sq })
      (some p) false true calls io
    refine ⟨_, _, .transitionDeliver hd, ?_⟩
    simp [Client.onWritable, hrun]
    exact agrees_live .transition (by simp) (by simp [World.histIds, slowClient])
  | @idle n p b stale cw =>
    obtain rfl : cw = true := by simpa [Connection.enabled, slowClient] using hen
    obtain ⟨calls', b', cw', g', hd, hrun⟩ := run_sendResponseSlowly g pool n b true stale none
      (some p) false false calls io
    refine ⟨_, _, .idleDeliver hd, ?_⟩
    simp [Client.onWritable, hrun]
    exact agrees_live .idle (by simp) (by simp [World.histIds, slowClient])
  | @exchange n p b stale cw sw =>
    obtain rfl : cw = true := by simpa [Connection.enabled, slowClient] using hen
    obtain ⟨calls', b', cw', g', hd, hrun⟩ := run_sendResponseSlowly g pool n b false stale
      (some { readEvt := true, writeEvt := sw }) (some p) false false calls io
    refine ⟨_, _, .exchangeDeliver hd, ?_⟩
    simp [Client.onWritable, hrun]
    exact agrees_live .exchange (by simp) (by simp [World.histIds, slowClient])
  | @slowReply n b stale =>
    obtain ⟨calls', b', cw', g', hd, hrun⟩ := run_sendResponseSlowly (L := L) g pool n b false
      stale none none false false calls io
    -- the parser is gone, so the last delivery deletes the connection
    cases cw' with
    | true =>
      refine ⟨_, _, .slowReplyDeliver hd, ?_⟩
      simp [Client.onWritable, hrun]
      exact agrees_live .slowReply (by simp) (by simp [World.histIds, slowClient])
    | false =>
      refine ⟨_, _, .slowReplyDone hd, ?_⟩
      simp [Client.onWritable, hrun]
      exact agrees_delete io (by simp) (by simp [World.histIds, slowClient])

/-- `send_request_slowly` with something to send: the cursor moves past what the socket takes. -/
theorem run_sendRequestSlowly_more {c : Connection cfg L} {r : Filebuf} {io : Io} {w : WriteOutcome}
    (hreq : c.client.requestBuf = some r) (hne : (r.fetch cfg.sockIoBufSize).2 ≠ [])
    (hw : writeAll io.serverWrites (r.fetch cfg.sockIoBufSize).2 = w)
    (g : Scratch cfg.sockIoBufSize) (pool : List (Hist cfg)) (calls : List Call) :
    ∃ g', (Server.sendRequestSlowly io).run ⟨g, pool, c, calls⟩ = .ok ()
      ⟨g', pool, { c with client := { c.client with
        requestBuf := some { r with offset := r.offset + w.data.length } } },
        calls ++ [.serverWrite w.data]⟩ := by
  subst hw
  have hpos := List.length_pos_iff.mpr hne
  have hpre := writeAll_isPrefix io.serverWrites (r.fetch cfg.sockIoBufSize).2
  refine ⟨g.put _ (r.fetch_length_le cfg.sockIoBufSize), ?_⟩
  by_cases hshort : (writeAll io.serverWrites (r.fetch cfg.sockIoBufSize).2).data.length
      < (r.fetch cfg.sockIoBufSize).2.length
  · -- what the socket did not take goes back
    simp [Server.sendRequestSlowly, hreq, hpos, hshort, Filebuf.rewind_fetch hshort]
  · have hall : (writeAll io.serverWrites (r.fetch cfg.sockIoBufSize).2).data
        = (r.fetch cfg.sockIoBufSize).2 := hpre.eq_of_length (le_antisymm hpre.length_le (by omega))
    simp [Server.sendRequestSlowly, hreq, hpos, hall]
    rfl

/-- `send_request_slowly` with nothing left to send. -/
theorem run_sendRequestSlowly_last {c : Connection cfg L} {r t : Filebuf} {s : Server cfg}
    (hreq : c.client.requestBuf = some r) (htmp : c.client.requestTmpBuf = some t)
    (hserver : c.server = some s) (hnil : (r.fetch cfg.sockIoBufSize).2 = [])
    (g : Scratch cfg.sockIoBufSize) (pool : List (Hist cfg)) (calls : List Call) (io : Io) :
    ∃ g', (Server.sendRequestSlowly io).run ⟨g, pool, c, calls⟩ = .ok ()
      ⟨g', pool, { c with
        client := { c.client with requestBuf := some t, requestTmpBuf := some r.clear }
        server := some s.stopWriting }, calls⟩ := by
  refine ⟨g.put _ (r.fetch_length_le cfg.sockIoBufSize), ?_⟩
  simp [Server.sendRequestSlowly, hreq, htmp, hserver, hnil]

/-- `send_request_slowly`. -/
theorem sendRequestSlowly_refines (g : Scratch cfg.sockIoBufSize) (pool : List (Hist cfg))
    (n : Counts) (p : HttpParser L) (b : SlowBufs) (cw : Bool)
    (stale : Option (Circularbuf cfg.sockIoBufSize)) (calls : List Call) (io : Io) :
    Refines (Server.sendRequestSlowly io)
      ⟨g, pool, ⟨slowClient n b false cw stale, some { readEvt := true, writeEvt := true },
        some p, false, false⟩, calls⟩
      (Step ⟨n, .exchange p b stale cw true⟩ .serverWritable io) := by
  unfold Refines
  by_cases hnil : (b.request.fetch cfg.sockIoBufSize).2 = []
  · refine ⟨_, _, .exchangeSwap hnil, ?_⟩
    obtain ⟨g', hrun⟩ := run_sendRequestSlowly_last (L := L)
      (c := ⟨slowClient n b false cw stale, some { readEvt := true, writeEvt := true },
        some p, false, false⟩) rfl rfl rfl hnil g pool calls io
    rw [hrun]
    exact agrees_live .exchange (by simp) (by simp [World.histIds, slowClient])
  · refine ⟨_, _, .exchangeSend hnil rfl, ?_⟩
    obtain ⟨g', hrun⟩ := run_sendRequestSlowly_more (L := L)
      (c := ⟨slowClient n b false cw stale, some { readEvt := true, writeEvt := true },
        some p, false, false⟩) rfl hnil rfl g pool calls
    rw [hrun]
    exact agrees_live .exchange (by simp) (by simp [World.histIds, slowClient])

theorem onWritable_server_refines {s : Session cfg L} {c : Connection cfg L} (hrep : Rep s c)
    (hen : c.enabled .serverWritable = true) (g : Scratch cfg.sockIoBufSize)
    (pool : List (Hist cfg)) (calls : List Call) (io : Io) :
    Refines (Server.onWritable io) ⟨g, pool, c, calls⟩ (Step s .serverWritable io) := by
  cases hrep with
  | fresh => simp [Connection.enabled] at hen
  | @fast n p hist cq sq cw sw h hat =>
    obtain rfl : sw = true := by simpa [Connection.enabled] using hen
    obtain ⟨sq', w, hw, -, -⟩ := sq.writeAllTo_spec io.serverWrites
    refine ⟨_, _, .fastServerWritable hw, ?_⟩
    simp [Server.onWritable, hw]
    exact agrees_live (.fast hat) (by simp) (by simp [World.histIds])
  | reply => simp [Connection.enabled] at hen
  | @transition n p b sq cw sw =>
    obtain rfl : sw = true := by simpa [Connection.enabled] using hen
    -- an empty queue was freed at the switch, with the writing event still pending
    cases sq with
    | none =>
      refine ⟨_, _, .transitionNull, ?_⟩
      simp [Server.onWritable]
      exact ⟨rfl, by simp⟩
    | some sq =>
      obtain ⟨sq', w, hw, -, -⟩ := sq.writeAllTo_spec io.serverWrites
      -- drained: `free_queued_output` leaves the null pointer that is read next
      by_cases hsq : sq'.contents = []
      · refine ⟨_, _, .transitionDrained hw hsq, ?_⟩
        simp [Server.onWritable, Server.freeQueuedOutput, hw,
          (Circularbuf.dataSize_eq_zero_iff _).mpr hsq]
        exact ⟨rfl, by simp⟩
      · refine ⟨_, _, .transitionWrite hw hsq, ?_⟩
        have hne : sq'.dataSize ≠ 0 := (Circularbuf.dataSize_eq_zero_iff _).not.mpr hsq
        simp [Server.onWritable, hw, hne]
        exact agrees_live .transition (by simp) (by simp [World.histIds, slowClient])
  | idle => simp [Connection.enabled] at hen
  | @exchange n p b stale cw sw =>
    obtain rfl : sw = true := by simpa [Connection.enabled] using hen
    obtain ⟨calls', out, hst, ha⟩ := sendRequestSlowly_refines g pool n p b cw stale calls io
    refine ⟨_, _, hst, ?_⟩
    simp [Server.onWritable]
    exact ha
  | slowReply => simp [Connection.enabled] at hen

/-- `recv_to_buffer_slowly` of the server. -/
theorem recvToBufferSlowly_server_refines (g : Scratch cfg.sockIoBufSize) (pool : List (Hist cfg))
    (n : Counts) (p : HttpParser L) (b : SlowBufs) (cw sw : Bool)
    (stale : Option (Circularbuf cfg.sockIoBufSize)) (calls : List Call) (io : Io) :
    Refines (Server.recvToBufferSlowly io)
      ⟨g, pool, ⟨slowClient n b false cw stale, some { readEvt := true, writeEvt := sw },
        some p, false, false⟩, calls⟩
      (Step ⟨n, .exchange p b stale cw sw⟩ (.serverReadable false) io) := by
  unfold Refines
  cases hw : written (io.disk 0) (readAll io.serverReads cfg.sockIoBufSize).data.length with
  | none =>
    refine ⟨_, _, .exchangeFault rfl hw, ?_⟩
    simp [Server.recvToBufferSlowly, slowClient, FIFOfilebuf.store_queue, hw]
    exact ⟨rfl, by simp⟩
  | some k =>
    -- the response is stored before it is parsed
    cases hp : p.doParse (readAll io.serverReads cfg.sockIoBufSize).data with
    | none =>
      by_cases hb : b.sent ++ (b.unread ++
          (readAll io.serverReads cfg.sockIoBufSize).data.take k) = []
      · refine ⟨_, _, .exchangeMalformedDelete rfl hw hp hb, ?_⟩
        have h0 : b.sent.length + (b.unread ++
            (readAll io.serverReads cfg.sockIoBufSize).data.take k).length = 0 := by
          rw [← List.length_append, hb, List.length_nil]
        simp [-List.length_append, Server.recvToBufferSlowly, slowClient,
          FIFOfilebuf.store_queue, hw, hp, h0]
        exact agrees_delete io (by simp) (by simp [World.histIds])
      · refine ⟨_, _, .exchangeMalformedReply rfl hw hp hb, ?_⟩
        have hpos : 0 < b.sent.length + (b.unread ++
            (readAll io.serverReads cfg.sockIoBufSize).data.take k).length := by
          rw [← List.length_append]
          exact List.length_pos_iff.mpr hb
        simp [-List.length_append, Server.recvToBufferSlowly, slowClient,
          FIFOfilebuf.store_queue, hw, hp, hpos]
        exact agrees_live .slowReply (by simp) (by simp [World.histIds])
    | some p' =>
      -- an end of message counts as the end of the exchange, like a closed server
      by_cases hend : (readAll io.serverReads cfg.sockIoBufSize).hasEof = true ∨
          p'.lastEom.isSome = true
      · refine ⟨_, _, .exchangeEnd rfl hw hp hend, ?_⟩
        simp [Server.recvToBufferSlowly, slowClient, FIFOfilebuf.store_queue, hw, hp, hend]
        exact agrees_live .idle (by simp) (by simp [World.histIds])
      · refine ⟨_, _, .exchangeRead rfl hw hp hend, ?_⟩
        simp [-not_or, Server.recvToBufferSlowly, slowClient, FIFOfilebuf.store_queue, hw, hp, hend]
        exact agrees_live .exchange (by simp) (by simp [World.histIds])

theorem onReadable_server_refines {s : Session cfg L} {c : Connection cfg L} {timeout : Bool}
    (hrep : Rep s c) (hen : c.enabled (.serverReadable timeout) = true)
    (g : Scratch cfg.sockIoBufSize) (pool : List (Hist cfg)) (calls : List Call) (io : Io) :
    Refines (Server.onReadable timeout io) ⟨g, pool, c, calls⟩
      (Step s (.serverReadable timeout) io) := by
  cases hrep with
  | fresh => cases timeout <;> simp [Connection.enabled] at hen
  | @fast n p hist cq sq cw sw h hat =>
    -- outside the transition the reading event has no timeout
    cases timeout with
    | true => simp [Connection.enabled] at hen
    | false =>
      obtain rfl : cw = false := by simpa [Connection.enabled] using hen
      obtain ⟨calls', out, hff, ha⟩ :=
        fastForwardToClient_refines g pool n p hist cq sq sw h calls io hat
      refine ⟨_, _, .fastServerReadable hff, ?_⟩
      simp [Server.onReadable]
      exact ha
  | reply => cases timeout <;> simp [Connection.enabled] at hen
  | @transition n p b sq cw sw =>
    -- a timeout in the transition is taken for the end of the response
    cases timeout with
    | true =>
      refine ⟨_, _, .transitionTimeout, ?_⟩
      simp [Server.onReadable]
      exact agrees_live .idle (by simp) (by simp [World.histIds, slowClient])
    | false =>
      cases heof : (readAll io.serverReads cfg.sockIoBufSize).hasEof with
      | true =>
        refine ⟨_, _, .transitionEof rfl heof, ?_⟩
        simp [Server.onReadable, heof]
        exact agrees_live .idle (by simp) (by simp [World.histIds, slowClient])
      | false =>
        cases hw : written (io.disk 0)
            (readAll io.serverReads cfg.sockIoBufSize).data.length with
        | none =>
          refine ⟨_, _, .transitionFault rfl heof hw, ?_⟩
          simp [Server.onReadable, heof, slowClient, FIFOfilebuf.store_queue, hw]
          exact ⟨rfl, by simp⟩
        | some k =>
          refine ⟨_, _, .transitionRead rfl heof hw, ?_⟩
          simp [Server.onReadable, heof, slowClient, FIFOfilebuf.store_queue, hw]
          exact agrees_live .transition (by simp) (by simp [World.histIds])
  | idle => cases timeout <;> simp [Connection.enabled] at hen
  | @exchange n p b stale cw sw =>
    cases timeout with
    | true => simp [Connection.enabled] at hen
    | false =>
      obtain ⟨calls', out, hst, ha⟩ :=
        recvToBufferSlowly_server_refines g pool n p b cw sw stale calls io
      refine ⟨_, _, hst, ?_⟩
      simp [Server.onReadable]
      exact ha
  | slowReply => cases timeout <;> simp [Connection.enabled] at hen

/-! ### Ticks and signals -/

/-- The loop that empties the client's queue ends after one round. -/
theorem Circularbuf.dumpAll_spec {size : ℕ} (q : Circularbuf size) (disk : ℕ → List WriteResult) :
    (q.dumpAll disk q.dataSize (.queue [] []) = .error .errorExit ∧
        ∃ k n, written (disk k) n = none) ∨
      ∃ q' stored, q.dumpAll disk q.dataSize (.queue [] []) = .ok (q', .queue [] stored) ∧
        ((∀ k n, written (disk k) n = some n) → stored = q.contents) := by
  rcases hsize : q.dataSize with _ | rounds
  · refine Or.inr ⟨q, [], rfl, fun _ => ?_⟩
    exact ((Circularbuf.dataSize_eq_zero_iff q).mp hsize).symm
  · unfold Circularbuf.dumpAll
    rw [if_pos (by omega)]
    rcases q.dumpTo_spec disk [] [] with ⟨herr, hlost⟩ | ⟨q', stored, hok, hnil, hall⟩
    · rw [herr]
      exact Or.inl ⟨rfl, hlost⟩
    · rw [hok]
      have h0 : q'.dataSize = 0 := (Circularbuf.dataSize_eq_zero_iff q').mpr hnil
      refine Or.inr ⟨q', stored, ?_, hall⟩
      cases rounds <;> simp [Circularbuf.dumpAll, h0]

/-- The outcome of a switch to slow mode. -/
def switchOutcome (n : Counts) : Except Fault (Phase cfg L) → Outcome cfg L
  | .ok ph => .live ⟨n, ph⟩
  | .error f => .crashed f

/-- `set_slow_mode` on a connection that has a server. -/
theorem startTransition_agrees (g : Scratch cfg.sockIoBufSize) (pool : List (Hist cfg))
    (n : Counts) (p : HttpParser L) (hist : Bytes) (cq sq : Circularbuf cfg.sockIoBufSize)
    (cw sw : Bool) (h : Hist cfg) (calls : List Call) (io : Io)
    (hat : h.buf.At hist hist.length) :
    ∃ e, SlowSwitch io (.fast p hist cq sq cw sw) e ∧
      Agrees (fastWorld g pool n p cq sq cw sw h calls)
        ((Connection.setSlowMode io).run (fastWorld g pool n p cq sq cw sw h calls)) []
        (switchOutcome n e) := by
  have hids := releaseTo_ids pool (some h)
  rcases hat.copyData cfg.histCacheSize_lt cfg.sockIoBufSize_pos (fun k => io.disk (k + 2)) g {}
    with ⟨f, hcopy, hrun⟩ | ⟨c, g', buf, hcopy, hrun⟩
  · refine ⟨_, .copyFault hcopy, ?_⟩
    -- the server's queue is looked at first, and is not the reason to fail
    by_cases hsq : 0 < sq.dataSize <;>
      simp [Connection.setSlowMode, Connection.startTransition, Server.freeQueuedOutput, hrun,
        hsq] <;>
      exact ⟨rfl, by simp⟩
  · rcases cq.dumpAll_spec io.disk with ⟨hdump, -⟩ | ⟨cq', stored, hdump, -⟩
    · refine ⟨_, .dumpFault hcopy hdump, ?_⟩
      rw [FIFOfilebuf.queue_nil] at hdump
      by_cases hsq : 0 < sq.dataSize <;>
        simp [Connection.setSlowMode, Connection.startTransition, Server.freeQueuedOutput, hrun,
          hsq, hdump] <;>
        exact ⟨rfl, by simp⟩
    · refine ⟨_, .fast hcopy hdump, ?_⟩
      rw [FIFOfilebuf.queue_nil] at hdump
      -- the history goes back to the pool, which may be full
      have hrel : ((releaseTo pool (some ⟨h.id, buf⟩)).map (·.id)).Sublist
          (pool.map (·.id) ++ [h.id]) := releaseTo_ids pool (some ⟨h.id, buf⟩)
      -- an empty queue of the server is freed, and its writing event left alone
      by_cases hsq : sq.contents = []
      · have h0 := (Circularbuf.dataSize_eq_zero_iff _).mpr hsq
        simp [Connection.setSlowMode, Connection.startTransition, Server.freeQueuedOutput,
          Client.freeQueuedOutput, hrun, hsq, h0, hdump]
        exact agrees_live .transition (by simp) (by simpa [World.histIds] using hrel)
      · have hpos := (Circularbuf.dataSize_pos_iff _).mpr hsq
        have hemp : sq.contents.isEmpty = false := List.isEmpty_eq_false_iff.mpr hsq
        simp [Connection.setSlowMode, Connection.startTransition, Server.freeQueuedOutput,
          Client.freeQueuedOutput, hrun, hsq, hemp, hpos, hdump]
        exact agrees_live .transition (by simp) (by simpa [World.histIds] using hrel)

/-- `set_slow_mode` on a connection in fast mode. It makes no call on the sockets. -/
theorem setSlowMode_agrees {n : Counts} {ph : Phase cfg L} {c : Connection cfg L}
    (hrep : Rep ⟨n, ph⟩ c) (hfast : ph.isFast = true) (g : Scratch cfg.sockIoBufSize)
    (pool : List (Hist cfg)) (calls : List Call) (io : Io) :
    ∃ e, SlowSwitch io ph e ∧
      Agrees ⟨g, pool, c, calls⟩ ((Connection.setSlowMode io).run ⟨g, pool, c, calls⟩) []
        (switchOutcome n e) := by
  cases hrep with
  | @fresh _ h hat =>
    refine ⟨_, .fresh, ?_⟩
    simp [Connection.setSlowMode]
    exact agrees_live .idle (by simp) (by simpa [World.histIds] using releaseTo_ids pool (some h))
  | @reply _ cq h =>
    refine ⟨_, .reply, ?_⟩
    simp [Connection.setSlowMode]
    exact agrees_live .idle (by simp) (by simpa [World.histIds] using releaseTo_ids pool (some h))
  | @fast _ p hist cq sq cw sw h hat =>
    exact startTransition_agrees g pool n p hist cq sq cw sw h calls io hat
  | transition => simp [Phase.isFast] at hfast
  | idle => simp [Phase.isFast] at hfast
  | exchange => simp [Phase.isFast] at hfast
  | slowReply => simp [Phase.isFast] at hfast

theorem Rep.fastMode {s : Session cfg L} {c : Connection cfg L} (hrep : Rep s c) :
    c.fastMode = s.phase.isFast := by
  cases hrep <;> rfl

theorem Rep.counts {s : Session cfg L} {c : Connection cfg L} (hrep : Rep s c) :
    c.client.readCount = s.counts.read ∧ c.client.writeCount = s.counts.write := by
  cases hrep <;> exact ⟨rfl, rfl⟩

theorem Rep.hasServer {s : Session cfg L} {c : Connection cfg L} (hrep : Rep s c) :
    c.server.isSome = s.phase.hasServer := by
  cases hrep <;> rfl

theorem Rep.resetCounts {n : Counts} {ph : Phase cfg L} {c : Connection cfg L}
    (hrep : Rep ⟨n, ph⟩ c) :
    Rep ⟨{}, ph⟩ { c with client := { c.client with readCount := 0, writeCount := 0 } } := by
  cases hrep with
  | fresh hat => exact .fresh hat
  | fast hat => exact .fast hat
  | reply => exact .reply
  | transition => exact .transition
  | idle => exact .idle
  | exchange => exact .exchange
  | slowReply => exact .slowReply

theorem setSlowMode_refines {s : Session cfg L} {c : Connection cfg L} (hrep : Rep s c)
    (g : Scratch cfg.sockIoBufSize) (pool : List (Hist cfg)) (calls : List Call) (io : Io) :
    Refines (Connection.setSlowMode io) ⟨g, pool, c, calls⟩ (Step s .slowSwitch io) := by
  obtain ⟨n, ph⟩ := s
  cases hfast : ph.isFast with
  | false =>
    refine ⟨_, _, .signalSlow hfast, ?_⟩
    simp [Connection.setSlowMode, hrep.fastMode, hfast]
    exact agrees_live hrep (by simp) (by simp)
  | true =>
    obtain ⟨e, hsw, ha⟩ := setSlowMode_agrees hrep hfast g pool calls io
    cases e with
    | error f => exact ⟨_, _, .signalFault hsw, ha⟩
    | ok ph' => exact ⟨_, _, .signalSwitch hsw, ha⟩

theorem monitorDataRates_refines {s : Session cfg L} {c : Connection cfg L} (hrep : Rep s c)
    (g : Scratch cfg.sockIoBufSize) (pool : List (Hist cfg)) (calls : List Call) (io : Io) :
    Refines (monitorDataRates io) ⟨g, pool, c, calls⟩ (Step s .monitor io) := by
  obtain ⟨n, ph⟩ := s
  obtain ⟨hread, hwrite⟩ := hrep.counts
  have hfm := hrep.fastMode
  by_cases hdrop : n.write < cfg.minDown ∧ n.read < cfg.minDown
  · refine ⟨_, _, .monitorDrop hdrop, ?_⟩
    simp [monitorDataRates, hread, hwrite, hdrop]
    exact agrees_delete io (by rw [hrep.hasServer]) (by simp)
  · by_cases hslow : ph.isFast = true ∧ n.read + n.write < cfg.minDtr
    · obtain ⟨hfast, hdtr⟩ := hslow
      obtain ⟨e, hsw, ha⟩ := setSlowMode_agrees hrep hfast g pool calls io
      -- the counters are reset after the switch, unless it has not returned
      have hrun : (monitorDataRates io).run ⟨g, pool, c, calls⟩
          = match (Connection.setSlowMode io).run ⟨g, pool, c, calls⟩ with
            | .ok _ w => .ok () { w with conn := { w.conn with
                client := { w.conn.client with readCount := 0, writeCount := 0 } } }
            | .error e w => .error e w := by
        simp [monitorDataRates, hread, hwrite, hdrop, hfm, hfast, hdtr]
        cases (Connection.setSlowMode io).run ⟨g, pool, c, calls⟩ <;> rfl
      cases e with
      | error f =>
        refine ⟨_, _, .monitorFault hdrop hfast hdtr hsw, ?_⟩
        rw [hrun]
        rcases hres : (Connection.setSlowMode io).run ⟨g, pool, c, calls⟩ with w | ⟨_ | f', w⟩
        all_goals rw [hres] at ha
        · exact ha.elim
        · exact ha.elim
        · exact ha
      | ok ph' =>
        refine ⟨_, _, .monitorSwitch hdrop hfast hdtr hsw, ?_⟩
        rw [hrun]
        rcases hres : (Connection.setSlowMode io).run ⟨g, pool, c, calls⟩ with w | ⟨_ | f', w⟩
        all_goals rw [hres] at ha
        · exact agrees_live ha.1.resetCounts ha.2.1 ha.2.2
        · exact ha.elim
        · exact ha.elim
    · refine ⟨_, _, .monitorKeep hdrop hslow, ?_⟩
      -- neither test holds: only the counters change
      have hslow' : ¬ (c.fastMode = true ∧ n.read + n.write < cfg.minDtr) := hfm ▸ hslow
      simp [-not_and, -not_lt, monitorDataRates, hread, hwrite, hdrop, hslow']
      exact agrees_live hrep.resetCounts (by simp) (by simp [World.histIds])

/-! ### All callbacks -/

/-- **The code refines the sessions.** A callback that can fire does what a step of the session
does. -/
theorem callback_refines {s : Session cfg L} {c : Connection cfg L} {cb : Callback}
    (hrep : Rep s c) (hen : c.enabled cb = true) (g : Scratch cfg.sockIoBufSize)
    (pool : List (Hist cfg)) (calls : List Call) (io : Io) :
    Refines (cb.handler io) ⟨g, pool, c, calls⟩ (Step s cb io) := by
  cases cb with
  | clientReadable => exact onReadable_client_refines hrep hen g pool calls io
  | clientWritable => exact onWritable_client_refines hrep hen g pool calls io
  | serverReadable timeout => exact onReadable_server_refines hrep hen g pool calls io
  | serverWritable => exact onWritable_server_refines hrep hen g pool calls io
  | monitor => exact monitorDataRates_refines hrep g pool calls io
  | slowSwitch => exact setSlowMode_refines hrep g pool calls io

end LSProxy
