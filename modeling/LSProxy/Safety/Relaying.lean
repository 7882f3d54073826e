import LSProxy.Safety.Monitor

/-!
# What is passed on

Between a client and its servers bytes get lost: when the disk does not take them, when a read of
the transition meets the end of the stream, when a queue is left behind. In no run is anything else
done to them.

* `replies_in_order` — what is written to the client, not counting the proxy's own page of
  `reply_with_503_unavailable`, is a subsequence of what has been read from the servers: nothing is
  invented, repeated or moved;
* `requests_bounded` — no server is sent more bytes than the client has sent;
* `storage_bounded` — slow mode keeps no more in its files than has been received.
-/

namespace LSProxy

open Session

variable {cfg : Config} {L : Llhttp}

/-! ### What the files take -/

/-- Of each chunk a part reaches the file. -/
theorem FIFOfilebuf.storeEach_sublist {disk : ℕ → List WriteResult} {k : ℕ} {chunks : List Bytes}
    {sent unread : Bytes} {f : FIFOfilebuf}
    (h : storeEach disk k chunks (queue sent unread) = .ok f) :
    ∃ stored, f = queue sent (unread ++ stored) ∧ stored.Sublist chunks.flatten := by
  induction chunks generalizing k unread with
  | nil =>
    obtain rfl := Except.ok.inj h
    exact ⟨[], by rw [List.append_nil], List.nil_sublist _⟩
  | cons data chunks ih =>
    unfold storeEach at h
    rw [store_queue] at h
    cases hw : written (disk k) data.length with
    | none =>
      rw [hw] at h
      cases h
    -- of each chunk the head reaches the file
    | some n =>
      rw [hw] at h
      obtain ⟨stored, rfl, hsub⟩ := ih h
      refine ⟨data.take n ++ stored, by rw [List.append_assoc], ?_⟩
      rw [List.flatten_cons]
      exact (List.take_sublist n data).append hsub

/-- What is dumped into `response_buf` comes from the queue. -/
theorem Circularbuf.dumpAll_sublist {size : ℕ} {q q' : Circularbuf size}
    {disk : ℕ → List WriteResult} {stored : Bytes}
    (h : q.dumpAll disk q.dataSize (.queue [] []) = .ok (q', .queue [] stored)) :
    stored.Sublist q.contents := by
  -- an empty queue is not dumped at all
  rcases hsize : q.dataSize with _ | rounds
  · rw [hsize] at h
    rw [← FIFOfilebuf.queue_nil_inj (Prod.mk.inj (Except.ok.inj h)).2]
    exact List.nil_sublist _
  · rw [hsize] at h
    unfold Circularbuf.dumpAll at h
    rw [if_pos (by omega)] at h
    obtain ⟨q₁, chunks, hnil, hflat, hdump⟩ := q.dumpTo_chunks
    rw [hdump] at h
    cases hstore : FIFOfilebuf.storeEach disk 0 chunks (.queue [] []) with
    | error e =>
      rw [hstore] at h
      cases h
    | ok f =>
      rw [hstore] at h
      obtain ⟨stored', rfl, hsub⟩ := FIFOfilebuf.storeEach_sublist hstore
      -- the queue is empty now, so the loop ends
      have h0 : q₁.dataSize = 0 := (Circularbuf.dataSize_eq_zero_iff q₁).mpr hnil
      have heq : (q₁, FIFOfilebuf.queue [] ([] ++ stored')) = (q', .queue [] stored) := by
        cases rounds <;> simpa [Circularbuf.dumpAll, h0, Except.map] using h
      rw [← FIFOfilebuf.queue_nil_inj (Prod.mk.inj heq).2, ← hflat]
      exact hsub

/-! ### Replies -/

/-- What waits for the client, of an outcome. -/
def Outcome.undelivered : Outcome cfg L → Bytes
  | .live s => s.phase.undelivered
  | _ => []

theorem Returns.relays {q : Bytes} {calls : List Call} {out : Outcome cfg L}
    (h : Returns q calls out) : Relays Call.serverIn Call.clientOut q calls out.undelivered := by
  obtain ⟨q', hcar, hlive⟩ := h
  cases out with
  | live s =>
    rw [← (hlive s rfl).1] at hcar
    exact hcar.relays
  -- what waited for the client goes with the connection
  | deleted | crashed f => exact hcar.relays.lose (List.nil_sublist _)

theorem Session.SlowSwitch.undelivered {io : Io} {ph ph' : Phase cfg L}
    (h : SlowSwitch io ph (.ok ph')) : ph'.undelivered.Sublist ph.undelivered := by
  cases h with
  | fresh => exact List.nil_sublist _
  -- the queue is left behind
  | reply => exact List.nil_sublist _
  | fast _ hdump => exact Circularbuf.dumpAll_sublist hdump

/-- **A step of a session relays**: whatever it loses, it does not touch the order of the rest. -/
theorem Session.Step.relays {s : Session cfg L} {cb : Callback} {io : Io} {calls : List Call}
    {out : Outcome cfg L} (h : Step s cb io calls out) :
    Relays Call.serverIn Call.clientOut s.phase.undelivered calls out.undelivered := by
  have still : ∀ {q q' : Bytes} {calls : List Call}, calls.flatMap (·.serverIn) = [] →
      calls.flatMap (·.clientOut) = [] → q'.Sublist q →
      Relays Call.serverIn Call.clientOut q calls q' :=
    fun hin hout hsub => (Carries.idle hin hout).relays.lose hsub
  -- a part of what is read from the server is stored
  have stored : ∀ {q data : Bytes} {k : ℕ} {rest : List Call},
      rest.flatMap Call.serverIn = [] → rest.flatMap Call.clientOut = [] →
      Relays Call.serverIn Call.clientOut q (.serverRead data :: rest) (q ++ data.take k) :=
    fun hin hout => (carries_serverRead hin hout).relays.lose
      ((List.Sublist.refl _).append (List.take_sublist _ _))
  cases h with
  | freshConnect _ h | fastClientReadable h =>
    cases h with
    | malformedReply | forward => exact still rfl rfl (List.Sublist.refl _)
    | _ => exact still rfl rfl (List.nil_sublist _)
  | fastServerReadable h => exact h.returns.relays
  | fastClientWritable hw | replyMore hw => exact (carries_writeAllTo hw rfl rfl).relays
  | replyDone hw => exact (carries_writeAllTo hw rfl rfl).relays.lose (List.nil_sublist _)
  -- what is read together with the end of the stream is dropped
  | transitionEof =>
    exact (carries_serverRead rfl rfl).relays.lose (List.sublist_append_left ..)
  | transitionFault | exchangeFault | exchangeMalformedDelete =>
    exact (carries_serverRead rfl rfl).relays.lose (List.nil_sublist _)
  | transitionRead | exchangeMalformedReply | exchangeEnd | exchangeRead => exact stored rfl rfl
  | transitionDeliver h | idleDeliver h | exchangeDeliver h | slowReplyDeliver h =>
    exact h.returns.relays
  | slowReplyDone h =>
    exact (h.returns.append (.idle rfl rfl)).relays.lose (List.nil_sublist _)
  | idleDispatch _ _ _ _ h =>
    cases h with
    | connect => exact still rfl rfl (List.Sublist.refl _)
    | _ => exact still rfl rfl (List.nil_sublist _)
  | monitorDrop =>
    exact still (by split <;> rfl) (by split <;> rfl) (List.nil_sublist _)
  | monitorSwitch _ _ _ h | signalSwitch h => exact still rfl rfl h.undelivered
  | _ => first
    | exact still rfl rfl (List.Sublist.refl _)
    | exact still rfl rfl (List.nil_sublist _)

theorem Run.relays {tr : List (Entry cfg L)} {st : Status cfg L} (h : Run tr st) :
    ∃ out : Outcome cfg L, out.Represents st ∧
      Relays Call.serverIn Call.clientOut [] (callsOf tr) out.undelivered := by
  refine h.invariant
    (I := fun tr out => Relays Call.serverIn Call.clientOut [] (callsOf tr) out.undelivered)
    (Carries.idle rfl rfl).relays ?_
  intro tr s c cb io calls out hI _ hstep
  rw [callsOf_append, callsOf_singleton]
  exact hI.append hstep.relays

/-- **Replies stay in order.** In every run, whatever is lost on the disk, in the transition or with
a queue that is left behind, what is written to the client, but for the proxy's own page of
`reply_with_503_unavailable`, is a subsequence of what has been read from the servers: nothing is
invented, repeated or moved. -/
theorem replies_in_order {tr : List (Entry cfg L)} {st : Status cfg L} (h : Run tr st) :
    ((callsOf tr).flatMap (·.clientOut)).Sublist ((callsOf tr).flatMap (·.serverIn)) := by
  obtain ⟨out, -, hrelays⟩ := h.relays
  exact hrelays.sublist

/-- The server closes during the transition: what comes with the end of the stream is lost, the rest
is delivered. -/
theorem replies_in_order_lost :
    ∃ (tr : List (Entry .shipped .bodiless)) (st : Status .shipped .bodiless), Run tr st ∧
      (callsOf tr).flatMap (·.serverIn) = ascii "OKAY" ∧
      (callsOf tr).flatMap (·.clientOut) = ascii "OK" ∧ (ascii "OK").Sublist (ascii "OKAY") := by
  obtain ⟨tr, st, h, htr⟩ := exists_run (L := .bodiless)
    [(.clientReadable, { clientReads := [.data (ascii "GET / HTTP/1.1\r\n\r\n")] }),
      (.serverReadable false, { serverReads := [.data (ascii "OK")] }), (.slowSwitch, {}),
      (.serverReadable false, { serverReads := [.data (ascii "AY"), .data []] }),
      (.clientWritable, { clientWrites := [.wrote 2] })]
    (fun (tr : List (Entry .shipped _)) _ =>
      (callsOf tr).flatMap (·.serverIn) == ascii "OKAY" &&
        (callsOf tr).flatMap (·.clientOut) == ascii "OK")
    (by decide +kernel)
  obtain ⟨hin, hout⟩ := Bool.and_eq_true_iff.mp htr
  have hsub := replies_in_order h
  rw [beq_iff_eq.mp hin, beq_iff_eq.mp hout] at hsub
  exact ⟨tr, st, h, beq_iff_eq.mp hin, beq_iff_eq.mp hout, hsub⟩

/-! ### Requests -/

/-- Before the first connection no server is sent anything. -/
theorem foldl_streamStep_nil {calls : List Call} (h : .connect ∉ calls) :
    calls.foldl streamStep [] = [] := by
  induction calls with
  | nil => rfl
  | cons call calls ih =>
    obtain ⟨hne, hnot⟩ := not_or.mp (List.mem_cons.not.mp h)
    have hstep : streamStep [] call = [] := by
      cases call with
      | connect => exact absurd rfl hne
      | _ => rfl
    rw [List.foldl_cons, hstep, ih hnot]

/-- The last server may be sent `k` bytes more without getting more than the client has sent. -/
def Affords (calls : List Call) (k : ℕ) : Prop :=
  ∃ ss sent, streams calls = ss ++ [sent] ∧ sent.length + k ≤ bytesRead calls

/-- No server has got more than the client has sent, and `k` bytes, if any, are meant for the last
one. -/
structure Budget (calls : List Call) (k : Option ℕ) : Prop where
  bounded : ∀ sent ∈ streams calls, sent.length ≤ bytesRead calls
  affords : ∀ j, k = some j → Affords calls j

namespace Budget

variable {calls calls' : List Call} {k : Option ℕ} {i j : ℕ}

theorem none (h : Budget calls k) : Budget calls none := ⟨h.bounded, fun _ hj => nomatch hj⟩

/-- Calls that send nothing to a server. -/
theorem still (h : Budget calls k) (hno : .connect ∉ calls')
    (hout : calls'.flatMap (·.serverOut) = []) : Budget (calls ++ calls') k := by
  have hstreams : streams (calls ++ calls') = streams calls := by
    rcases List.eq_nil_or_concat (streams calls) with hnil | ⟨ss, sent, hlast⟩
    · -- no server has been connected, so there is no stream to write on
      rw [streams_append, hnil, foldl_streamStep_nil hno]
    · rw [List.concat_eq_append] at hlast
      rw [streams_append_of_noConnect ss hlast hno, hout, List.append_nil, hlast]
  refine ⟨?_, ?_⟩
  · rw [hstreams, bytesRead_append]
    exact fun sent hsent => (h.bounded sent hsent).trans (Nat.le_add_right _ _)
  · intro j hj
    obtain ⟨ss, sent, hlast, hle⟩ := h.affords j hj
    exact ⟨ss, sent, hstreams.trans hlast, by rw [bytesRead_append]; omega⟩

/-- Calls that send to the last server what it may be sent. -/
theorem send (h : Budget calls (some i)) (hno : .connect ∉ calls')
    (hle : (calls'.flatMap (·.serverOut)).length + j ≤ i + bytesRead calls') :
    Budget (calls ++ calls') (some j) := by
  obtain ⟨ss, sent, hlast, hi⟩ := h.affords i rfl
  have hstreams := streams_append_of_noConnect ss hlast hno
  have hlen : (sent ++ calls'.flatMap (·.serverOut)).length + j ≤ bytesRead (calls ++ calls') := by
    rw [List.length_append, bytesRead_append]
    omega
  refine ⟨fun w hw => ?_, fun j' hj => ?_⟩
  · -- the streams of earlier servers stay as they are
    rw [hstreams] at hw
    rcases List.mem_append.mp hw with hw | hw
    · have hmem : w ∈ streams calls := by
        rw [hlast]
        exact List.mem_append_left _ hw
      exact (h.bounded w hmem).trans (by rw [bytesRead_append]; omega)
    · obtain rfl := List.mem_singleton.mp hw
      omega
  · obtain rfl := Option.some.inj hj
    exact ⟨ss, _, hstreams, hlen⟩

/-- A server is connected, for a request that the client has sent. -/
theorem connect (h : Budget calls k) (hj : j ≤ bytesRead calls) :
    Budget (calls ++ [.connect]) (some j) := by
  have hstreams : streams (calls ++ [.connect]) = streams calls ++ [[]] := by
    rw [streams_append]
    rfl
  have hread : bytesRead (calls ++ [.connect]) = bytesRead calls := by simp [bytesRead]
  refine ⟨fun w hw => ?_, fun j' hj' => ?_⟩
  · rw [hstreams] at hw
    rw [hread]
    rcases List.mem_append.mp hw with hw | hw
    · exact h.bounded w hw
    · obtain rfl := List.mem_singleton.mp hw
      exact Nat.zero_le _
  · obtain rfl := Option.some.inj hj'
    exact ⟨streams calls, [], hstreams, by rw [hread]; simpa using hj⟩

end Budget

/-- How much is meant for the server, as long as anything is. -/
def Phase.toSend : Phase cfg L → Option ℕ
  | .fast _ _ _ sq _ _ => some sq.contents.length
  | .transition _ _ sq _ _ => some (queued sq).length
  | .exchange _ b _ _ true => some (b.request.content.length - b.request.offset)
  | _ => none

/-- The same of an outcome. -/
def Outcome.toSend : Outcome cfg L → Option ℕ
  | .live s => s.phase.toSend
  | _ => none

/-- The files hold no more than `n` bytes from the client and `m` from the servers. -/
structure SlowBufs.Fits (b : SlowBufs) (n m : ℕ) : Prop where
  offset_le : b.request.offset ≤ b.request.content.length
  requests_le : b.request.content.length + b.tmp.length ≤ n
  replies_le : b.sent.length + b.unread.length ≤ m

/-- What a phase keeps fits what has been received. -/
def Phase.Fits (n m : ℕ) : Phase cfg L → Prop
  | .fresh | .reply _ => True
  | .fast _ hist _ _ _ _ => hist.length ≤ n
  | .transition _ b _ _ _ | .idle _ b _ _ | .exchange _ b _ _ _ | .slowReply b _ => b.Fits n m

/-- The same of an outcome. -/
def Outcome.Fits (n m : ℕ) : Outcome cfg L → Prop
  | .live s => s.phase.Fits n m
  | _ => True

theorem SlowBufs.Fits.mono {b : SlowBufs} {n m n' m' : ℕ} (h : b.Fits n m) (hn : n ≤ n')
    (hm : m ≤ m') : b.Fits n' m' :=
  ⟨h.offset_le, h.requests_le.trans hn, h.replies_le.trans hm⟩

/-- No reply is stored that has not been received. -/
theorem SlowBufs.Fits.reply {b : SlowBufs} {n m : ℕ} (h : b.Fits n m) (data : Bytes) (k : ℕ) :
    SlowBufs.Fits { b with unread := b.unread ++ data.take k } n (m + data.length) := by
  refine ⟨h.offset_le, h.requests_le, ?_⟩
  have hle := h.replies_le
  have htake := List.length_take_le' k data
  show b.sent.length + (b.unread ++ data.take k).length ≤ m + data.length
  rw [List.length_append]
  omega

/-- A store adds no more than it is given, and leaves the cursor inside. -/
theorem Filebuf.store_length_le {f f' : Filebuf} {results : List WriteResult} {data : Bytes}
    (h : f.store results data = .ok f') (hoff : f.offset ≤ f.content.length) :
    f'.offset ≤ f'.content.length ∧ f'.content.length ≤ f.content.length + data.length := by
  unfold Filebuf.store Filebuf.fileWrite at h
  cases hw : written results data.length with
  | none =>
    rw [hw] at h
    cases h
  | some n =>
    rw [hw] at h
    obtain rfl := Except.ok.inj h
    have hn := written_le hw
    simp only [Segment.overwrite_eq hoff, List.length_append, List.length_take, List.length_drop]
    omega

theorem Hybridbuf.stored_length_le {cache : ℕ} {results : List WriteResult} {c c' data : Bytes}
    (h : stored cache results c data = .ok c') : c'.length ≤ c.length + data.length := by
  unfold stored at h
  split at h
  · split at h
    · cases h
    · obtain rfl := Except.ok.inj h
      simp only [List.length_append, List.length_take]
      omega
  · obtain rfl := Except.ok.inj h
    rw [List.length_append]

/-- No more is copied than there is. -/
theorem Hybridbuf.copied_length_le {disk : ℕ → List WriteResult} {cache maxSize : ℕ}
    {c c' dest : Bytes} {rounds k p : ℕ}
    (h : copied disk cache maxSize c rounds k p dest = .ok c') (hp : p ≤ c.length) :
    c'.length ≤ dest.length + (c.length - p) := by
  induction rounds generalizing k p dest with
  | zero =>
    obtain rfl := Except.ok.inj h
    exact Nat.le_add_right _ _
  | succ rounds ih =>
    unfold copied at h
    have hchunk : (chunk cache maxSize c p).length ≤ c.length - p := by
      rw [chunk_eq_take, List.length_take, List.length_drop]
      omega
    split at h
    · split at h
      · cases h
      · have hle := ih h (by omega)
        have htake := List.length_take_le' ‹ℕ› (chunk cache maxSize c p)
        rw [List.length_append] at hle
        omega
    · obtain rfl := Except.ok.inj h
      exact Nat.le_add_right _ _

namespace Session

theorem recorded_length_le {io : Io} {p : HttpParser L} {hist hist' data : Bytes}
    (h : recorded cfg io p hist data = .ok hist') :
    hist'.length ≤ hist.length + data.length := by
  unfold recorded at h
  split at h
  · refine (Hybridbuf.stored_length_le h).trans ?_
    rw [List.length_nil, List.length_drop]
    omega
  · exact Hybridbuf.stored_length_le h

theorem FastForwardToServer.fits {n : Counts} {p : HttpParser L} {hist : Bytes}
    {cq sq : Circularbuf cfg.sockIoBufSize} {cw : Bool} {io : Io} {calls : List Call}
    {out : Outcome cfg L} {k m : ℕ} (h : FastForwardToServer n p hist cq sq cw io calls out)
    (hk : hist.length ≤ k) : out.Fits (k + bytesRead calls) m := by
  cases h with
  | forward ho _ hhist =>
    have hle := recorded_length_le hhist
    simp only [Outcome.Fits, Phase.Fits, bytesRead, List.flatMap_cons, List.flatMap_nil,
      Call.clientIn, List.append_nil]
    omega
  | _ => trivial

theorem SlowSwitch.fits {io : Io} {ph ph' : Phase cfg L} {n m : ℕ}
    (h : SlowSwitch io ph (.ok ph')) (hfits : ph.Fits n m) (hm : ph.undelivered.length ≤ m) :
    ph'.Fits n m := by
  cases h with
  | fresh | reply => exact ⟨Nat.zero_le _, Nat.zero_le _, Nat.zero_le _⟩
  | @fast _ hist c stored _ _ _ _ _ hcopy hdump =>
    have hc := Hybridbuf.copied_length_le hcopy (Nat.zero_le _)
    have hhist : hist.length ≤ n := hfits
    -- the history was received, and so was what waited for the client
    have hstored := (Circularbuf.dumpAll_sublist hdump).length_le.trans hm
    refine ⟨le_rfl, ?_, ?_⟩
    · simp only [Filebuf.filled_content, List.length_nil] at hc ⊢
      omega
    · simp only [List.length_nil]
      omega

theorem Deliver.fits {b b' : SlowBufs} {io : Io} {calls : List Call} {cw : Bool} {n m : ℕ}
    (h : Deliver cfg b io calls b' cw) (hfits : b.Fits n m) : b'.Fits n m := by
  cases h with
  | @some w _ hw =>
    have hpre : w.data <+: b.unread := by
      rw [← hw]
      exact (writeAll_isPrefix _ _).trans (List.take_prefix _ _)
    have hlen := hpre.length_le
    refine ⟨hfits.offset_le, hfits.requests_le, ?_⟩
    have hle := hfits.replies_le
    simp only [List.length_append, List.length_drop]
    omega
  | none => exact hfits

theorem Dispatch.fits {n₀ : Counts} {p' : HttpParser L} {k : ℕ} {data : Bytes} {b : SlowBufs}
    {stale : Option (Circularbuf cfg.sockIoBufSize)} {cw : Bool} {io : Io} {calls : List Call}
    {out : Outcome cfg L} {n m : ℕ} (h : Dispatch n₀ p' k data b stale cw io calls out)
    (hfits : b.Fits n m) : out.Fits (n + data.length) m := by
  cases h with
  | connect hr ht =>
    obtain ⟨-, hrequest⟩ := Filebuf.store_length_le hr hfits.offset_le
    obtain ⟨-, htmp⟩ := Filebuf.store_length_le ht le_rfl
    have hle := hfits.requests_le
    refine ⟨Nat.zero_le _, ?_, hfits.replies_le⟩
    simp only [Filebuf.filled_content, List.length_take, List.length_drop] at hrequest htmp ⊢
    omega
  | _ => trivial

end Session

/-- **What is kept fits what is received**: one step. -/
theorem Session.Step.fits {s : Session cfg L} {cb : Callback} {io : Io} {calls : List Call}
    {out : Outcome cfg L} {n m : ℕ} (h : Step s cb io calls out) (hfits : s.phase.Fits n m)
    (hm : s.phase.undelivered.length ≤ m) :
    out.Fits (n + bytesRead calls) (m + (calls.flatMap (·.serverIn)).length) := by
  cases h with
  | freshConnect _ h => exact h.fits (Nat.zero_le n)
  | fastClientReadable h => exact h.fits hfits
  | fastServerReadable h =>
    cases h with
    | forward => exact Nat.le_add_right_of_le hfits
    | _ => trivial
  | fastClientWritable | fastServerWritable => exact Nat.le_add_right_of_le hfits
  | transitionRead | exchangeRead | exchangeEnd | exchangeMalformedReply =>
    simpa [bytesRead, Outcome.Fits, Phase.Fits] using SlowBufs.Fits.reply hfits _ _
  | transitionDeliver h | idleDeliver h | exchangeDeliver h | slowReplyDeliver h =>
    exact (h.fits hfits).mono (Nat.le_add_right _ _) (Nat.le_add_right _ _)
  | @idleRead _ _ _ b _ _ _ o r _ _ _ _ hr =>
    obtain ⟨hoff, hlen⟩ := Filebuf.store_length_le hr hfits.offset_le
    have hle := hfits.requests_le
    refine ⟨hoff, ?_, Nat.le_add_right_of_le hfits.replies_le⟩
    simp only [bytesRead, List.flatMap_cons, List.flatMap_nil, Call.clientIn, List.append_nil]
    omega
  | idleDispatch _ _ _ _ h =>
    have hread := h.fits hfits
    cases h with
    | connect =>
      simpa [bytesRead, Outcome.Fits, Phase.Fits] using hread
    | _ => trivial
  -- the cursor moves no further than has been fetched
  | @exchangeSend _ _ b _ _ _ w _ hw =>
    refine ⟨?_, hfits.requests_le, hfits.replies_le⟩
    have hlen : w.data.length ≤ (b.request.fetch cfg.sockIoBufSize).2.length := by
      rw [← hw]
      exact (writeAll_isPrefix _ _).length_le
    have hoff := hfits.offset_le
    simp only [Filebuf.fetch, Filebuf.fileRead, List.length_take, List.length_drop] at hlen ⊢
    omega
  -- the content that has been sent is cleared, which frees its share
  | exchangeSwap =>
    have hle := hfits.requests_le
    refine ⟨le_rfl, ?_, hfits.replies_le⟩
    simp only [Filebuf.filled_content, List.length_nil]
    omega
  | monitorKeep | signalSlow => exact hfits
  | monitorSwitch _ _ _ h | signalSwitch h => exact h.fits hfits hm
  | transitionTimeout | transitionEof | transitionWrite | idleMalformedReply =>
    exact hfits.mono (Nat.le_add_right _ _) (Nat.le_add_right _ _)
  | _ => trivial

namespace Session

theorem FastForwardToServer.budget {n : Counts} {p : HttpParser L} {hist : Bytes}
    {cq sq : Circularbuf cfg.sockIoBufSize} {cw : Bool} {io : Io} {calls calls' : List Call}
    {out : Outcome cfg L} (h : FastForwardToServer n p hist cq sq cw io calls' out)
    (hb : Budget calls (some sq.contents.length)) : Budget (calls ++ calls') out.toSend := by
  have hsend : ∀ {o : ReadOutcome} {sq' : Circularbuf cfg.sockIoBufSize} {w : WriteOutcome},
      readAll io.clientReads sq.remainingSpace = o →
      (sq.copyFrom o.data).1.writeAllTo io.serverWrites = .ok (sq', w) →
      Budget (calls ++ [.clientRead o.data, .serverWrite w.data]) (some sq'.contents.length) := by
    intro o sq' w ho hw
    -- what is read is either written or queued
    have hlen := congrArg List.length (contents_of_forward ho hw)
    refine hb.send (by simp) ?_
    simp only [bytesRead, List.flatMap_cons, List.flatMap_nil, Call.clientIn, Call.serverOut,
      List.append_nil, List.nil_append, List.length_append] at hlen ⊢
    omega
  have hclose : ∀ {calls : List Call}, Budget calls none →
      Budget (calls ++ [.closeServer, .closeClient]) none := fun hb => hb.still (by simp) rfl
  cases h with
  | malformedReply | malformedDelete | histFault => exact hb.none.still (by simp) rfl
  | eof ho _ _ hw =>
    have hnew := hclose (hsend ho hw).none
    rwa [List.append_assoc] at hnew
  | forward ho _ _ hw => exact hsend ho hw

theorem SlowSwitch.toSend {io : Io} {ph ph' : Phase cfg L} (h : SlowSwitch io ph (.ok ph')) :
    ph'.toSend = ph.toSend := by
  cases h with
  | fresh | reply => rfl
  -- the queue of the server survives the switch, unless it is empty and freed
  | @fast _ _ _ _ _ _ sq =>
    simp only [Phase.toSend]
    split
    · next hnil => simp [queued, hnil]
    · rfl

/-- **No server is sent more than the client has sent**: one step. -/
theorem Step.budget {s : Session cfg L} {cb : Callback} {io : Io} {calls calls' : List Call}
    {out : Outcome cfg L} {m : ℕ} (h : Step s cb io calls' out)
    (hb : Budget calls s.phase.toSend) (hfits : out.Fits (bytesRead (calls ++ calls')) m) :
    Budget (calls ++ calls') out.toSend := by
  cases h with
  -- nothing has been read when the first server is connected
  | freshConnect _ h =>
    have hnew := h.budget (hb.connect (Nat.zero_le _))
    rwa [List.append_assoc] at hnew
  | fastClientReadable h => exact h.budget hb
  | fastServerReadable h =>
    cases h with
    | forward => exact hb.still (by simp) rfl
    | _ => exact hb.none.still (by simp) rfl
  | fastServerWritable hw | transitionWrite hw =>
    have hlen := congrArg List.length (contents_of_writeAllTo hw)
    refine hb.send (by simp) ?_
    simp only [List.flatMap_cons, List.flatMap_nil, Call.serverOut, List.append_nil, queued,
      Option.elim, List.length_append] at hlen ⊢
    omega
  | transitionDrained hw =>
    have hlen := congrArg List.length (contents_of_writeAllTo hw)
    -- the queue is empty, and there is none any more
    refine (hb.send (by simp) (j := 0) ?_).none
    simp only [List.flatMap_cons, List.flatMap_nil, Call.serverOut, List.append_nil, queued,
      Option.elim, List.length_append] at hlen ⊢
    omega
  | transitionDeliver h => cases h <;> exact hb.still (by simp) rfl
  | idleDeliver h | slowReplyDeliver h => cases h <;> exact hb.still (by simp) rfl
  | slowReplyDone h =>
    cases h with
    | none => exact hb.still (by simp) rfl
  | @idleDispatch _ _ _ _ _ _ _ o _ _ _ _ _ _ _ h =>
    cases h with
    | connect =>
      have hread : Budget (calls ++ [.clientRead o.data]) none := hb.still (by simp) rfl
      -- what the server is connected for has been received
      have hrequest := (Nat.le_add_right _ _).trans hfits.requests_le
      have heq : bytesRead (calls ++ [.clientRead o.data, .connect])
          = bytesRead (calls ++ [.clientRead o.data]) := by simp [bytesRead]
      rw [heq] at hrequest
      have hnew := hread.connect hrequest
      rwa [List.append_assoc] at hnew
    | _ => exact hb.still (by simp) rfl
  | @exchangeSend _ _ b _ _ _ w _ hw =>
    have hlen : w.data.length ≤ (b.request.fetch cfg.sockIoBufSize).2.length := by
      rw [← hw]
      exact (writeAll_isPrefix _ _).length_le
    refine hb.send (by simp) ?_
    simp only [Filebuf.fetch, Filebuf.fileRead, List.length_take, List.length_drop] at hlen
    simp only [List.flatMap_cons, List.flatMap_nil, Call.serverOut, List.append_nil]
    omega
  -- the buffer is empty: nothing is meant for this server any more
  | exchangeSwap => exact hb.none.still (by simp) rfl
  | @exchangeDeliver _ _ _ _ _ _ sw _ _ h =>
    cases h <;> cases sw <;> exact hb.still (by simp) rfl
  | @exchangeRead _ _ _ _ _ _ sw => cases sw <;> exact hb.still (by simp) rfl
  | monitorDrop => exact hb.none.still (by split <;> simp) (by split <;> rfl)
  | monitorSwitch _ _ _ h | signalSwitch h =>
    rw [Outcome.toSend, h.toSend]
    exact hb.still (by simp) rfl
  | _ => first
    | exact hb.still (by simp) rfl
    | exact hb.none.still (by simp) rfl

end Session

theorem Run.account {tr : List (Entry cfg L)} {st : Status cfg L} (h : Run tr st) :
    ∃ out : Outcome cfg L, out.Represents st ∧ Budget (callsOf tr) out.toSend ∧
      out.Fits (bytesRead (callsOf tr)) ((callsOf tr).flatMap (·.serverIn)).length := by
  obtain ⟨out, hrep, -, hbudget, hfits⟩ := h.invariant
    (I := fun tr out => Relays Call.serverIn Call.clientOut [] (callsOf tr) out.undelivered ∧
      Budget (callsOf tr) out.toSend ∧
      out.Fits (bytesRead (callsOf tr)) ((callsOf tr).flatMap (·.serverIn)).length)
    ⟨(Carries.idle rfl rfl).relays, ⟨by simp [streams], nofun⟩, trivial⟩
    (by
      rintro tr s c cb io calls out ⟨hrelays, hbudget, hfits⟩ - hstep
      -- a dump stores what is undelivered, which is bounded by what has been relayed
      have hfits' := hstep.fits hfits hrelays.length_le
      rw [← bytesRead_append] at hfits'
      rw [callsOf_append, callsOf_singleton, List.flatMap_append, List.length_append]
      exact ⟨hrelays.append hstep.relays, hstep.budget hbudget hfits', hfits'⟩)
  exact ⟨out, hrep, hbudget, hfits⟩

/-- **No server is sent more than the client sends.** In every run, at every moment, what has been
written on one server connection is no longer than all that has been read from the client, however
often a request is sent again because its connection has left fast mode or its response came too
early. -/
theorem requests_bounded {tr : List (Entry cfg L)} {st : Status cfg L} (h : Run tr st) :
    ∀ sent ∈ streams (callsOf tr), sent.length ≤ ((callsOf tr).flatMap (·.clientIn)).length := by
  obtain ⟨out, -, hbudget, -⟩ := h.account
  exact hbudget.bounded

/-- The beginning of a request is sent twice, to a server in fast mode and to another one in slow
mode. -/
theorem requests_bounded_twice :
    ∃ (tr : List (Entry .shipped .bodiless)) (st : Status .shipped .bodiless), Run tr st ∧
      streams (callsOf tr) = [ascii "GET /", ascii "GET / HTTP/1.1\r\n\r\n"] ∧
      ∀ sent ∈ streams (callsOf tr), sent.length ≤ ((callsOf tr).flatMap (·.clientIn)).length := by
  obtain ⟨tr, st, h, htr⟩ := exists_run (L := .bodiless)
    [(.clientReadable, { clientReads := [.data (ascii "GET /")], serverWrites := [.wrote 5] }),
      (.slowSwitch, {}), (.serverReadable true, {}),
      (.clientReadable, { clientReads := [.data (ascii " HTTP/1.1\r\n\r\n")] }),
      (.serverWritable, { serverWrites := [.wrote 18] })]
    (fun (tr : List (Entry .shipped _)) _ =>
      streams (callsOf tr) == [ascii "GET /", ascii "GET / HTTP/1.1\r\n\r\n"])
    (by decide +kernel)
  exact ⟨tr, st, h, beq_iff_eq.mp htr, requests_bounded h⟩

/-- **What slow mode keeps has been received.** In every run the files of the requests hold no more
bytes than have been read from the client, and the file of the responses no more than have been read
from the servers, however often they have been sent. -/
theorem storage_bounded {tr : List (Entry cfg L)} {c : Connection cfg L} (h : Run tr (.live c)) :
    c.client.requestBuf.elim 0 (·.content.length) +
        c.client.requestTmpBuf.elim 0 (·.content.length)
      ≤ ((callsOf tr).flatMap (·.clientIn)).length ∧
    c.client.responseBuf.elim 0 (·.content.length)
      ≤ ((callsOf tr).flatMap (·.serverIn)).length := by
  obtain ⟨out, hrep, -, hfits⟩ := h.account
  obtain ⟨s, rfl, hrep⟩ := hrep.live
  cases hrep with
  | fresh | fast | reply => exact ⟨Nat.zero_le _, Nat.zero_le _⟩
  | transition | idle | exchange | slowReply =>
    refine ⟨hfits.requests_le, ?_⟩
    simpa [slowClient, FIFOfilebuf.queue] using hfits.replies_le

/-- Both kinds of files are in use: the beginning of a second request has come with the first, and
the server answers during the transition. -/
theorem storage_bounded_both :
    ∃ (tr : List (Entry .shipped .bodiless)) (c : Connection .shipped .bodiless),
      Run tr (.live c) ∧ c.client.requestBuf.map (·.content) = some (ascii "GET /b") ∧
      c.client.responseBuf.map (·.content) = some (ascii "OK") ∧
      c.client.requestBuf.elim 0 (·.content.length) +
          c.client.requestTmpBuf.elim 0 (·.content.length)
        ≤ ((callsOf tr).flatMap (·.clientIn)).length := by
  obtain ⟨tr, st, h, hst⟩ := exists_run (L := .bodiless)
    [(.clientReadable, { clientReads := [.data (ascii "GET /a HTTP/1.1\r\n\r\nGET /b")] }),
      (.slowSwitch, {}), (.serverReadable false, { serverReads := [.data (ascii "OK")] })]
    (fun (_ : List (Entry .shipped _)) st => st.isLiveWith fun c =>
      c.client.requestBuf.map (·.content) == some (ascii "GET /b") &&
        c.client.responseBuf.map (·.content) == some (ascii "OK"))
    (by decide +kernel)
  obtain ⟨c, rfl, hc⟩ := Status.isLiveWith_iff.mp hst
  obtain ⟨hrequest, hresponse⟩ := Bool.and_eq_true_iff.mp hc
  exact ⟨tr, c, h, beq_iff_eq.mp hrequest, beq_iff_eq.mp hresponse, (storage_bounded h).1⟩

end LSProxy
