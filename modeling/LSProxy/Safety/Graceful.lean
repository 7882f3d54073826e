import LSProxy.Safety.Unavailable

/-!
# What has been delivered when a connection is closed

A connection is closed for many reasons: the response has been written, the request cannot be
parsed, a peer has gone, a tick has found it too slow. For most of them the code looks first whether
anything still waits for the client.

* `Entry.breaksOff` — the reasons for which it does not look;
* `closed_delivered` — a connection that is closed for any other reason has delivered all that its
  servers have sent.
-/

namespace LSProxy

open Session

variable {cfg : Config} {L : Llhttp}

/-! ### Ends of file and failed writes -/

/-- The end of the stream is met in a read that returns nothing. -/
theorem mem_of_readAll_hasEof {rs : List ReadResult} {remain : ℕ}
    (h : (readAll rs remain).hasEof = true) : .data [] ∈ rs := by
  induction rs generalizing remain with
  | nil => cases h
  | cons r rs ih =>
    unfold readAll at h
    split at h
    · cases h
    · split at h
      · exact List.mem_cons_self
      · exact List.mem_cons_of_mem _ (ih h)
      · cases h

/-- What `write_all` has not used is a part of what it was given. -/
theorem mem_of_mem_writeAll_rest {rs : List WriteResult} {data : Bytes} {r : WriteResult}
    (h : r ∈ (writeAll rs data).rest) : r ∈ rs := by
  induction rs generalizing data with
  | nil => cases h
  | cons r' rs ih =>
    unfold writeAll at h
    split at h
    · exact h
    · split at h
      · exact List.mem_cons_of_mem _ (ih h)
      · exact List.mem_cons_of_mem _ h

/-- An `errno` that says more than "later" comes from a write that has failed. -/
theorem mem_of_writeAll_errno {rs : List WriteResult} {data : Bytes}
    (h : (writeAll rs data).errno = .other) : .failed .other ∈ rs := by
  induction rs generalizing data with
  | nil => cases h
  | cons r rs ih =>
    unfold writeAll at h
    split at h
    · cases h
    · split at h
      · exact List.mem_cons_of_mem _ (ih h)
      · obtain rfl := h
        exact List.mem_cons_self

/-- The same of `write_all_to`, in one segment or in two. -/
theorem Circularbuf.mem_of_writeAllTo_errno {size : ℕ} {q q' : Circularbuf size}
    {results : List WriteResult} {o : WriteOutcome} (h : q.writeAllTo results = .ok (q', o))
    (herr : o.errno = .other) : .failed .other ∈ results := by
  unfold Circularbuf.writeAllTo at h
  split at h
  · split at h
    · unfold Circularbuf.wrapWrite at h
      dsimp only at h
      split at h
      · split at h
        · obtain rfl := (Prod.mk.inj (Except.ok.inj h)).2
          exact mem_of_writeAll_errno herr
        · cases h
      · split at h
        · obtain rfl := (Prod.mk.inj (Except.ok.inj h)).2
          exact mem_of_mem_writeAll_rest (mem_of_writeAll_errno herr)
        · obtain rfl := (Prod.mk.inj (Except.ok.inj h)).2
          exact mem_of_writeAll_errno herr
    · obtain rfl := (Prod.mk.inj (Except.ok.inj h)).2
      exact mem_of_writeAll_errno herr
  · obtain rfl := (Prod.mk.inj (Except.ok.inj h)).2
    cases herr

/-! ### The last event -/

/-- The event may end a connection while something waits for its client: a tick, a client that has
closed its side, a write to the client that fails, or a request that is refused. -/
def Entry.breaksOff (e : Entry cfg L) : Bool :=
  e.cb == .monitor ||
    (e.cb == .clientReadable && e.io.clientReads.contains (.data [])) ||
    (e.cb == .clientWritable && e.io.clientWrites.contains (.failed .other)) ||
    e.refusedBehindResponse

/-- **The last event delivers the rest**, if there is any. -/
theorem Session.Step.delivers {s : Session cfg L} {c : Connection cfg L} {cb : Callback} {io : Io}
    {calls : List Call} (hrep : Rep s c) (h : Step s cb io calls .deleted) (hdisk : io.DiskOk)
    (hend : (⟨c, cb, io, calls⟩ : Entry cfg L).breaksOff = false) :
    Carries Call.serverIn Call.clientOut s.phase.undelivered calls [] := by
  obtain ⟨⟨⟨htick, hclosed⟩, hfailed⟩, hrefused⟩ := by
    simpa only [Entry.breaksOff, Bool.or_eq_false_iff] using hend
  -- the client is read without meeting its end of file
  have hopen : cb = .clientReadable → ∀ {n : ℕ} {o : ReadOutcome},
      readAll io.clientReads n = o → o.hasEof ≠ true := by
    rintro rfl n o rfl heof
    have hmem := List.contains_iff_mem.mpr (mem_of_readAll_hasEof heof)
    exact absurd hmem (by simpa using hclosed)
  have hpage := fun hsend => (h.sends503 hrep hsend hrefused).2.2.1
  have nothing : ∀ {q : Bytes} {calls : List Call}, q = [] → calls.flatMap (·.serverIn) = [] →
      calls.flatMap (·.clientOut) = [] → Carries Call.serverIn Call.clientOut q calls [] := by
    rintro q calls rfl hin hout
    exact .idle hin hout
  cases h with
  | freshRefused => exact .idle rfl rfl
  | freshConnect _ h =>
    cases h with
    | malformedDelete => exact .idle rfl rfl
    | eof ho _ _ _ heof => exact absurd heof (hopen rfl ho)
  | fastClientReadable h =>
    cases h with
    | malformedDelete _ _ hcq => exact nothing hcq rfl rfl
    | eof ho _ _ _ heof => exact absurd heof (hopen rfl ho)
  | fastServerReadable h =>
    cases h with
    | eofDelete ho hw _ hcq =>
      have hc := contents_of_forward ho hw
      rw [hcq] at hc
      simpa [Carries, Phase.undelivered] using hc
  | @replyDone _ cq cq' _ w hw hdone =>
    have hmore : Carries Call.serverIn Call.clientOut cq.contents
        [.clientWrite w.data, .closeClient] cq'.contents := carries_writeAllTo hw rfl rfl
    rcases hdone with ⟨-, herr⟩ | hnil
    · have hmem := List.contains_iff_mem.mpr (Circularbuf.mem_of_writeAllTo_errno hw herr)
      exact absurd hmem (by simpa using hfailed)
    · rwa [hnil] at hmore
  | idleEof ho heof => exact absurd heof (hopen rfl ho)
  | idleMalformedDelete _ _ _ hb => exact nothing (List.append_eq_nil_iff.mp hb).2 rfl rfl
  | idleDispatch _ _ _ _ h =>
    cases h with
    | refused => exact nothing (hpage rfl) rfl rfl
  | @exchangeMalformedDelete _ _ b _ _ _ _ o k _ hstore _ hb =>
    -- nothing has been read, or it would be in `response_buf`
    have hk : o.data.take k = o.data := by
      rw [← Option.some.inj ((hdisk 0 _).symm.trans hstore), List.take_length]
    rw [hk] at hb
    have hread : Carries Call.serverIn Call.clientOut b.unread
        [.serverRead o.data, .closeServer, .closeClient] (b.unread ++ o.data) :=
      carries_serverRead rfl rfl
    rwa [(List.append_eq_nil_iff.mp hb).2] at hread
  | slowReplyDone h =>
    cases h with
    | none hnil => exact nothing hnil rfl rfl
  | monitorDrop => cases htick

/-- The account of a run without loss. -/
theorem Run.returns {tr : List (Entry cfg L)} {st : Status cfg L} (h : Run tr st)
    (hdisk : ∀ e ∈ tr, e.io.DiskOk)
    (hok : ∀ e ∈ tr, e.abandonsQueue = false ∧ e.dropsLastRead = false) :
    ∃ out : Outcome cfg L, out.Represents st ∧ Returns [] (callsOf tr) out := by
  refine h.invariant_of (I := fun tr out => Returns [] (callsOf tr) out)
    (P := fun e => e.io.DiskOk ∧ e.abandonsQueue = false ∧ e.dropsLastRead = false)
    (Returns.live (.idle rfl rfl) trivial) ?_ fun e he => ⟨hdisk e he, hok e he⟩
  rintro tr s c cb io calls out ⟨q, hcar, hlive⟩ hrep hstep ⟨hdisk, ha, hd⟩
  obtain ⟨rfl, hfreed⟩ := hlive s rfl
  obtain ⟨q', hcar', hlive'⟩ := hstep.returns hfreed hrep hdisk ha hd
  rw [callsOf_append, callsOf_singleton]
  exact ⟨q', hcar.append hcar', hlive'⟩

/-- **A connection that is closed has delivered its response.** In every run without disk-write loss
in which no queue is left behind and no last read dropped, a connection that comes to its end has
written to its client all that it has read from its servers, unless a tick has ended it, the client
has closed its side or cannot be written to, or a request was refused behind a response. -/
theorem closed_delivered {pre : List (Entry cfg L)} {e : Entry cfg L}
    (h : Run (pre ++ [e]) .deleted) (hdisk : ∀ x ∈ pre ++ [e], x.io.DiskOk)
    (hok : ∀ x ∈ pre ++ [e], x.abandonsQueue = false ∧ x.dropsLastRead = false)
    (hend : e.breaksOff = false) :
    (callsOf (pre ++ [e])).flatMap (·.clientOut) = (callsOf (pre ++ [e])).flatMap (·.serverIn) := by
  obtain ⟨st₁, hpre, hlast⟩ := h.split
  obtain ⟨out₁, hrep₁, q, hcar, hlive⟩ := hpre.returns
    (fun x hx => hdisk x (List.mem_append_left _ hx))
    (fun x hx => hok x (List.mem_append_left _ hx))
  obtain ⟨s, out, rfl, hrep, hstep, hout⟩ := hlast.step hrep₁
  obtain ⟨rfl, -⟩ := hlive s rfl
  obtain rfl : out = .deleted := by
    cases out with
    | deleted => rfl
    | live s => exact hout.elim
    | crashed f => exact hout.elim
  have hall := hcar.append (hstep.delivers hrep (hdisk e (by simp)) hend)
  unfold Carries at hall
  rw [List.nil_append, List.append_nil] at hall
  rw [callsOf_append, callsOf_singleton]
  exact hall.symm

/-- The server closes before the client has taken the response, and the reply-only mode delivers
the rest. -/
theorem closed_delivered_reply :
    ∃ (pre : List (Entry .shipped .bodiless)) (e : Entry .shipped .bodiless),
      Run (pre ++ [e]) .deleted ∧ e.cb = .clientWritable ∧
      (callsOf (pre ++ [e])).flatMap (·.serverIn) = ascii "OKAY" ∧
      (callsOf (pre ++ [e])).flatMap (·.clientOut)
        = (callsOf (pre ++ [e])).flatMap (·.serverIn) := by
  obtain ⟨tr, st, h, hdisk, htr⟩ := exists_run_diskOk (L := .bodiless)
    [(.clientReadable, { clientReads := [.data (ascii "GET / HTTP/1.1\r\n\r\n")] }),
      (.serverReadable false,
        { serverReads := [.data (ascii "OKAY"), .data []], clientWrites := [.wrote 0] }),
      (.clientWritable, { clientWrites := [.wrote 5] })]
    (fun (tr : List (Entry .shipped _)) st => st.isDeleted &&
      tr.all (fun e => !e.abandonsQueue && !e.dropsLastRead) &&
      ((callsOf tr).flatMap (·.serverIn) == ascii "OKAY") &&
      tr.getLast?.any fun e => e.cb == .clientWritable && !e.breaksOff)
    (by decide +kernel) (by simp [Io.DiskOk])
  simp only [Bool.and_eq_true, beq_iff_eq, List.all_eq_true, Bool.not_eq_true'] at htr
  obtain ⟨⟨⟨hst, hok⟩, hin⟩, hlast⟩ := htr
  obtain ⟨e, he, hcb, hend⟩ := by
    simpa only [Option.any_eq_true, Bool.and_eq_true, beq_iff_eq, Bool.not_eq_true'] using hlast
  obtain ⟨pre, rfl⟩ := List.getLast?_eq_some_iff.mp he
  obtain rfl := Status.isDeleted_iff.mp hst
  exact ⟨pre, e, h, hcb, hin, closed_delivered h hdisk hok hend⟩

end LSProxy
