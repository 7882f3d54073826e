import LSProxy.Lib.BoundedQueue
import LSProxy.Model.Callbacks

/-!
# The circular buffer is a bounded queue

Whatever is done with a `Circularbuf` from its construction on, and whatever the kernel makes of
the reads and writes, it is a first-in first-out queue of capacity `sizeof(buffer) - 1`
(`BoundedQueue`): its contents are the queue, an operation is one event at it.

* `Circularbuf.perform` — one operation, and what it gives back to its caller;
* `Circularbuf.RunOf` — operations one after another, from a new buffer on;
* `Circularbuf.Dependable` — what every operation on a buffer can be relied on for;
* `circularbuf_refines` — every run is a run of the bounded queue, and ends in a dependable buffer.
-/

namespace LSProxy

open Segment

namespace Circularbuf

variable {size : ℕ}

/-! ### Operations and runs -/

/-- The operations of a `Circularbuf`, each with what the environment contributes. -/
inductive Op (size : ℕ)
  | copyFrom (data : Bytes)
  | readAllFrom (globalBuffer : Scratch size) (results : List ReadResult)
  | writeAllTo (results : List WriteResult)
  | dumpTo (disk : ℕ → List WriteResult) (filebuf : FIFOfilebuf)

/-- What an operation gives back to its caller. -/
inductive Answer (size : ℕ)
  | count (n : ℕ)
  | read (globalBuffer : Scratch size) (o : ReadOutcome)
  | wrote (o : WriteOutcome)
  | dumped (filebuf : FIFOfilebuf)

/-- One operation. -/
def perform (q : Circularbuf size) : Op size → Except Fault (Circularbuf size × Answer size)
  | .copyFrom data => .ok ((q.copyFrom data).1, .count (q.copyFrom data).2)
  | .readAllFrom globalBuffer results =>
    (q.readAllFrom globalBuffer results).map fun r => (r.2.1, .read r.1 r.2.2)
  | .writeAllTo results => (q.writeAllTo results).map fun r => (r.1, .wrote r.2)
  | .dumpTo disk filebuf => (q.dumpTo disk filebuf).map fun r => (r.1, .dumped r.2)

/-- What an operation on a queue that holds `contents` is to a bounded queue, by what it has given
back. -/
def Op.event (contents : Bytes) : Op size → Answer size → BoundedQueue.Event UInt8
  | .copyFrom data, .count n => .offered data n
  | .readAllFrom _ _, .read _ o => .offered o.data o.stat.nbytes
  | .writeAllTo _, .wrote o => .emitted o.data
  | .dumpTo _ _, .dumped _ => .emitted contents
  | _, _ => .emitted []

/-- Operations one after another, from a new buffer on: what each of them was to a queue, and the
buffer at the end. -/
inductive RunOf (hpos : 0 < size) : List (BoundedQueue.Event UInt8) → Circularbuf size → Prop
  | new : RunOf hpos [] (new hpos)
  | perform {es : List (BoundedQueue.Event UInt8)} {q q' : Circularbuf size} {op : Op size}
      {answer : Answer size} (h : RunOf hpos es q) (hop : q.perform op = .ok (q', answer)) :
      RunOf hpos (es ++ [op.event q.contents answer]) q'

/-! ### Each operation -/

/-- What `read_all` reads into `global_buffer` fits: the assertion of `read_all_from` holds. -/
theorem readAllFrom_spec (q : Circularbuf size) (globalBuffer : Scratch size)
    (results : List ReadResult) :
    ∃ globalBuffer' q', q.readAllFrom globalBuffer results
        = .ok (globalBuffer', q', readAll results q.remainingSpace) ∧
      q'.contents = q.contents ++ (readAll results q.remainingSpace).data := by
  obtain ⟨hcontents, hcount⟩ := copyFrom_fits (readAll_length_le results q.remainingSpace)
  refine ⟨globalBuffer.put (readAll results q.remainingSpace).data
    (le_trans (readAll_length_le _ _) q.remainingSpace_le), _, ?_, hcontents⟩
  unfold readAllFrom
  simp only [readAll_stat_nbytes, Scratch.first_put]
  rw [if_pos hcount]

/-- A round of the loop in `set_slow_mode` is the last one. -/
theorem dumpAll_succ (q : Circularbuf size) (disk : ℕ → List WriteResult) (f : FIFOfilebuf)
    (rounds : ℕ) : q.dumpAll disk (rounds + 1) f = q.dumpAll disk 1 f ∧
      ∀ q' f', q.dumpAll disk (rounds + 1) f = .ok (q', f') → q'.dataSize = 0 := by
  obtain ⟨q₁, chunks, hnil, -, hdump⟩ := q.dumpTo_chunks
  have h0 : q₁.dataSize = 0 := (dataSize_eq_zero_iff q₁).mpr hnil
  have hstop : ∀ (r : ℕ) (f' : FIFOfilebuf), q₁.dumpAll disk r f' = .ok (q₁, f') := by
    intro r f'
    cases r with
    | zero => rfl
    | succ r =>
      unfold dumpAll
      rw [if_neg (by omega)]
  unfold dumpAll
  by_cases hdata : 0 < q.dataSize
  · rw [if_pos hdata, if_pos hdata, hdump]
    cases FIFOfilebuf.storeEach disk 0 chunks f with
    | error e => exact ⟨rfl, fun _ _ h => by cases h⟩
    | ok f₁ =>
      simp only [Except.map]
      rw [hstop, hstop]
      refine ⟨rfl, fun q' f' h => ?_⟩
      obtain ⟨rfl, -⟩ := Prod.mk.inj (Except.ok.inj h)
      exact h0
  · rw [if_neg hdata, if_neg hdata]
    refine ⟨rfl, fun q' f' h => ?_⟩
    obtain ⟨rfl, -⟩ := Prod.mk.inj (Except.ok.inj h)
    exact Nat.eq_zero_of_not_pos hdata

/-! ### The refinement -/

/-- What a buffer and every operation on it can be relied on for, whatever is copied in and
whatever becomes of the reads and writes. -/
structure Dependable (q : Circularbuf size) : Prop where
  start_inside : q.startPtr < size
  end_inside : q.endPtr < size
  space : q.dataSize + q.remainingSpace = size - 1
  copyFrom : ∀ data,
    (q.copyFrom data).1.contents = q.contents ++ data.take (min data.length q.remainingSpace) ∧
      (q.copyFrom data).2 = min data.length q.remainingSpace
  /-- The assertion of `read_all_from` holds. -/
  readAllFrom : ∀ globalBuffer results, ∃ globalBuffer' q',
    q.readAllFrom globalBuffer results
        = .ok (globalBuffer', q', readAll results q.remainingSpace) ∧
      q'.contents = q.contents ++ (readAll results q.remainingSpace).data
  /-- The assertion of `write_all_to` holds. What it emits, `has_error` and `errno` are those of
  writing the contents in segments, `nbytes` is the difference it computes, and something is left
  just if there was an error. -/
  writeAllTo : ∃ chunks : List Bytes, chunks.flatten = q.contents ∧
    ∀ results, ∃ q' o, q.writeAllTo results = .ok (q', o) ∧ o = writeEach results chunks ∧
      q.contents = o.data ++ q'.contents ∧ o.stat.nbytes = q.dataSize - q'.dataSize ∧
      o.hasError = decide (0 < q'.dataSize)
  /-- `dump_to` hands the contents to the file, in order, and keeps nothing. -/
  dumpTo : ∃ (q' : Circularbuf size) (chunks : List Bytes), q'.contents = [] ∧
    chunks.flatten = q.contents ∧
    (∀ disk f, q.dumpTo disk f
      = (FIFOfilebuf.storeEach disk 0 chunks f).map fun f' => (q', f')) ∧
    ∀ disk sent unread, (∀ k n, written (disk k) n = some n) →
      q.dumpTo disk (.queue sent unread) = .ok (q', .queue sent (unread ++ q.contents))
  /-- The loop that empties the buffer into a file stops after one round, with nothing left. -/
  dumpAll : ∀ disk f rounds, q.dumpAll disk (rounds + 1) f = q.dumpAll disk 1 f ∧
    ∀ q' f', q.dumpAll disk (rounds + 1) f = .ok (q', f') → q'.dataSize = 0

theorem dataSize_lt (q : Circularbuf size) : q.dataSize < size := by
  have hstart := q.start_lt
  have hend := q.end_lt
  unfold dataSize
  split <;> omega

theorem dependable (q : Circularbuf size) : q.Dependable where
  start_inside := q.start_lt
  end_inside := q.end_lt
  space := by
    have hlt := q.dataSize_lt
    unfold remainingSpace
    omega
  copyFrom data := by
    obtain ⟨hcontents, hcount⟩ := q.copyFrom_spec data
    refine ⟨?_, hcount⟩
    rw [hcontents, List.append_cancel_left_eq, List.take_eq_take_iff]
    omega
  readAllFrom := q.readAllFrom_spec
  writeAllTo := by
    obtain ⟨chunks, hflat, hwrite⟩ := q.writeAllTo_chunks
    refine ⟨chunks, hflat, fun results => ?_⟩
    obtain ⟨q', hok⟩ := hwrite results
    obtain ⟨q₁, o, hok₁, hpre, hrest⟩ := q.writeAllTo_spec results
    obtain ⟨rfl, rfl⟩ := Prod.mk.inj (Except.ok.inj (hok₁.symm.trans hok))
    have hle := hpre.length_le
    have herr := writeEach_hasError results chunks
    rw [hflat] at herr
    refine ⟨q₁, _, hok, rfl, ?_, ?_, ?_⟩
    · obtain ⟨rest, heq⟩ := hpre
      rw [hrest, ← heq, List.drop_left]
    · rw [writeAll_stat_nbytes, ← length_contents, ← length_contents, hrest, List.length_drop]
      omega
    · rw [herr, ← length_contents, hrest, List.length_drop, decide_eq_decide]
      omega
  dumpTo := by
    obtain ⟨q', chunks, hnil, hflat, hdump⟩ := q.dumpTo_chunks
    refine ⟨q', chunks, hnil, hflat, hdump, fun disk sent unread hok => ?_⟩
    rcases FIFOfilebuf.storeEach_queue disk 0 chunks sent unread with
      ⟨-, k, n, hlost⟩ | ⟨stored, hstored, hall⟩
    · -- no write has failed
      rw [hok] at hlost
      cases hlost
    · rw [hdump, hstored, hall hok, hflat]
      rfl
  dumpAll := q.dumpAll_succ

/-- **One operation is one event** at the queue of the contents. -/
theorem perform_step {q q' : Circularbuf size} {op : Op size} {answer : Answer size}
    (hop : q.perform op = .ok (q', answer)) :
    BoundedQueue.Step (size - 1) q.contents (op.event q.contents answer) q'.contents := by
  have hspace : ∀ xs : Bytes, min xs.length q.remainingSpace
      = min xs.length (size - 1 - q.contents.length) := fun xs => by rw [remainingSpace_eq]
  cases op with
  | copyFrom data =>
    obtain ⟨rfl, rfl⟩ := Prod.mk.inj (Except.ok.inj hop)
    obtain ⟨hcontents, hcount⟩ := q.dependable.copyFrom data
    show BoundedQueue.Step _ _ (.offered data _) _
    rw [hcontents, hcount, hspace]
    exact .offered _ _
  | readAllFrom globalBuffer results =>
    obtain ⟨globalBuffer', q₁, hok, hcontents⟩ := q.readAllFrom_spec globalBuffer results
    simp only [perform, hok, Except.map] at hop
    obtain ⟨rfl, rfl⟩ := Prod.mk.inj (Except.ok.inj hop)
    -- what is read has been restricted to the space, so it is let in whole
    have hle := readAll_length_le results q.remainingSpace
    rw [remainingSpace_eq] at hle
    rw [hcontents]
    exact .offered_all (by rw [remainingSpace_eq]; exact hle)
  | writeAllTo results =>
    obtain ⟨q₁, o, hok, hpre, hrest⟩ := q.writeAllTo_spec results
    simp only [perform, hok, Except.map] at hop
    obtain ⟨rfl, rfl⟩ := Prod.mk.inj (Except.ok.inj hop)
    obtain ⟨rest, hsplit⟩ := hpre
    rw [← hsplit, List.drop_left] at hrest
    rw [← hsplit, hrest]
    exact .emitted _ _
  | dumpTo disk f =>
    obtain ⟨q₁, chunks, hnil, -, hdump⟩ := q.dumpTo_chunks
    simp only [perform, hdump] at hop
    cases hstore : FIFOfilebuf.storeEach disk 0 chunks f with
    | error e =>
      rw [hstore] at hop
      cases hop
    | ok f' =>
      rw [hstore] at hop
      obtain ⟨rfl, rfl⟩ := Prod.mk.inj (Except.ok.inj hop)
      rw [hnil]
      exact .drained _

/-- What is done with a buffer from its construction on is a run of the queue of its contents. -/
theorem RunOf.queue {hpos : 0 < size} {es : List (BoundedQueue.Event UInt8)}
    {q : Circularbuf size} (hrun : RunOf hpos es q) :
    BoundedQueue.Run (size - 1) [] es q.contents := by
  induction hrun with
  | new =>
    rw [contents_new]
    exact .start
  | perform _ hop ih => exact ih.step (perform_step hop)

/-- **First in, first out.** What has been let into a buffer has left it in the same order or is
still there, and there are never more than `sizeof(buffer) - 1` bytes in it. -/
theorem RunOf.fifo {hpos : 0 < size} {es : List (BoundedQueue.Event UInt8)}
    {q : Circularbuf size} (hrun : RunOf hpos es q) :
    Carries BoundedQueue.Event.entering BoundedQueue.Event.leaving [] es q.contents ∧
      q.contents.length ≤ size - 1 :=
  ⟨hrun.queue.carries, hrun.queue.length_le (Nat.zero_le _)⟩

end Circularbuf

/-- **A circular buffer is a queue of capacity `sizeof(buffer) - 1`.** Whatever has been done with
it since its construction, its contents are those of the queue, its pointers are inside the
buffer, and each operation does what the queue does. -/
theorem circularbuf_refines {size : ℕ} (hpos : 0 < size)
    {es : List (BoundedQueue.Event UInt8)} {q : Circularbuf size}
    (hrun : Circularbuf.RunOf hpos es q) :
    BoundedQueue.Run (size - 1) [] es q.contents ∧ q.Dependable :=
  ⟨hrun.queue, q.dependable⟩

/-- A buffer of three bytes that has gone around its right end: two bytes in, one out, and of the
next two there is room for one. -/
theorem circularbuf_refines_wrapped : ∃ (es : List (BoundedQueue.Event UInt8))
    (q : Circularbuf 3), q.endPtr < q.startPtr ∧ q.contents = [2, 3] ∧
      BoundedQueue.Run (3 - 1) [] es q.contents ∧ q.Dependable := by
  have hfull : Circularbuf.RunOf (Nat.succ_pos 2) _ _ :=
    .perform .new (show (Circularbuf.new _).perform (.copyFrom [1, 2]) = _ from rfl)
  have hsent : Circularbuf.RunOf (Nat.succ_pos 2) _ _ :=
    hfull.perform (show Circularbuf.perform _ (.writeAllTo [.wrote 0]) = _ from rfl)
  have hwrapped : Circularbuf.RunOf (Nat.succ_pos 2) _ _ :=
    hsent.perform (show Circularbuf.perform _ (.copyFrom [3, 4]) = _ from rfl)
  exact ⟨_, _, by decide, by decide, circularbuf_refines (Nat.succ_pos 2) hwrapped⟩

end LSProxy
