import LSProxy.Model.Filebuf

/-!
# The circular buffer

`class Circularbuf` of `buffer.h` and `buffer.cpp`: an array with a start and an end pointer, one
cell of which never stores data. The structure carries the facts that make an index into the
array safe, so a `Circularbuf size` with a pointer outside its array does not exist; each
operation of the source proves them again for its result.

`contents` reads the bytes between the pointers, around the right end if need be. In terms of it
every operation is an operation of a bounded queue: `copyFrom` appends what fits
(`copyFrom_spec`), `writeAllTo` removes the prefix it sends (`writeAllTo_spec`), `dumpTo`
moves everything to a file (`dumpTo_spec`). The last two go through the contents in one or two
segments (`writeAllTo_chunks`, `dumpTo_chunks`).
-/

namespace LSProxy

open Segment

/-! ### Storing one chunk after another -/

namespace FIFOfilebuf

/-- Store one chunk after another, the `i`-th with the results `disk (k + i)`. -/
def storeEach (disk : ℕ → List WriteResult) :
    ℕ → List Bytes → FIFOfilebuf → Except Fault FIFOfilebuf
  | _, [], f => .ok f
  | k, data :: chunks, f =>
    match f.store (disk k) data with
    | .error e => .error e
    | .ok f' => storeEach disk (k + 1) chunks f'

/-- Storing chunks one after another appends what reaches the disk of each, unless one of the
writes fails for good. -/
theorem storeEach_queue (disk : ℕ → List WriteResult) (k : ℕ) (chunks : List Bytes)
    (sent unread : Bytes) :
    (storeEach disk k chunks (queue sent unread) = .error .errorExit ∧
        ∃ j n, written (disk j) n = none) ∨
      ∃ stored, storeEach disk k chunks (queue sent unread)
          = .ok (queue sent (unread ++ stored)) ∧
        ((∀ j n, written (disk j) n = some n) → stored = chunks.flatten) := by
  induction chunks generalizing k unread with
  | nil => exact Or.inr ⟨[], by rw [List.append_nil]; rfl, fun _ => rfl⟩
  | cons data chunks ih =>
    unfold storeEach
    rw [store_queue]
    cases hw : written (disk k) data.length with
    | none => exact Or.inl ⟨rfl, k, _, hw⟩
    | some n =>
      rcases ih (k + 1) (unread ++ data.take n) with ⟨herr, hlost⟩ | ⟨stored, hstored, hall⟩
      · exact Or.inl ⟨herr, hlost⟩
      · refine Or.inr ⟨data.take n ++ stored, ?_, ?_⟩
        · rw [← List.append_assoc]
          exact hstored
        · intro hok
          obtain rfl := Option.some.inj (hw.symm.trans (hok k _))
          rw [hall hok, List.take_length, List.flatten_cons]

end FIFOfilebuf

/-! ### Writing one chunk after another -/

/-- Write one chunk after another, as long as they are written in full. -/
def writeEach : List WriteResult → List Bytes → WriteOutcome
  | _, [] => {}
  | results, data :: chunks =>
    let o := writeAll results data
    if o.data.length < data.length ∨ chunks = [] then o
    else
      let o' := writeEach o.rest chunks
      { o' with data := o.data ++ o'.data }

@[simp] theorem writeEach_singleton (results : List WriteResult) (data : Bytes) :
    writeEach results [data] = writeAll results data := by
  simp [writeEach]

/-- Writing stops short only on an error. -/
theorem writeEach_hasError (results : List WriteResult) (chunks : List Bytes) :
    (writeEach results chunks).hasError
      = decide ((writeEach results chunks).data.length < chunks.flatten.length) := by
  induction chunks generalizing results with
  | nil => rfl
  | cons data chunks ih =>
    unfold writeEach
    have herr := writeAll_hasError results data
    have hle := writeAll_length_le results data
    rw [List.flatten_cons, List.length_append]
    dsimp only
    split
    · next hstop =>
      rw [herr, decide_eq_decide]
      rcases hstop with hlt | rfl
      · exact iff_of_true hlt (Nat.lt_add_right _ hlt)
      · rfl
    · next hgo =>
      -- the first chunk is out, and the error is that of the others
      have hall : (writeAll results data).data.length = data.length := by omega
      rw [ih, decide_eq_decide, List.length_append, hall]
      omega

/-! ### The buffer -/

/-- `class Circularbuf` with `sizeof(buffer) = size`. -/
structure Circularbuf (size : ℕ) where
  buffer : Bytes
  startPtr : ℕ
  endPtr : ℕ
  buffer_length : buffer.length = size
  start_lt : startPtr < size
  end_lt : endPtr < size

namespace Circularbuf

variable {size : ℕ}

/-- `Circularbuf::Circularbuf`. -/
def new (h : 0 < size) : Circularbuf size :=
  ⟨List.replicate size 0, 0, 0, length_zeros size, h, h⟩

/-- `Circularbuf::data_size`. -/
def dataSize (q : Circularbuf size) : ℕ :=
  if q.startPtr ≤ q.endPtr then q.endPtr - q.startPtr else size - (q.startPtr - q.endPtr)

/-- `Circularbuf::remaining_space`. -/
def remainingSpace (q : Circularbuf size) : ℕ := size - 1 - q.dataSize

theorem remainingSpace_le (q : Circularbuf size) : q.remainingSpace ≤ size := by
  unfold remainingSpace
  omega

theorem remainingSpace_right {q : Circularbuf size} (h : q.startPtr ≤ q.endPtr) :
    q.remainingSpace = size - 1 - (q.endPtr - q.startPtr) := by
  simp [remainingSpace, dataSize, h]

theorem remainingSpace_left {q : Circularbuf size} (h : ¬ q.startPtr ≤ q.endPtr) :
    q.remainingSpace = q.startPtr - q.endPtr - 1 := by
  have := q.start_lt
  simp only [remainingSpace, dataSize, if_neg h]
  omega

/-- The bytes between the pointers, in order. -/
def contents (q : Circularbuf size) : Bytes :=
  if q.startPtr ≤ q.endPtr then slice q.buffer q.startPtr q.endPtr
  else slice q.buffer q.startPtr size ++ slice q.buffer 0 q.endPtr

/-! ### Moving the pointers

The three ways the source changes a buffer: data is laid down at the end pointer, towards the
right end or up to the start pointer, and the start pointer moves over data already used. -/

/-- Lay `data` down at the end pointer, which moves to `e`. -/
def put (q : Circularbuf size) (data : Bytes) (e : ℕ) (hfit : q.endPtr + data.length ≤ size)
    (he : e < size) : Circularbuf size :=
  { q with
    buffer := overwrite q.buffer q.endPtr data
    endPtr := e
    buffer_length := by rw [length_overwrite (by rw [q.buffer_length]; exact hfit), q.buffer_length]
    end_lt := he }

/-- Move the start pointer to `s`. -/
def seek (q : Circularbuf size) (s : ℕ) (hs : s < size) : Circularbuf size :=
  { q with startPtr := s, start_lt := hs }

/-- What is copied towards the right end fits. -/
theorem right_fits (q : Circularbuf size) (data : Bytes) (n : ℕ) :
    q.endPtr + (data.take (min n (size - q.endPtr))).length ≤ size := by
  have := q.end_lt
  rw [List.length_take]
  omega

/-- So does what is copied from the start of the buffer after that. -/
theorem wrap_fits {q q' : Circularbuf size} (data : Bytes) {n : ℕ} (hn : n ≤ q.remainingSpace)
    (hq' : q'.endPtr = 0) :
    q'.endPtr + (slice data (min n (size - q.endPtr)) n).length ≤ size := by
  have := q.remainingSpace_le
  rw [hq', slice, List.length_take]
  omega

/-- And what is copied towards the start pointer. -/
theorem left_fits (q : Circularbuf size) (data : Bytes) {n : ℕ} (hn : n ≤ q.remainingSpace)
    (h : ¬ q.startPtr ≤ q.endPtr) : q.endPtr + (data.take n).length ≤ size := by
  have := q.start_lt
  have := remainingSpace_left h
  rw [List.length_take]
  omega

/-- The body of `copy_from`, once `size` has been restricted by the space: copy the first `n`
bytes of `data`. -/
def copyIn (q : Circularbuf size) (data : Bytes) (n : ℕ) (hn : n ≤ q.remainingSpace) :
    Circularbuf size × ℕ :=
  if h : q.startPtr ≤ q.endPtr then
    -- copy towards right-end
    let count := min n (size - q.endPtr)
    if hc : count < size - q.endPtr then
      (q.put (data.take count) (q.endPtr + count) (q.right_fits data n) (by omega), count)
    else
      -- wrap to start
      let q' := q.put (data.take count) 0 (q.right_fits data n) (by have := q.end_lt; omega)
      if 0 < n - count then
        -- copy towards start_ptr
        (q'.put (slice data count n) (n - count) (wrap_fits data hn rfl)
          (by have := q.end_lt; have hs := remainingSpace_right h; omega), n)
      else (q', count)
  else
    -- copy towards start_ptr
    (q.put (data.take n) (q.endPtr + n) (q.left_fits data hn h)
      (by have := q.start_lt; have hs := remainingSpace_left h; omega), n)

/-- `Circularbuf::copy_from`: the buffer and the number of bytes copied. -/
def copyFrom (q : Circularbuf size) (data : Bytes) : Circularbuf size × ℕ :=
  if 0 < min data.length q.remainingSpace then
    q.copyIn data (min data.length q.remainingSpace) (min_le_right _ _)
  else (q, 0)

/-- `Circularbuf::read_all_from`, through `global_buffer`, and what it has read. -/
def readAllFrom (q : Circularbuf size) (globalBuffer : Scratch size) (results : List ReadResult) :
    Except Fault (Scratch size × Circularbuf size × ReadOutcome) :=
  let o := readAll results q.remainingSpace
  let globalBuffer' :=
    globalBuffer.put o.data (le_trans (readAll_length_le _ _) q.remainingSpace_le)
  -- copy to internal buffer
  let r := q.copyFrom (globalBuffer'.first o.stat.nbytes)
  if r.2 = o.stat.nbytes then .ok (globalBuffer', r.1, o) else .error .assertFailed

theorem dataSize_right {q : Circularbuf size} (h : ¬ q.endPtr < q.startPtr) :
    q.startPtr + q.dataSize = q.endPtr := by
  simp only [dataSize, if_pos (Nat.le_of_not_lt h)]
  omega

theorem dataSize_left {q : Circularbuf size} (h : q.endPtr < q.startPtr) :
    q.dataSize = size - q.startPtr + q.endPtr := by
  have := q.start_lt
  simp only [dataSize, if_neg (Nat.not_le_of_lt h)]
  omega

/-- What is written of a segment that stops at position `b`. -/
theorem writeAll_slice_le (q : Circularbuf size) (results : List WriteResult) (a : ℕ) {b : ℕ}
    (hb : b ≤ size) : (writeAll results (slice q.buffer a b)).data.length ≤ b - a := by
  rw [← length_slice (a := a) (show b ≤ q.buffer.length by rw [q.buffer_length]; exact hb)]
  exact writeAll_length_le _ _

/-- The branch `start_ptr > end_ptr` of `write_all_to`, when `o` is what the write towards the
right end has done. -/
def wrapWrite (q : Circularbuf size) (h : q.endPtr < q.startPtr) (o : WriteOutcome) :
    Except Fault (Circularbuf size × WriteOutcome) :=
  if hlt : o.data.length < size - q.startPtr then
    if o.hasError then .ok (q.seek (q.startPtr + o.data.length) (by omega), o)
    else .error .assertFailed
  else
    -- wrap to start
    let q' := q.seek 0 (by have := q.start_lt; omega)
    let rest := q.dataSize - o.data.length
    if 0 < rest then
      -- fetch towards end_ptr
      let o' := writeAll o.rest (slice q.buffer 0 rest)
      .ok (q'.seek o'.data.length (by
          have hsize := q.dataSize_left h
          have hend := q.end_lt
          have hle : o'.data.length ≤ rest - 0 := q.writeAll_slice_le _ 0 (by omega)
          omega),
        { o' with data := o.data ++ o'.data })
    else .ok (q', o)

/-- `Circularbuf::write_all_to`: the buffer, and what has been written of it. -/
def writeAllTo (q : Circularbuf size) (results : List WriteResult) :
    Except Fault (Circularbuf size × WriteOutcome) :=
  if 0 < q.dataSize then
    if h : q.endPtr < q.startPtr then
      -- fetch towards right-end
      q.wrapWrite h (writeAll results (slice q.buffer q.startPtr size))
    else
      -- fetch towards end_ptr
      let o := writeAll results (slice q.buffer q.startPtr (q.startPtr + q.dataSize))
      .ok (q.seek (q.startPtr + o.data.length) (by
          have hsize := q.dataSize_right h
          have hend := q.end_lt
          have hle : o.data.length ≤ q.startPtr + q.dataSize - q.startPtr :=
            q.writeAll_slice_le _ _ (by omega)
          omega), o)
  else .ok (q, {})

/-- `Circularbuf::dump_to`, the two stores with the results `disk 0` and `disk 1`. -/
def dumpTo (q : Circularbuf size) (disk : ℕ → List WriteResult) (f : FIFOfilebuf) :
    Except Fault (Circularbuf size × FIFOfilebuf) :=
  if 0 < q.dataSize then
    if h : q.endPtr < q.startPtr then
      -- fetch towards right-end
      match f.store (disk 0) (slice q.buffer q.startPtr size) with
      | .error e => .error e
      | .ok f' =>
        -- wrap to start
        let q' := q.seek 0 (by have := q.start_lt; omega)
        let rest := q.dataSize - (size - q.startPtr)
        if 0 < rest then
          -- fetch towards end_ptr
          match f'.store (disk 1) (slice q.buffer 0 rest) with
          | .error e => .error e
          | .ok f'' => .ok (q'.seek rest (by
              have hsize := q.dataSize_left h
              have hend := q.end_lt
              omega), f'')
        else .ok (q', f')
    else
      -- fetch towards end_ptr
      match f.store (disk 0) (slice q.buffer q.startPtr (q.startPtr + q.dataSize)) with
      | .error e => .error e
      | .ok f' => .ok (q.seek (q.startPtr + q.dataSize) (by
          have hsize := q.dataSize_right h
          have hend := q.end_lt
          omega), f')
  else .ok (q, f)

/-! ### The contents -/

theorem contents_right {q : Circularbuf size} (h : ¬ q.endPtr < q.startPtr) :
    q.contents = slice q.buffer q.startPtr q.endPtr := by
  rw [contents, if_pos (Nat.le_of_not_lt h)]

theorem contents_left {q : Circularbuf size} (h : q.endPtr < q.startPtr) :
    q.contents = slice q.buffer q.startPtr size ++ slice q.buffer 0 q.endPtr := by
  rw [contents, if_neg (Nat.not_le_of_lt h)]

@[simp] theorem contents_new (h : 0 < size) : (new h).contents = [] := by
  simp [contents, new]

/-- `data_size` is the number of bytes between the pointers. -/
theorem length_contents (q : Circularbuf size) : q.contents.length = q.dataSize := by
  have hbuf := q.buffer_length
  have hend := q.end_lt
  have hstart := q.start_lt
  unfold contents dataSize
  split
  · rw [length_slice (by omega)]
  · rw [List.length_append, length_slice (by omega), length_slice (by omega)]
    omega

theorem dataSize_pos_iff (q : Circularbuf size) : 0 < q.dataSize ↔ q.contents ≠ [] := by
  rw [← length_contents, List.length_pos_iff]

theorem dataSize_eq_zero_iff (q : Circularbuf size) : q.dataSize = 0 ↔ q.contents = [] := by
  rw [← length_contents, List.length_eq_zero_iff]

/-- The space that remains is what the contents leave of `size - 1`. -/
theorem remainingSpace_eq (q : Circularbuf size) :
    q.remainingSpace = size - 1 - q.contents.length := by
  rw [length_contents, remainingSpace]

/-! ### `copy_from` -/

/-- Data laid down before the right end. -/
theorem contents_put_right {q : Circularbuf size} {data : Bytes} {e : ℕ}
    {hfit : q.endPtr + data.length ≤ size} {he : e < size} (h : ¬ q.endPtr < q.startPtr)
    (hdata : e = q.endPtr + data.length) :
    (q.put data e hfit he).contents = q.contents ++ data := by
  subst hdata
  have hbuf := q.buffer_length
  rw [contents_right (by simp only [put]; omega), contents_right h]
  simp only [put]
  rw [← slice_append (b := q.endPtr) (by omega) (by omega),
    slice_overwrite_before le_rfl (by omega), slice_overwrite_self (by omega)]

/-- Data laid down up to the right end: the end pointer wraps. -/
theorem contents_put_wrap {q : Circularbuf size} {data : Bytes} {e : ℕ}
    {hfit : q.endPtr + data.length ≤ size} {he : e < size} (h : ¬ q.endPtr < q.startPtr)
    (h0 : e = 0) (hdata : q.endPtr + data.length = size) (hpos : 0 < q.startPtr) :
    (q.put data e hfit he).contents = q.contents ++ data := by
  subst h0
  have hbuf := q.buffer_length
  rw [contents_left (by simpa [put] using hpos), contents_right h]
  simp only [put, slice_self, List.append_nil]
  have hself := slice_overwrite_self (show q.endPtr ≤ q.buffer.length by omega) data
  rw [hdata] at hself
  rw [← slice_append (b := q.endPtr) (by omega) (by omega),
    slice_overwrite_before le_rfl (by omega), hself]

/-- Data laid down before the start pointer. -/
theorem contents_put_left {q : Circularbuf size} {data : Bytes} {e : ℕ}
    {hfit : q.endPtr + data.length ≤ size} {he : e < size} (h : q.endPtr < q.startPtr)
    (hdata : e = q.endPtr + data.length) (hlt : e < q.startPtr) :
    (q.put data e hfit he).contents = q.contents ++ data := by
  subst hdata
  have hbuf := q.buffer_length
  have hend := q.end_lt
  rw [contents_left (by simpa only [put] using hlt), contents_left h]
  simp only [put]
  rw [slice_overwrite_after (by omega) (by omega),
    ← slice_append (a := 0) (b := q.endPtr) (by omega) (by omega),
    slice_overwrite_before le_rfl (by omega), slice_overwrite_self (by omega),
    List.append_assoc]

theorem copyIn_spec (q : Circularbuf size) {data : Bytes} {n : ℕ} (hn : n ≤ q.remainingSpace)
    (hdata : n ≤ data.length) (hpos : 0 < n) :
    (q.copyIn data n hn).1.contents = q.contents ++ data.take n ∧
      (q.copyIn data n hn).2 = n := by
  have hend := q.end_lt
  have hstart := q.start_lt
  have hlen : ∀ k ≤ n, (data.take k).length = k := by
    intro k hk
    rw [List.length_take]
    omega
  unfold copyIn
  split
  · next h =>
    have hspace := remainingSpace_right h
    simp only
    split
    · next hc =>
      -- it fits before the right end
      have hmin : min n (size - q.endPtr) = n := by omega
      refine ⟨?_, hmin⟩
      rw [contents_put_right (by omega) (by rw [hlen _ (by omega)]), hmin]
    · next hc =>
      have hfit : q.endPtr + (data.take (min n (size - q.endPtr))).length = size := by
        rw [hlen _ (by omega)]
        omega
      have hwrap : (q.put (data.take (min n (size - q.endPtr))) 0 hfit.le
          (by omega)).contents = q.contents ++ data.take (min n (size - q.endPtr)) :=
        contents_put_wrap (by omega) rfl hfit (by omega)
      split
      · next hr =>
        -- it goes on from the head
        refine ⟨?_, rfl⟩
        have hslice : (slice data (min n (size - q.endPtr)) n).length
            = n - min n (size - q.endPtr) := length_slice hdata
        rw [contents_put_left (by simp only [put]; omega) (by simp only [put, hslice]; omega)
          (by simp only [put]; omega), hwrap, List.append_assoc]
        congr 1
        have h0 : ∀ k, data.take k = slice data 0 k := fun k => by simp [slice]
        rw [h0, h0, slice_append (by omega) (by omega)]
      · next hr =>
        have hall : min n (size - q.endPtr) = n := by omega
        refine ⟨?_, hall⟩
        rw [hwrap, hall]
  · next h =>
    -- the free cells lie between the pointers
    have hspace := remainingSpace_left h
    refine ⟨?_, rfl⟩
    rw [contents_put_left (by omega) (by rw [hlen _ le_rfl]) (by omega)]

/-- **`copy_from` appends what fits**, and returns how much that is. -/
theorem copyFrom_spec (q : Circularbuf size) (data : Bytes) :
    (q.copyFrom data).1.contents = q.contents ++ data.take q.remainingSpace ∧
      (q.copyFrom data).2 = min data.length q.remainingSpace := by
  have htake : data.take q.remainingSpace = data.take (min data.length q.remainingSpace) := by
    rw [List.take_eq_take_iff]
    omega
  rw [htake]
  unfold copyFrom
  split
  · next hpos => exact q.copyIn_spec _ (min_le_left _ _) hpos
  · next hpos =>
    have h0 : min data.length q.remainingSpace = 0 := by omega
    rw [h0]
    simp

/-- Data that fits is appended whole. -/
theorem copyFrom_fits {q : Circularbuf size} {data : Bytes} (h : data.length ≤ q.remainingSpace) :
    (q.copyFrom data).1.contents = q.contents ++ data ∧ (q.copyFrom data).2 = data.length := by
  obtain ⟨hc, hn⟩ := q.copyFrom_spec data
  rw [List.take_of_length_le h] at hc
  exact ⟨hc, by rw [hn]; omega⟩

/-! ### `write_all_to` and `dump_to` -/

theorem contents_seek_right {q : Circularbuf size} {s : ℕ} {hs : s < size}
    (h : ¬ q.endPtr < q.startPtr) (hle : s ≤ q.endPtr) (hge : q.startPtr ≤ s) :
    (q.seek s hs).contents = q.contents.drop (s - q.startPtr) := by
  rw [contents_right (by simp only [seek]; omega), contents_right h, drop_slice]
  simp only [seek]
  congr 1
  omega

theorem contents_seek_left {q : Circularbuf size} {s : ℕ} {hs : s < size}
    (h : q.endPtr < q.startPtr) (hge : q.startPtr ≤ s) :
    (q.seek s hs).contents = q.contents.drop (s - q.startPtr) := by
  have hbuf := q.buffer_length
  rw [contents_left (by simp only [seek]; omega), contents_left h, List.drop_append,
    length_slice (by omega), drop_slice]
  have h0 : s - q.startPtr - (size - q.startPtr) = 0 := by omega
  simp only [seek]
  rw [h0, List.drop_zero]
  congr 2
  omega

theorem contents_seek_wrap {q : Circularbuf size} {s : ℕ} {hs : s < size}
    (h : q.endPtr < q.startPtr) (hle : s ≤ q.endPtr) :
    (q.seek s hs).contents = q.contents.drop (size - q.startPtr + s) := by
  have hbuf := q.buffer_length
  have hlen : (slice q.buffer q.startPtr size).length = size - q.startPtr :=
    length_slice (by omega)
  rw [contents_right (by simp only [seek]; omega), contents_left h, List.drop_append, hlen,
    List.drop_eq_nil_of_le (by omega), List.nil_append, drop_slice]
  simp only [seek]
  congr 1
  omega

theorem wrapWrite_spec {q : Circularbuf size} (h : q.endPtr < q.startPtr) {o : WriteOutcome}
    (hpre : o.data <+: slice q.buffer q.startPtr size)
    (herr : o.hasError = decide (o.data.length < (slice q.buffer q.startPtr size).length)) :
    ∃ q' o', q.wrapWrite h o = .ok (q', o') ∧ o'.data <+: q.contents ∧
      q'.contents = q.contents.drop o'.data.length := by
  have hbuf := q.buffer_length
  have hend := q.end_lt
  have hstart := q.start_lt
  have hlen : (slice q.buffer q.startPtr size).length = size - q.startPtr :=
    length_slice (by omega)
  have hle := hpre.length_le
  have hcont := contents_left h
  unfold wrapWrite
  split
  · next hlt =>
    -- short of the right end, so the last write has failed
    rw [if_pos (by rw [herr, decide_eq_true_iff, hlen]; exact hlt)]
    refine ⟨_, o, rfl, hcont ▸ hpre.trans (List.prefix_append _ _), ?_⟩
    rw [contents_seek_left h (by omega), Nat.add_sub_cancel_left]
  · next hlt =>
    have hall : o.data = slice q.buffer q.startPtr size := hpre.eq_of_length (by omega)
    have hsize := dataSize_left h
    have hrest : q.dataSize - o.data.length = q.endPtr := by omega
    have hwl := q.writeAll_slice_le o.rest 0 hend.le
    simp only [hrest]
    split
    · -- go on from the head
      refine ⟨_, _, rfl, ?_, ?_⟩
      · rw [hcont, hall]
        exact (List.prefix_append_right_inj _).mpr (writeAll_isPrefix _ _)
      · change (q.seek _ _).contents = _
        rw [contents_seek_wrap h (by omega), List.length_append]
        congr 1
        omega
    · next hr =>
      -- the end pointer is at the head: nothing is left
      refine ⟨_, o, rfl, hcont ▸ hpre.trans (List.prefix_append _ _), ?_⟩
      rw [contents_seek_wrap h (by omega)]
      congr 1
      omega

/-- **`write_all_to` sends a prefix of the contents and removes it.** Its assertion holds. -/
theorem writeAllTo_spec (q : Circularbuf size) (results : List WriteResult) :
    ∃ q' o, q.writeAllTo results = .ok (q', o) ∧ o.data <+: q.contents ∧
      q'.contents = q.contents.drop o.data.length := by
  have hend := q.end_lt
  unfold writeAllTo
  split
  · split
    · next h => exact wrapWrite_spec h (writeAll_isPrefix _ _) (writeAll_hasError _ _)
    · next h =>
      have hsize := dataSize_right h
      have hle := q.writeAll_slice_le results q.startPtr
        (show q.startPtr + q.dataSize ≤ size by omega)
      refine ⟨_, _, rfl, ?_, ?_⟩
      · rw [contents_right h, hsize]
        exact writeAll_isPrefix _ _
      · rw [contents_seek_right h (by omega) (by omega), Nat.add_sub_cancel_left]
  · next h =>
    refine ⟨q, {}, rfl, List.nil_prefix, ?_⟩
    simp

/-- A write that stops short of the right end has failed, and nothing more is written. -/
theorem wrapWrite_short {q : Circularbuf size} (h : q.endPtr < q.startPtr)
    (results : List WriteResult)
    (hlt : (writeAll results (slice q.buffer q.startPtr size)).data.length < size - q.startPtr) :
    ∃ q', q.wrapWrite h (writeAll results (slice q.buffer q.startPtr size))
      = .ok (q', writeAll results (slice q.buffer q.startPtr size)) := by
  have hlen : (slice q.buffer q.startPtr size).length = size - q.startPtr :=
    length_slice (by rw [q.buffer_length])
  have herr := writeAll_hasError results (slice q.buffer q.startPtr size)
  rw [hlen, decide_eq_true hlt] at herr
  unfold wrapWrite
  rw [dif_pos hlt, if_pos herr]
  exact ⟨_, rfl⟩

/-- The segments `write_all_to` writes: one, or two around the right end. What it emits, the error
flag and the `errno` are those of writing them. -/
theorem writeAllTo_chunks (q : Circularbuf size) :
    ∃ chunks : List Bytes, chunks.flatten = q.contents ∧
      ∀ results, ∃ q', q.writeAllTo results = .ok (q', writeEach results chunks) := by
  have hend := q.end_lt
  by_cases hdata : 0 < q.dataSize
  · by_cases h : q.endPtr < q.startPtr
    · have hsize := dataSize_left h
      have hlen : (slice q.buffer q.startPtr size).length = size - q.startPtr :=
        length_slice (by rw [q.buffer_length])
      by_cases hwrap : 0 < q.endPtr
      · -- the contents go around the right end
        refine ⟨[slice q.buffer q.startPtr size, slice q.buffer 0 q.endPtr], ?_, fun results => ?_⟩
        · rw [contents_left h, List.flatten_cons, List.flatten_singleton]
        · have hle := writeAll_length_le results (slice q.buffer q.startPtr size)
          unfold writeAllTo
          rw [if_pos hdata, dif_pos h]
          simp only [writeEach, hlen]
          by_cases hlt :
              (writeAll results (slice q.buffer q.startPtr size)).data.length < size - q.startPtr
          · rw [if_pos (.inl hlt)]
            exact wrapWrite_short h results hlt
          · have hrest : q.dataSize -
                (writeAll results (slice q.buffer q.startPtr size)).data.length = q.endPtr := by
              omega
            unfold wrapWrite
            simp only [hrest, if_pos hwrap, hlt, List.cons_ne_nil, or_self, if_false, or_true,
              if_true]
            exact ⟨_, rfl⟩
      · -- they end exactly at the right end
        refine ⟨[slice q.buffer q.startPtr size], ?_, fun results => ?_⟩
        · have h0 : q.endPtr = 0 := by omega
          rw [contents_left h, h0, slice_self, List.append_nil, List.flatten_singleton]
        · unfold writeAllTo
          rw [if_pos hdata, dif_pos h, writeEach_singleton]
          by_cases hlt :
              (writeAll results (slice q.buffer q.startPtr size)).data.length < size - q.startPtr
          · exact wrapWrite_short h results hlt
          · unfold wrapWrite
            dsimp only
            rw [dif_neg hlt, if_neg (by omega)]
            exact ⟨_, rfl⟩
    · refine ⟨[slice q.buffer q.startPtr q.endPtr], ?_, fun results => ?_⟩
      · rw [contents_right h, List.flatten_singleton]
      · unfold writeAllTo
        rw [if_pos hdata, dif_neg h, writeEach_singleton]
        simp only [dataSize_right h]
        exact ⟨_, rfl⟩
  · refine ⟨[], ?_, fun results => ?_⟩
    · exact ((dataSize_eq_zero_iff q).mp (by omega)).symm
    · unfold writeAllTo
      rw [if_neg hdata]
      exact ⟨q, rfl⟩

/-- The segments `dump_to` stores: one, or two around the right end. -/
theorem dumpTo_chunks (q : Circularbuf size) :
    ∃ (q' : Circularbuf size) (chunks : List Bytes), q'.contents = [] ∧
      chunks.flatten = q.contents ∧ ∀ disk f,
        q.dumpTo disk f = (FIFOfilebuf.storeEach disk 0 chunks f).map fun f' => (q', f') := by
  have hend := q.end_lt
  have hstart := q.start_lt
  by_cases hdata : 0 < q.dataSize
  · by_cases h : q.endPtr < q.startPtr
    · have hsize := dataSize_left h
      have hrest : q.dataSize - (size - q.startPtr) = q.endPtr := by omega
      by_cases hwrap : 0 < q.endPtr
      · -- the contents go around the right end
        refine ⟨q.seek q.endPtr hend, [slice q.buffer q.startPtr size, slice q.buffer 0 q.endPtr],
          ?_, ?_, ?_⟩
        · rw [contents_seek_wrap h le_rfl, List.drop_eq_nil_iff, length_contents]
          omega
        · rw [contents_left h, List.flatten_cons, List.flatten_cons, List.flatten_nil,
            List.append_nil]
        · intro disk f
          unfold dumpTo
          rw [if_pos hdata, dif_pos h]
          simp only [hrest, if_pos hwrap, FIFOfilebuf.storeEach]
          cases f.store (disk 0) (slice q.buffer q.startPtr size) with
          | error e => rfl
          | ok f' =>
            simp only
            cases f'.store (disk 1) (slice q.buffer 0 q.endPtr) with
            | error e => rfl
            | ok f'' => rfl
      · -- they end exactly at the right end
        have h0 : q.endPtr = 0 := by omega
        refine ⟨q.seek 0 (by omega), [slice q.buffer q.startPtr size], ?_, ?_, ?_⟩
        · rw [contents_seek_wrap h (Nat.zero_le _), List.drop_eq_nil_iff, length_contents]
          omega
        · rw [contents_left h, h0, slice_self, List.flatten_cons, List.flatten_nil]
        · intro disk f
          unfold dumpTo
          rw [if_pos hdata, dif_pos h]
          simp only [hrest, if_neg hwrap, FIFOfilebuf.storeEach]
          cases f.store (disk 0) (slice q.buffer q.startPtr size) with
          | error e => rfl
          | ok f' => rfl
    · have hsize := dataSize_right h
      refine ⟨q.seek q.endPtr hend, [slice q.buffer q.startPtr q.endPtr], ?_, ?_, ?_⟩
      · rw [contents_seek_right h le_rfl (by omega), List.drop_eq_nil_iff, length_contents]
        omega
      · rw [contents_right h, List.flatten_cons, List.flatten_nil, List.append_nil]
      · intro disk f
        unfold dumpTo
        rw [if_pos hdata, dif_neg h]
        simp only [hsize, FIFOfilebuf.storeEach]
        cases f.store (disk 0) (slice q.buffer q.startPtr q.endPtr) with
        | error e => rfl
        | ok f' => rfl
  · have hnil : q.contents = [] := (dataSize_eq_zero_iff q).mp (by omega)
    refine ⟨q, [], hnil, hnil.symm, fun disk f => ?_⟩
    unfold dumpTo
    rw [if_neg hdata]
    rfl

/-- **`dump_to` empties the queue into the file**, unless a write to the file fails for good.
When no write loses data, the whole contents follow what the file held. -/
theorem dumpTo_spec (q : Circularbuf size) (disk : ℕ → List WriteResult) (sent unread : Bytes) :
    (q.dumpTo disk (.queue sent unread) = .error .errorExit ∧ ∃ k n, written (disk k) n = none) ∨
      ∃ q' stored, q.dumpTo disk (.queue sent unread) = .ok (q', .queue sent (unread ++ stored)) ∧
        q'.contents = [] ∧
        ((∀ k n, written (disk k) n = some n) → stored = q.contents) := by
  obtain ⟨q', chunks, hnil, hflat, hdump⟩ := q.dumpTo_chunks
  rw [hdump]
  rcases FIFOfilebuf.storeEach_queue disk 0 chunks sent unread with
    ⟨herr, hlost⟩ | ⟨stored, hstored, hall⟩
  · refine Or.inl ⟨?_, hlost⟩
    rw [herr]
    rfl
  · refine Or.inr ⟨q', stored, ?_, hnil, fun hok => (hall hok).trans hflat⟩
    rw [hstored]
    rfl

end Circularbuf

end LSProxy
