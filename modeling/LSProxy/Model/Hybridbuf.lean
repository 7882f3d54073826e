import LSProxy.Model.Filebuf

/-!
# The hybrid buffer

`class Hybridbuf` of `buffer.h` and `buffer.cpp`, the request history: a block of memory of
`HIST_CACHE_SIZE` bytes in front of a file. The memory is never cleared, so what lies past the
stored data is whatever an earlier user left there.

One logical cursor is split into `next_pos` and the file offset. `Hybridbuf.At c p` says that the
buffer holds the content `c` and stands at position `p`: storing at the end appends
(`At.store`), fetching reads on from `p` (`At.fetch`), `clear` gives the empty content whatever
the buffer held (`clear_at`), and `copyData` copies the whole content (`copyData_at`).
-/

namespace LSProxy

open Segment

/-- Subtraction of two `size_t`. -/
def sizeSub (a b : ℕ) : ℕ := (a + (2 ^ 64 - b % 2 ^ 64)) % 2 ^ 64

theorem sizeSub_of_le {a b : ℕ} (h : b ≤ a) (ha : a < 2 ^ 64) : sizeSub a b = a - b := by
  unfold sizeSub
  rw [Nat.mod_eq_of_lt (Nat.lt_of_le_of_lt h ha)]
  omega

/-- `class Hybridbuf` with `HIST_CACHE_SIZE = cache`. -/
structure Hybridbuf (cache : ℕ) extends Filebuf where
  buffer : Bytes
  nextPos : ℕ := 0
  buffer_length : buffer.length = cache

namespace Hybridbuf

variable {cache : ℕ}

/-- `Hybridbuf::Hybridbuf`. -/
def new (cache : ℕ) : Hybridbuf cache :=
  { buffer := List.replicate cache 0, buffer_length := length_zeros cache }

/-- `_buf_remaining_space`. -/
def bufRemainingSpace (h : Hybridbuf cache) : ℕ :=
  if h.nextPos < cache then cache - h.nextPos else 0

theorem bufRemainingSpace_eq (h : Hybridbuf cache) :
    h.bufRemainingSpace = cache - h.nextPos := by
  unfold bufRemainingSpace
  split <;> omega

/-- `_buf_unread_data_size`. -/
def bufUnreadDataSize (h : Hybridbuf cache) : ℕ := sizeSub (min h.dataSize cache) h.nextPos

/-- `_buf_write`: the buffer and the number of bytes written to memory. -/
def bufWrite (h : Hybridbuf cache) (data : Bytes) : Hybridbuf cache × ℕ :=
  if hspace : 0 < h.bufRemainingSpace then
    let size := min data.length h.bufRemainingSpace
    ({ h with
        buffer := overwrite h.buffer h.nextPos (data.take size)
        nextPos := h.nextPos + size
        dataSize := h.dataSize + size
        buffer_length := by
          have hlen := h.buffer_length
          have hs : h.bufRemainingSpace = cache - h.nextPos := h.bufRemainingSpace_eq
          rw [length_overwrite, hlen]
          simp only [List.length_take]
          omega }, size)
  else (h, 0)

/-- `_buf_read`: the buffer and the bytes read from memory. -/
def bufRead (h : Hybridbuf cache) (maxSize : ℕ) : Hybridbuf cache × Bytes :=
  if 0 < h.bufUnreadDataSize then
    let size := min h.bufUnreadDataSize maxSize
    ({ h with nextPos := h.nextPos + size }, slice h.buffer h.nextPos (h.nextPos + size))
  else (h, [])

/-- `_buf_rewind`, on an `unsigned`. -/
def bufRewind (h : Hybridbuf cache) (amt : ℕ) : Hybridbuf cache :=
  let back := if amt % 2 ^ 32 = 0 then h.nextPos else amt % 2 ^ 32
  { h with nextPos := (h.nextPos + (2 ^ 32 - back % 2 ^ 32)) % 2 ^ 32 }

/-- `Hybridbuf::store`: memory first, then the file. -/
def store (results : List WriteResult) (h : Hybridbuf cache) (data : Bytes) :
    Except Fault (Hybridbuf cache) :=
  let (h', count) := h.bufWrite data
  if 0 < data.length - count then
    (h'.toFilebuf.fileWrite results (data.drop count)).map fun f => { h' with toFilebuf := f }
  else .ok h'

/-- `Hybridbuf::fetch`: memory first, then the file. -/
def fetch (h : Hybridbuf cache) (maxSize : ℕ) : Hybridbuf cache × Bytes :=
  let (h', bs) := h.bufRead maxSize
  if 0 < bs.length then (h', bs)
  else
    let (f, bs') := h'.toFilebuf.fileRead maxSize
    ({ h' with toFilebuf := f }, bs')

/-- `Hybridbuf::rewind`. -/
def rewind (h : Hybridbuf cache) (amount : ℕ) : Except Fault (Hybridbuf cache) :=
  if amount = 0 then
    (h.toFilebuf.fileRewind 0).map fun f => { h with toFilebuf := f }.bufRewind 0
  else
    let offset := sizeSub h.dataSize amount
    if offset < cache then
      (h.toFilebuf.fileRewind 0).map fun f =>
        { h with toFilebuf := f }.bufRewind (sizeSub h.nextPos offset)
    else (h.toFilebuf.fileRewind amount).map fun f => { h with toFilebuf := f }

/-- `Filebuf::clear` on a `Hybridbuf`: size zero, an empty file, and `rewind()`. The memory keeps
its bytes. -/
def clear (h : Hybridbuf cache) : Hybridbuf cache :=
  { h with content := [], offset := 0, dataSize := 0 }.bufRewind 0

theorem fetch_length_le (h : Hybridbuf cache) (maxSize : ℕ) :
    (h.fetch maxSize).2.length ≤ maxSize := by
  have hfile : ∀ f : Filebuf, (f.fileRead maxSize).2.length ≤ maxSize := by
    intro f
    simp only [Filebuf.fileRead, List.length_take]
    omega
  unfold fetch bufRead
  by_cases hunread : 0 < h.bufUnreadDataSize
  · simp only [if_pos hunread]
    split
    · simp only [slice, List.length_take]
      omega
    · exact hfile _
  · simp only [if_neg hunread]
    exact hfile _

/-- The loop of `Filebuf::copy_data` from a `Hybridbuf` to a `Filebuf`, through the scratch
buffer; the `k`-th store uses the results `disk k`. The bound on the rounds is never the reason to
stop (`copied_eq`). -/
def copyLoop {size : ℕ} (disk : ℕ → List WriteResult) :
    ℕ → ℕ → Scratch size → Hybridbuf cache → Filebuf →
      Except Fault (Scratch size × Hybridbuf cache × Filebuf)
  | 0, _, scratch, source, dest => .ok (scratch, source, dest)
  | rounds + 1, k, scratch, source, dest =>
    let scratch' := scratch.put (source.fetch size).2 (source.fetch_length_le size)
    if 0 < (source.fetch size).2.length then
      match dest.store (disk k) (scratch'.first (source.fetch size).2.length) with
      | .error e => .error e
      | .ok dest' => copyLoop disk rounds (k + 1) scratch' (source.fetch size).1 dest'
    else .ok (scratch', (source.fetch size).1, dest)

/-- `Filebuf::copy_data` from a `Hybridbuf` to a `Filebuf`. -/
def copyData {size : ℕ} (disk : ℕ → List WriteResult) (scratch : Scratch size)
    (source : Hybridbuf cache) (dest : Filebuf) :
    Except Fault (Scratch size × Hybridbuf cache × Filebuf) :=
  match source.rewind 0 with
  | .error e => .error e
  | .ok source' => copyLoop disk (source.dataSize + 1) 0 scratch source' dest.clear

/-! ### Content and position -/

/-- The buffer holds the content `c` and stands at position `p`. The first `cache` bytes are in
memory, the others in the file. -/
structure At (h : Hybridbuf cache) (c : Bytes) (p : ℕ) : Prop where
  pos_le : p ≤ c.length
  dataSize_eq : h.dataSize = c.length
  nextPos_eq : h.nextPos = min p cache
  memory : slice h.buffer 0 (min c.length cache) = c.take cache
  file : h.content = c.drop cache
  offset_eq : h.offset = p - cache

theorem bufRewind_zero (h : Hybridbuf cache) : h.bufRewind 0 = { h with nextPos := 0 } := by
  unfold bufRewind
  simp only [Nat.zero_mod, if_true]
  congr 1
  omega

theorem rewind_zero (h : Hybridbuf cache) :
    h.rewind 0 = .ok { h with offset := 0, nextPos := 0 } := by
  simp only [rewind, if_true, Filebuf.fileRewind, Except.map, bufRewind_zero]

theorem new_at : (new cache).At [] 0 := by
  constructor <;> simp [new]

/-- Clearing forgets the content, whatever the buffer held and wherever it stood. -/
theorem clear_at (h : Hybridbuf cache) : h.clear.At [] 0 := by
  unfold clear
  rw [bufRewind_zero]
  constructor <;> simp

/-- `rewind()` goes back to the head of the content. -/
theorem At.rewind_zero {h : Hybridbuf cache} {c : Bytes} {p : ℕ} (hat : h.At c p) :
    ({ h with offset := 0, nextPos := 0 } : Hybridbuf cache).At c 0 :=
  ⟨Nat.zero_le _, hat.dataSize_eq, by simp, hat.memory, hat.file, by simp⟩

/-! ### Storing at the end -/

theorem At.bufWrite {h : Hybridbuf cache} {c : Bytes} (hat : h.At c c.length) (data : Bytes) :
    (h.bufWrite data).2 = min data.length (cache - c.length) ∧
      (h.bufWrite data).1.At (c ++ data.take (cache - c.length))
        (c ++ data.take (cache - c.length)).length := by
  have hbuf := h.buffer_length
  have hnext := hat.nextPos_eq
  have hspace : h.bufRemainingSpace = cache - c.length := by
    rw [bufRemainingSpace_eq, hnext]
    omega
  unfold Hybridbuf.bufWrite
  split
  · next hpos =>
    -- there is room, so the content lies in memory and the new bytes follow it
    have hc : min c.length cache = c.length := by omega
    have htake : data.take (min data.length (cache - c.length)) = data.take (cache - c.length) := by
      rw [List.take_eq_take_iff]
      omega
    have hlen : (data.take (cache - c.length)).length = min data.length (cache - c.length) := by
      rw [List.length_take]
      omega
    have hall : (c ++ data.take (cache - c.length)).length ≤ cache := by
      rw [List.length_append, hlen]
      omega
    have hmem := hat.memory
    have hfile := hat.file
    have hoff := hat.offset_eq
    rw [hc, List.take_of_length_le (by omega)] at hmem
    rw [List.drop_eq_nil_of_le (by omega)] at hfile
    simp only [hspace, hnext, hc, htake]
    refine ⟨trivial, le_rfl, ?_, ?_, ?_, ?_, ?_⟩
    · simp only [List.length_append, hlen, hat.dataSize_eq]
    · simp only [List.length_append, hlen]
      omega
    · have hself := slice_overwrite_self (show c.length ≤ h.buffer.length by omega)
        (data.take (cache - c.length))
      rw [Nat.min_eq_left hall, List.take_of_length_le hall, List.length_append,
        ← slice_append (b := c.length) (by omega) (by omega),
        slice_overwrite_before le_rfl (by omega), hmem, hself]
    · simp only [hfile]
      rw [List.drop_eq_nil_of_le hall]
    · simp only [hoff]
      omega
  · next hpos =>
    have h0 : cache - c.length = 0 := by omega
    simp only [h0, Nat.min_zero, List.take_zero, List.append_nil, true_and]
    exact hat

/-- Appending to the file part, once memory is full. -/
theorem At.append_file {h : Hybridbuf cache} {c bs : Bytes} {n : ℕ} (hat : h.At c c.length)
    (hfull : cache ≤ c.length) (hn : bs.length = n) :
    ({ h with
        content := overwrite h.content h.offset bs
        offset := h.offset + n
        dataSize := h.dataSize + n } : Hybridbuf cache).At (c ++ bs) (c ++ bs).length := by
  have hoff : h.offset = (c.drop cache).length := by
    rw [hat.offset_eq, List.length_drop]
  have hmem := hat.memory
  rw [Nat.min_eq_right hfull] at hmem
  refine ⟨le_rfl, ?_, ?_, ?_, ?_, ?_⟩
  · simp only [hat.dataSize_eq, List.length_append, hn]
  · simp only [hat.nextPos_eq, List.length_append]
    omega
  · rw [List.length_append, Nat.min_eq_right (by omega), List.take_append_of_le_length hfull]
    exact hmem
  · simp only [hat.file, hoff, overwrite_length, List.drop_append_of_le_length hfull]
  · simp only [hat.offset_eq, List.length_append, hn]
    omega

/-- The content after `data` has been stored at the end of `c`: memory takes what fits, the file
what the disk carries out of the rest. -/
def stored (cache : ℕ) (results : List WriteResult) (c data : Bytes) : Except Fault Bytes :=
  if 0 < data.length - (cache - c.length) then
    match written results (data.length - (cache - c.length)) with
    | none => .error .errorExit
    | some n => .ok (c ++ data.take (cache - c.length + n))
  else .ok (c ++ data)

theorem stored_error {results : List WriteResult} {c data : Bytes} {f : Fault}
    (h : stored cache results c data = .error f) : f = .errorExit := by
  unfold stored at h
  grind

/-- Nothing is lost when the disk carries out what it is given. -/
theorem stored_eq {results : List WriteResult} {c data : Bytes}
    (hok : written results (data.length - (cache - c.length)) =
      some (data.length - (cache - c.length))) :
    stored cache results c data = .ok (c ++ data) := by
  unfold stored
  split
  · next h =>
    rw [hok]
    simp only
    rw [List.take_of_length_le (by omega)]
  · rfl

/-- At the end of the content memory takes what is left of the cache. -/
theorem At.bufRemainingSpace {h : Hybridbuf cache} {c : Bytes} (hat : h.At c c.length) :
    h.bufRemainingSpace = cache - c.length := by
  rw [bufRemainingSpace_eq, hat.nextPos_eq]
  omega

/-- **Storing at the end appends** what memory and the disk take. -/
theorem At.store {h : Hybridbuf cache} {c : Bytes} (hat : h.At c c.length)
    (results : List WriteResult) (data : Bytes) :
    (∃ e, stored cache results c data = .error e ∧ h.store results data = .error e) ∨
      ∃ c' h', stored cache results c data = .ok c' ∧ h.store results data = .ok h' ∧
        h'.At c' c'.length := by
  obtain ⟨hcount, hat'⟩ := hat.bufWrite data
  rcases hw : h.bufWrite data with ⟨h', count⟩
  rw [hw] at hcount hat'
  simp only at hcount hat'
  unfold Hybridbuf.store stored
  rw [hw]
  simp only
  by_cases hrest : 0 < data.length - (cache - c.length)
  · -- memory is full: the rest goes to the file, whose cursor is at its end
    have hfull : count = cache - c.length := by omega
    have hcache : cache ≤ (c ++ data.take (cache - c.length)).length := by
      rw [List.length_append, List.length_take]
      omega
    rw [if_pos hrest, if_pos (by omega)]
    unfold Filebuf.fileWrite
    rw [List.length_drop, hfull]
    cases hres : written results (data.length - (cache - c.length)) with
    | none => exact Or.inl ⟨_, rfl, rfl⟩
    | some n =>
      have hn := written_le hres
      refine Or.inr ⟨_, _, rfl, rfl, ?_⟩
      rw [List.take_add, ← List.append_assoc]
      exact hat'.append_file hcache (by rw [List.length_take, List.length_drop]; omega)
  · have hall : data.take (cache - c.length) = data := List.take_of_length_le (by omega)
    rw [hall] at hat'
    rw [if_neg hrest, if_neg (by omega)]
    exact Or.inr ⟨_, _, rfl, rfl, hat'⟩

/-! ### Fetching -/

/-- What one `fetch` of at most `maxSize` bytes returns at position `p` of the content `c`: it
stops at the end of the memory part. -/
def chunk (cache maxSize : ℕ) (c : Bytes) (p : ℕ) : Bytes :=
  if p < cache then slice c p (min cache (p + maxSize)) else slice c p (p + maxSize)

theorem chunk_eq_take (cache maxSize : ℕ) (c : Bytes) (p : ℕ) :
    chunk cache maxSize c p = (c.drop p).take (chunk cache maxSize c p).length := by
  unfold chunk slice
  split <;> rw [List.length_take, ← List.take_take, List.take_length]

/-- A fetch makes progress until the end of the content. -/
theorem chunk_length_pos (cache : ℕ) {maxSize p : ℕ} {c : Bytes} (hp : p < c.length)
    (hmax : 0 < maxSize) : 0 < (chunk cache maxSize c p).length := by
  unfold chunk slice
  split <;> rw [List.length_take, List.length_drop] <;> omega

theorem chunk_end (cache maxSize : ℕ) (c : Bytes) : chunk cache maxSize c c.length = [] := by
  unfold chunk slice
  split <;> simp

/-- The memory part holds the head of the content. -/
theorem At.slice_buffer {h : Hybridbuf cache} {c : Bytes} {p : ℕ} (hat : h.At c p) {a b : ℕ}
    (hb : b ≤ min c.length cache) : slice h.buffer a b = slice c a b := by
  have key : ∀ xs : Bytes, slice (slice xs 0 (min c.length cache)) a b = slice xs a b := by
    intro xs
    unfold slice
    rw [List.drop_zero, Nat.sub_zero, List.drop_take, List.take_take]
    congr 1
    omega
  have hc : slice c 0 (min c.length cache) = c.take cache := by
    simp only [slice, List.drop_zero, Nat.sub_zero]
    rw [List.take_eq_take_iff]
    omega
  rw [← key h.buffer, hat.memory, ← hc, key]

theorem At.bufUnreadDataSize {h : Hybridbuf cache} {c : Bytes} {p : ℕ} (hat : h.At c p)
    (hcache : cache < 2 ^ 32) : h.bufUnreadDataSize = min c.length cache - min p cache := by
  have hp := hat.pos_le
  unfold Hybridbuf.bufUnreadDataSize
  rw [hat.dataSize_eq, hat.nextPos_eq, sizeSub_of_le (by omega) (by omega)]

/-- Fetching from the memory part. -/
theorem At.fetch_memory {h : Hybridbuf cache} {c : Bytes} {p : ℕ} (hat : h.At c p)
    (hcache : cache < 2 ^ 32) {maxSize : ℕ} (hmax : 0 < maxSize) (hmem : p < min c.length cache) :
    (h.fetch maxSize).2 = chunk cache maxSize c p ∧
      (h.fetch maxSize).1.At c (p + (chunk cache maxSize c p).length) := by
  have hsize := hat.bufUnreadDataSize hcache
  have hnext := hat.nextPos_eq
  have hlen : (chunk cache maxSize c p).length = min (min c.length cache - p) maxSize := by
    unfold chunk slice
    rw [if_pos (by omega), List.length_take, List.length_drop]
    omega
  -- what is read of the buffer is the chunk
  have hread : slice h.buffer p (p + min (min c.length cache - p) maxSize)
      = chunk cache maxSize c p := by
    rw [hat.slice_buffer (by omega), ← hlen]
    conv_rhs => rw [chunk_eq_take]
    rw [slice, Nat.add_sub_cancel_left]
  have hmin : min p cache = p := by omega
  rw [hmin] at hsize hnext
  unfold Hybridbuf.fetch bufRead
  simp only [hsize, hnext, if_pos (show 0 < min c.length cache - p by omega), hread]
  -- something was read, so the file is left alone
  rw [if_pos (chunk_length_pos cache (by omega) hmax)]
  refine ⟨rfl, by omega, hat.dataSize_eq, ?_, hat.memory, hat.file, ?_⟩
  · simp only
    omega
  · simp only [hat.offset_eq]
    omega

/-- Fetching from the file part, once the memory part is used up. -/
theorem At.fetch_file {h : Hybridbuf cache} {c : Bytes} {p : ℕ} (hat : h.At c p)
    (hcache : cache < 2 ^ 32) {maxSize : ℕ} (hmem : ¬ p < min c.length cache) :
    (h.fetch maxSize).2 = chunk cache maxSize c p ∧
      (h.fetch maxSize).1.At c (p + (chunk cache maxSize c p).length) := by
  have hp := hat.pos_le
  have hsize := hat.bufUnreadDataSize hcache
  have hnext := hat.nextPos_eq
  have h0 : ¬ 0 < h.bufUnreadDataSize := by omega
  -- below `cache` the position is at the end of the content, and both sides are empty
  have hread : (h.content.drop h.offset).take maxSize = chunk cache maxSize c p := by
    rw [hat.file, hat.offset_eq, List.drop_drop]
    unfold chunk slice
    by_cases hpc : p < cache
    · have hend : p = c.length := by omega
      rw [if_pos hpc, List.drop_eq_nil_of_le (by omega), List.drop_eq_nil_of_le (by omega)]
      simp
    · rw [if_neg hpc, Nat.add_sub_cancel' (by omega), Nat.add_sub_cancel_left]
  have hlen : (chunk cache maxSize c p).length ≤ c.length - p := by
    rw [chunk_eq_take, List.length_take, List.length_drop]
    omega
  unfold Hybridbuf.fetch bufRead
  simp only [if_neg h0, List.length_nil, Nat.lt_irrefl, if_false, Filebuf.fileRead, hread]
  refine ⟨trivial, by omega, hat.dataSize_eq, ?_, hat.memory, hat.file, ?_⟩
  · simp only [hnext]
    by_cases hpc : p < cache
    · have hend : p = c.length := by omega
      rw [hend, chunk_end, List.length_nil, Nat.add_zero]
    · omega
  · simp only [hat.offset_eq]
    by_cases hpc : p < cache
    · have hend : p = c.length := by omega
      rw [hend, chunk_end, List.length_nil, Nat.add_zero]
      omega
    · omega

/-- **Fetching reads on** from the position. -/
theorem At.fetch {h : Hybridbuf cache} {c : Bytes} {p : ℕ} (hat : h.At c p)
    (hcache : cache < 2 ^ 32) {maxSize : ℕ} (hmax : 0 < maxSize) :
    (h.fetch maxSize).2 = chunk cache maxSize c p ∧
      (h.fetch maxSize).1.At c (p + (chunk cache maxSize c p).length) := by
  by_cases hmem : p < min c.length cache
  · exact hat.fetch_memory hcache hmax hmem
  · exact hat.fetch_file hcache hmem

/-! ### Copying -/

/-- What the copy loop adds to a destination that holds `dest`, from position `p` of the content
`c` on. -/
def copied (disk : ℕ → List WriteResult) (cache maxSize : ℕ) (c : Bytes) :
    ℕ → ℕ → ℕ → Bytes → Except Fault Bytes
  | 0, _, _, dest => .ok dest
  | rounds + 1, k, p, dest =>
    if 0 < (chunk cache maxSize c p).length then
      match written (disk k) (chunk cache maxSize c p).length with
      | none => .error .errorExit
      | some n =>
        copied disk cache maxSize c rounds (k + 1) (p + (chunk cache maxSize c p).length)
          (dest ++ (chunk cache maxSize c p).take n)
    else .ok dest

theorem copied_error {disk : ℕ → List WriteResult} {maxSize : ℕ} {c : Bytes} {rounds k p : ℕ}
    {dest : Bytes} {f : Fault} (h : copied disk cache maxSize c rounds k p dest = .error f) :
    f = .errorExit := by
  induction rounds generalizing k p dest with
  | zero => exact absurd h (by simp [copied])
  | succ rounds ih =>
    unfold copied at h
    split at h
    · split at h
      · exact (Except.error.inj h).symm
      · exact ih h
    · exact absurd h (by simp)

/-- The sizes of the stores that copy the content `c`, from position `p` on. -/
def copySizes (cache maxSize : ℕ) (c : Bytes) : ℕ → ℕ → List ℕ
  | 0, _ => []
  | rounds + 1, p =>
    if 0 < (chunk cache maxSize c p).length then
      (chunk cache maxSize c p).length ::
        copySizes cache maxSize c rounds (p + (chunk cache maxSize c p).length)
    else []

/-- **Without loss the whole content is copied**, given one round for each byte and one more. -/
theorem copied_eq {disk : ℕ → List WriteResult} {maxSize : ℕ} (hmax : 0 < maxSize) (c : Bytes)
    {rounds k p : ℕ} {dest : Bytes} (hp : p ≤ c.length) (hrounds : c.length - p < rounds)
    (hok : ∀ s ∈ (copySizes cache maxSize c rounds p).zipIdx k, written (disk s.2) s.1 = some s.1) :
    copied disk cache maxSize c rounds k p dest = .ok (dest ++ c.drop p) := by
  induction rounds generalizing k p dest with
  | zero => omega
  | succ rounds ih =>
    unfold copied
    by_cases hend : p < c.length
    · have hpos := chunk_length_pos cache hend hmax
      rw [copySizes, if_pos hpos, List.zipIdx_cons] at hok
      have hlen : (chunk cache maxSize c p).length ≤ c.length - p := by
        rw [chunk_eq_take, List.length_take, List.length_drop]
        omega
      rw [if_pos hpos, hok _ List.mem_cons_self]
      simp only [List.take_length]
      rw [ih (by omega) (by omega) fun s hs => hok s (List.mem_cons_of_mem _ hs),
        List.append_assoc]
      congr 2
      rw [← List.drop_drop, chunk_eq_take, List.length_take, List.length_drop]
      rw [Nat.min_eq_left hlen, List.take_append_drop]
    · obtain rfl : p = c.length := by omega
      rw [chunk_end]
      simp

/-- The sizes of what the copy loop fetches of a buffer. -/
def fetchSizes (maxSize : ℕ) : ℕ → Hybridbuf cache → List ℕ
  | 0, _ => []
  | rounds + 1, h =>
    if 0 < (h.fetch maxSize).2.length then
      (h.fetch maxSize).2.length :: fetchSizes maxSize rounds (h.fetch maxSize).1
    else []

theorem At.fetchSizes {h : Hybridbuf cache} {c : Bytes} {p : ℕ} (hat : h.At c p)
    (hcache : cache < 2 ^ 32) {maxSize : ℕ} (hmax : 0 < maxSize) (rounds : ℕ) :
    h.fetchSizes maxSize rounds = copySizes cache maxSize c rounds p := by
  induction rounds generalizing h p with
  | zero => rfl
  | succ rounds ih =>
    obtain ⟨hbs, hat'⟩ := hat.fetch hcache hmax
    rw [Hybridbuf.fetchSizes, copySizes, hbs, ih hat']

/-- The copy loop does on the buffers what `copied` says about their contents. -/
theorem At.copyLoop {size : ℕ} {source : Hybridbuf cache} {c : Bytes} {p : ℕ}
    (hat : source.At c p) (hcache : cache < 2 ^ 32) (hsize : 0 < size)
    (disk : ℕ → List WriteResult) (rounds k : ℕ) (scratch : Scratch size) (dest : Bytes) :
    (∃ e, copied disk cache size c rounds k p dest = .error e ∧
        Hybridbuf.copyLoop disk rounds k scratch source (.filled dest) = .error e) ∨
      ∃ dest' scratch' source', copied disk cache size c rounds k p dest = .ok dest' ∧
        Hybridbuf.copyLoop disk rounds k scratch source (.filled dest)
          = .ok (scratch', source', .filled dest') := by
  induction rounds generalizing source p k scratch dest with
  | zero => exact Or.inr ⟨dest, scratch, source, rfl, rfl⟩
  | succ rounds ih =>
    obtain ⟨hbs, hat'⟩ := hat.fetch hcache hsize
    unfold copied Hybridbuf.copyLoop
    simp only [Scratch.first_put, Filebuf.store_filled, hbs]
    by_cases hpos : 0 < (chunk cache size c p).length
    · simp only [if_pos hpos]
      cases hres : written (disk k) (chunk cache size c p).length with
      | none => exact Or.inl ⟨_, rfl, rfl⟩
      | some n => exact ih hat' _ _ _
    · simp only [if_neg hpos]
      exact Or.inr ⟨_, _, _, rfl, rfl⟩

/-- **`copy_data` copies the content**, whatever the position of the source and the content of
the destination. -/
theorem At.copyData {size : ℕ} {source : Hybridbuf cache} {c : Bytes} {p : ℕ}
    (hat : source.At c p) (hcache : cache < 2 ^ 32) (hsize : 0 < size)
    (disk : ℕ → List WriteResult) (scratch : Scratch size) (dest : Filebuf) :
    (∃ e, copied disk cache size c (c.length + 1) 0 0 [] = .error e ∧
        source.copyData disk scratch dest = .error e) ∨
      ∃ c' scratch' source', copied disk cache size c (c.length + 1) 0 0 [] = .ok c' ∧
        source.copyData disk scratch dest = .ok (scratch', source', .filled c') := by
  unfold Hybridbuf.copyData
  rw [Hybridbuf.rewind_zero, ← hat.dataSize_eq]
  simp only [Filebuf.clear_eq]
  exact hat.rewind_zero.copyLoop hcache hsize disk (source.dataSize + 1) 0 scratch []

end Hybridbuf

end LSProxy
