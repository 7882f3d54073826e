import LSProxy.Lib.Segment
import LSProxy.Model.SysIo

/-!
# File-backed buffers

`Filebuf` and `FIFOfilebuf` of `buffer.h`. A buffer file is a list of bytes with the cursors of
the descriptors open on it: `write` overwrites at the cursor, `read` returns what lies ahead of
it, `lseek` moves it. `Filebuf` reads and writes through one cursor; `FIFOfilebuf` writes through
one and reads through another.

Writes to the file may be short or be interrupted. `Filebuf.fileWrite` retries ten times and then
gives up the rest of the data, as `_file_write` does; which bytes reach the disk is a function of
the results the kernel returns (`written`). Reading back, seeking and truncating a local file are
taken to succeed.

The two shapes the proxy keeps its buffers in have names: `Filebuf.filled c`, content `c` with the
cursor at its end, and `FIFOfilebuf.queue sent unread`.
-/

namespace LSProxy

open Segment

/-! ### Writing to a buffer file -/

/-- The loop of `_file_write`: how many bytes remain unwritten after at most `tries` calls of
`write`, `none` when one of them fails for another reason than `EAGAIN` or `EINTR`. -/
def fileWriteLoop : ℕ → List WriteResult → ℕ → Option ℕ
  -- ten calls have been made: the rest is lost
  | 0, _, remain => some remain
  | _ + 1, _, 0 => some 0
  -- the disk takes everything
  | _ + 1, [], _ + 1 => some 0
  | tries + 1, .wrote n :: rs, remain + 1 => fileWriteLoop tries rs (remain - n)
  -- `ERROR_EXIT`
  | _ + 1, .failed .other :: _, _ + 1 => none
  | tries + 1, .failed _ :: rs, remain + 1 => fileWriteLoop tries rs (remain + 1)

/-- How many of `size` bytes reach the file, `none` when `_file_write` exits with an error. -/
def written (results : List WriteResult) (size : ℕ) : Option ℕ :=
  (fileWriteLoop 10 results size).map (size - ·)

theorem written_le {results : List WriteResult} {size k : ℕ}
    (h : written results size = some k) : k ≤ size := by
  obtain ⟨r, -, rfl⟩ := Option.map_eq_some_iff.mp h
  exact Nat.sub_le _ _

@[simp] theorem written_nil (size : ℕ) : written [] size = some size := by
  cases size <;> rfl

/-- **No disk-write loss**: every write to a buffer file is carried out in full. -/
def Io.DiskOk (io : Io) : Prop := ∀ k size, written (io.disk k) size = some size

/-! ### `Filebuf` -/

/-- `class Filebuf`: the bytes of the file, the cursor of `fd`, and the size counter. -/
structure Filebuf where
  content : Bytes := []
  offset : ℕ := 0
  dataSize : ℕ := 0
  deriving DecidableEq, Repr

namespace Filebuf

/-- `_file_write`. -/
def fileWrite (results : List WriteResult) (f : Filebuf) (data : Bytes) : Except Fault Filebuf :=
  match written results data.length with
  | none => .error .errorExit
  | some n => .ok
    { content := overwrite f.content f.offset (data.take n)
      offset := f.offset + n
      dataSize := f.dataSize + n }

/-- `_file_read`: what is read, and the buffer with its cursor moved. -/
def fileRead (f : Filebuf) (maxSize : ℕ) : Filebuf × Bytes :=
  let bs := (f.content.drop f.offset).take maxSize
  ({ f with offset := f.offset + bs.length }, bs)

/-- `_file_rewind`: back by `amt`, or to the head when `amt` is 0. Seeking before the head is an
error. -/
def fileRewind (f : Filebuf) (amt : ℕ) : Except Fault Filebuf :=
  if amt = 0 then .ok { f with offset := 0 }
  else if amt ≤ f.offset then .ok { f with offset := f.offset - amt }
  else .error .errorExit

/-- `Filebuf::store`. -/
def store (results : List WriteResult) (f : Filebuf) (data : Bytes) : Except Fault Filebuf :=
  f.fileWrite results data

/-- `Filebuf::fetch`. -/
def fetch (f : Filebuf) (maxSize : ℕ) : Filebuf × Bytes := f.fileRead maxSize

/-- `Filebuf::rewind`. -/
def rewind (f : Filebuf) (amount : ℕ := 0) : Except Fault Filebuf := f.fileRewind amount

/-- `Filebuf::clear`: size zero, an empty file, the cursor at the head. -/
def clear (_f : Filebuf) : Filebuf := { content := [], offset := 0, dataSize := 0 }

/-- Content `c` with the cursor at its end. -/
def filled (c : Bytes) : Filebuf := ⟨c, c.length, c.length⟩

@[simp] theorem clear_eq (f : Filebuf) : f.clear = filled [] := rfl

@[simp] theorem filled_content (c : Bytes) : (filled c).content = c := rfl

/-- Storing at the end appends what reaches the disk. -/
theorem store_filled (results : List WriteResult) (c data : Bytes) :
    (filled c).store results data
      = match written results data.length with
        | none => .error .errorExit
        | some n => .ok (filled (c ++ data.take n)) := by
  unfold store fileWrite
  cases h : written results data.length with
  | none => rfl
  | some n =>
    have hn : n ≤ data.length := written_le h
    simp [filled, hn]

theorem filled_inj {c c' : Bytes} (h : filled c = filled c') : c = c' :=
  congrArg Filebuf.content h

/-- What a store at the end leaves is filled to its end again. -/
theorem store_filled_ok {results : List WriteResult} {c data : Bytes} {f : Filebuf}
    (h : (filled c).store results data = .ok f) : ∃ c', f = filled c' := by
  rw [store_filled] at h
  split at h
  · exact absurd h (by simp)
  · exact ⟨_, (Except.ok.inj h).symm⟩

@[simp] theorem store_filled_nil (results : List WriteResult) (c : Bytes) :
    (filled c).store results [] = .ok (filled c) := by
  have h : written results 0 = some 0 := by
    cases results <;> rfl
  rw [store_filled, List.length_nil, h]
  simp

/-- A store fails only by `ERROR_EXIT`. -/
theorem store_error {results : List WriteResult} {g : Filebuf} {data : Bytes} {f : Fault}
    (h : g.store results data = .error f) : f = .errorExit := by
  unfold store fileWrite at h
  grind

theorem fetch_length_le (f : Filebuf) (maxSize : ℕ) : (f.fetch maxSize).2.length ≤ maxSize := by
  simp only [fetch, fileRead, List.length_take]
  omega

/-- Rewinding to the head always succeeds. -/
@[simp] theorem rewind_zero (f : Filebuf) : f.rewind 0 = .ok { f with offset := 0 } := rfl

/-- Fetching and then giving back what was not used leaves the cursor after the used part. -/
theorem rewind_fetch {f : Filebuf} {maxSize n : ℕ} (hn : n < (f.fetch maxSize).2.length) :
    (f.fetch maxSize).1.rewind ((f.fetch maxSize).2.length - n)
      = .ok { f with offset := f.offset + n } := by
  -- an amount of 0 would rewind to the head
  have hpos : (f.fetch maxSize).2.length - n ≠ 0 := by omega
  have hle : (f.fetch maxSize).2.length - n ≤ (f.fetch maxSize).1.offset := by
    simp only [fetch, fileRead]; omega
  have hoff : (f.fetch maxSize).1.offset - ((f.fetch maxSize).2.length - n) = f.offset + n := by
    simp only [fetch, fileRead] at hn ⊢; omega
  unfold rewind fileRewind
  rw [if_neg hpos, if_pos hle, hoff]
  rfl

end Filebuf

/-! ### `FIFOfilebuf` -/

/-- `class FIFOfilebuf`: a file with a second cursor to read through. -/
structure FIFOfilebuf extends Filebuf where
  readerOffset : ℕ := 0
  deriving DecidableEq, Repr

namespace FIFOfilebuf

/-- `store` of a `FIFOfilebuf`, through the writing cursor. -/
def store (results : List WriteResult) (f : FIFOfilebuf) (data : Bytes) :
    Except Fault FIFOfilebuf :=
  (f.toFilebuf.fileWrite results data).map fun g => { f with toFilebuf := g }

/-- `fetch` of a `FIFOfilebuf`, through the reading cursor. -/
def fetch (f : FIFOfilebuf) (maxSize : ℕ) : FIFOfilebuf × Bytes :=
  let bs := (f.content.drop f.readerOffset).take maxSize
  ({ f with readerOffset := f.readerOffset + bs.length }, bs)

/-- `FIFOfilebuf::_file_rewind`: both cursors to the head when `amt` is 0, else only the reading
one back by `amt`. -/
def rewind (f : FIFOfilebuf) (amt : ℕ) : Except Fault FIFOfilebuf :=
  if amt = 0 then .ok { f with offset := 0, readerOffset := 0 }
  else if amt ≤ f.readerOffset then .ok { f with readerOffset := f.readerOffset - amt }
  else .error .errorExit

theorem fetch_length_le (f : FIFOfilebuf) (maxSize : ℕ) :
    (f.fetch maxSize).2.length ≤ maxSize := by
  simp only [fetch, List.length_take]
  omega

/-- The bytes that have not been fetched. -/
def unread (f : FIFOfilebuf) : Bytes := f.content.drop f.readerOffset

/-- A file through which `sent` has been read and that still holds `unread`, written to its
end. -/
def queue (sent unread : Bytes) : FIFOfilebuf :=
  { content := sent ++ unread
    offset := (sent ++ unread).length
    dataSize := (sent ++ unread).length
    readerOffset := sent.length }

theorem queue_nil : queue [] [] = {} := rfl

@[simp] theorem unread_queue (sent unread : Bytes) : (queue sent unread).unread = unread := by
  simp [FIFOfilebuf.unread, queue]

theorem queue_nil_inj {c c' : Bytes} (h : queue [] c = queue [] c') : c = c' := by
  simpa using congrArg FIFOfilebuf.unread h

@[simp] theorem queue_dataSize (sent unread : Bytes) :
    (queue sent unread).dataSize = sent.length + unread.length := by
  simp [queue]

/-- Storing appends what reaches the disk. -/
theorem store_queue (results : List WriteResult) (sent unread data : Bytes) :
    (queue sent unread).store results data
      = match written results data.length with
        | none => .error .errorExit
        | some n => .ok (queue sent (unread ++ data.take n)) := by
  unfold store Filebuf.fileWrite
  cases h : written results data.length with
  | none => rfl
  | some n =>
    have hn : n ≤ data.length := written_le h
    simp only [Except.map, queue]
    rw [overwrite_length]
    simp [hn, Nat.add_assoc]

/-- Fetching moves a prefix of the unread bytes over. -/
theorem fetch_queue (sent unread : Bytes) (maxSize : ℕ) :
    (queue sent unread).fetch maxSize
      = (queue (sent ++ unread.take maxSize) (unread.drop maxSize), unread.take maxSize) := by
  simp [fetch, queue, List.take_append_drop]

/-- Giving back what was not sent of a fetched chunk: only the reading cursor moves. -/
theorem rewind_queue {sent unread : Bytes} {maxSize n : ℕ}
    (hn : n < (unread.take maxSize).length) :
    (queue (sent ++ unread.take maxSize) (unread.drop maxSize)).rewind
        ((unread.take maxSize).length - n)
      = .ok (queue (sent ++ unread.take n) (unread.drop n)) := by
  -- both are the same file with the reading cursor in two places
  have hle : (unread.take maxSize).length ≤ unread.length := by simp
  have hoff : sent.length + (unread.take maxSize).length - ((unread.take maxSize).length - n)
      = sent.length + (unread.take n).length := by
    rw [List.length_take_of_le (show n ≤ unread.length by omega)]
    omega
  have hmove : ∀ k, queue (sent ++ unread.take k) (unread.drop k)
      = { queue sent unread with readerOffset := sent.length + (unread.take k).length } := by
    intro k
    simp [queue, List.take_append_drop]
  unfold rewind
  rw [hmove maxSize, hmove n, if_neg (by omega), if_pos (Nat.le_trans (by omega)
    (Nat.le_add_left (unread.take maxSize).length sent.length)), hoff]

end FIFOfilebuf

end LSProxy
