import Mathlib.Data.UInt
import LSProxy.Lib.Segment

/-!
# Configuration and system input/output

The constants of `ls_proxy.h`, the results the kernel may return for `read` and `write`, and the
two loops every transfer of the proxy goes through, `read_all` and `write_all`
(`ls_proxy.cpp`).

The kernel is the environment. A callback comes with the results of its system calls, as lists
that the loops consume in order (`Io`): whatever is quantified over `Io` is quantified over every
short read, short write, failure and end of file. The sockets are nonblocking, so a list that
runs out stands for `EAGAIN`.
-/

namespace LSProxy

open Segment

abbrev Bytes := List UInt8

/-- The adjustable constants of `ls_proxy.h`, with the values it ships, and the contents of
`utils/503.html`. -/
structure Config where
  maxConnection : ℕ := 65536
  sockIoBufSize : ℕ := 10 * 1024
  histCacheSize : ℕ := 8 * 1024
  monitorInterval : ℕ := 10
  dtrThreshold : ℕ := 2 * 1024
  minDownloadSpeed : ℕ := 100
  page503 : Bytes
  sockIoBufSize_pos : 0 < sockIoBufSize := by decide
  /-- `next_pos` is an `unsigned` in the range `[0, HIST_CACHE_SIZE]`. -/
  histCacheSize_lt : histCacheSize < 2 ^ 32 := by decide

/-- The constants as the header has them, with an empty error page. -/
def Config.shipped : Config := { page503 := [] }

/-- The bytes of an ASCII text. -/
def ascii (s : String) : Bytes := s.toList.map fun c => c.toNat.toUInt8

/-- `MAX_HYBRID_POOL`. -/
def Config.maxHybridPool (cfg : Config) : ℕ := cfg.maxConnection / 4

/-- `COUNTER_INIT` of `client.cpp`. -/
def Config.counterInit (cfg : Config) : ℕ :=
  (cfg.dtrThreshold + cfg.minDownloadSpeed) * cfg.monitorInterval

/-- `min_dtr` of `monitor_data_rates`. -/
def Config.minDtr (cfg : Config) : ℕ := cfg.dtrThreshold * cfg.monitorInterval

/-- `min_down` of `monitor_data_rates`. -/
def Config.minDown (cfg : Config) : ℕ := cfg.minDownloadSpeed * cfg.monitorInterval

/-! ### Faults -/

/-- The pointers of a connection that may be null. -/
inductive Field
  | server
  | parser
  | clientQueuedOutput
  | serverQueuedOutput
  | requestBuf
  | requestTmpBuf
  | responseBuf
  | requestHistory
  deriving DecidableEq, Repr

/-- How a callback takes the whole process down: a null pointer is dereferenced, `ERROR_EXIT`
aborts, or an assertion fails. -/
inductive Fault
  | null (p : Field)
  | errorExit
  | assertFailed
  deriving DecidableEq, Repr

/-! ### Results of system calls -/

/-- The error numbers the source tells apart. -/
inductive Errno
  | eagain
  | eintr
  | other
  deriving DecidableEq, Repr

/-- What one `read` finds: some bytes are available (none at end of file), or it fails. -/
inductive ReadResult
  | data (bs : Bytes)
  | failed (e : Errno)
  deriving DecidableEq, Repr

/-- What one `write` of a positive number of bytes does: it accepts at most `n + 1` of them, or
it fails. -/
inductive WriteResult
  | wrote (n : ℕ)
  | failed (e : Errno)
  deriving DecidableEq, Repr

/-- `struct io_stat`. -/
structure IoStat where
  nbytes : ℕ := 0
  hasError : Bool := false
  hasEof : Bool := false
  deriving DecidableEq, Repr

/-- What `read_all` leaves in the buffer, with the two flags of its `io_stat`. -/
structure ReadOutcome where
  data : Bytes := []
  hasError : Bool := false
  hasEof : Bool := false
  deriving DecidableEq, Repr

/-- The `io_stat` that `read_all` returns. -/
def ReadOutcome.stat (o : ReadOutcome) : IoStat := ⟨o.data.length, o.hasError, o.hasEof⟩

/-- What `write_all` hands to the socket, its error flag, the `errno` it leaves and the results it
has not used. -/
structure WriteOutcome where
  data : Bytes := []
  hasError : Bool := false
  errno : Errno := .eagain
  rest : List WriteResult := []
  deriving DecidableEq, Repr

/-- The `io_stat` that `write_all` returns. -/
def WriteOutcome.stat (o : WriteOutcome) : IoStat := ⟨o.data.length, o.hasError, false⟩

/-- `read_all`: read until `remain` bytes are in, the end of file, or an error. -/
def readAll : List ReadResult → ℕ → ReadOutcome
  -- nothing more has come: `read` fails with `EAGAIN`, if it is called at all
  | [], remain => { hasError := decide (0 < remain) }
  | r :: rs, remain =>
    if remain = 0 then {}
    else
      match r with
      -- end of file
      | .data [] => { hasEof := true }
      | .data bs =>
        -- what does not fit stays in the socket
        let o := readAll rs (remain - (bs.take remain).length)
        { o with data := bs.take remain ++ o.data }
      | .failed _ => { hasError := true }

/-- `write_all`: write until all of `data` is out or an error. -/
def writeAll : List WriteResult → Bytes → WriteOutcome
  -- the socket takes no more
  | [], data => { hasError := !data.isEmpty }
  | r :: rs, data =>
    -- all is out, and `write` is not called again
    if data.isEmpty then { rest := r :: rs }
    else
      match r with
      | .wrote n =>
        let o := writeAll rs (data.drop (n + 1))
        { o with data := data.take (n + 1) ++ o.data }
      | .failed e => { hasError := true, errno := e, rest := rs }

theorem readAll_length_le (rs : List ReadResult) (remain : ℕ) :
    (readAll rs remain).data.length ≤ remain := by
  induction rs generalizing remain with
  | nil => simp [readAll]
  | cons r rs ih =>
    unfold readAll
    split
    · simp
    · split
      · simp
      · next bs _ =>
        -- this read takes no more than there is room for, the others no more than is left
        have h := ih (remain - (bs.take remain).length)
        simp only [List.length_append]
        have hle : (bs.take remain).length ≤ remain := by simp
        omega
      · simp

/-- `write_all` sends a prefix of the data. -/
theorem writeAll_isPrefix (rs : List WriteResult) (data : Bytes) :
    (writeAll rs data).data <+: data := by
  induction rs generalizing data with
  | nil => simp [writeAll]
  | cons r rs ih =>
    unfold writeAll
    split
    · simp
    · split
      · next n =>
        -- this write takes the first bytes, the others go on where it stopped
        obtain ⟨t, ht⟩ := ih (data.drop (n + 1))
        exact ⟨t, by rw [List.append_assoc, ht, List.take_append_drop]⟩
      · simp

theorem writeAll_length_le (rs : List WriteResult) (data : Bytes) :
    (writeAll rs data).data.length ≤ data.length :=
  (writeAll_isPrefix rs data).length_le

/-- `write_all` stops short only on an error. -/
theorem writeAll_hasError (rs : List WriteResult) (data : Bytes) :
    (writeAll rs data).hasError = decide ((writeAll rs data).data.length < data.length) := by
  induction rs generalizing data with
  | nil => cases data <;> simp [writeAll]
  | cons r rs ih =>
    unfold writeAll
    split
    · next h =>
      rw [List.isEmpty_iff] at h
      simp [h]
    · next h =>
      have hpos : 0 < data.length := List.length_pos_iff.mpr fun h0 => h (by simp [h0])
      split
      · next n =>
        have hdec := ih (data.drop (n + 1))
        simp only [hdec, List.length_append, List.length_take, List.length_drop,
          decide_eq_decide]
        have hle := writeAll_length_le rs (data.drop (n + 1))
        simp only [List.length_drop] at hle
        omega
      · simp [hpos]

@[simp] theorem readAll_stat_nbytes (o : ReadOutcome) : o.stat.nbytes = o.data.length := rfl

@[simp] theorem readAll_stat_hasEof (o : ReadOutcome) : o.stat.hasEof = o.hasEof := rfl

@[simp] theorem writeAll_stat_nbytes (o : WriteOutcome) : o.stat.nbytes = o.data.length := rfl

/-! ### The scratch buffer -/

theorem length_zeros (n : ℕ) : (List.replicate n (0 : UInt8)).length = n := List.length_replicate

/-- `char global_buffer[SOCK_IO_BUF_SIZE]`, which every transfer goes through. -/
structure Scratch (size : ℕ) where
  bytes : Bytes
  length_eq : bytes.length = size

namespace Scratch

variable {size : ℕ}

/-- Data laid down at the head of the buffer, over whatever was there. -/
def put (g : Scratch size) (data : Bytes) (h : data.length ≤ size) : Scratch size :=
  ⟨overwrite g.bytes 0 data, by
    rw [length_overwrite (by rw [g.length_eq]; omega), g.length_eq]⟩

/-- The first `n` bytes of the buffer. -/
def first (g : Scratch size) (n : ℕ) : Bytes := g.bytes.take n

/-- The bytes from position `a` up to position `b`. -/
def between (g : Scratch size) (a b : ℕ) : Bytes := slice g.bytes a b

/-- The zeroed buffer the process starts with. -/
def zero (size : ℕ) : Scratch size := ⟨List.replicate size 0, length_zeros size⟩

/-- What has just been put can be taken out again. -/
@[simp] theorem first_put (g : Scratch size) (data : Bytes) (h : data.length ≤ size) :
    (g.put data h).first data.length = data := by
  simp [first, put, overwrite_zero]

theorem first_put_of_le {g : Scratch size} {data : Bytes} {h : data.length ≤ size} {n : ℕ}
    (hn : n ≤ data.length) : (g.put data h).first n = data.take n := by
  simp [first, put, overwrite_zero, List.take_append_of_le_length hn]

@[simp] theorem between_put (g : Scratch size) (data : Bytes) (h : data.length ≤ size) (k : ℕ) :
    (g.put data h).between k data.length = data.drop k := by
  simp only [between, put, slice, overwrite_zero]
  rw [← List.drop_take]
  simp

end Scratch

/-! ### The inputs of one callback -/

/-- What `close_socket_gracefully` finds on the socket it closes: the bytes each consuming `read`
puts into the scratch buffer, and the result of the last `read` of one byte. -/
structure CloseResult where
  drained : List Bytes := []
  last : ReadResult := .failed .eagain
  deriving DecidableEq, Repr

/-- The results of the system calls one callback makes: reads and writes on the two sockets, the
connection attempt, the closing reads, and, for the `k`-th write of the callback to a buffer file,
the results of the `write` calls that carry it out. -/
structure Io where
  clientReads : List ReadResult := []
  clientWrites : List WriteResult := []
  serverReads : List ReadResult := []
  serverWrites : List WriteResult := []
  connectOk : Bool := true
  clientClose : CloseResult := {}
  serverClose : CloseResult := {}
  disk : ℕ → List WriteResult := fun _ => []

end LSProxy
