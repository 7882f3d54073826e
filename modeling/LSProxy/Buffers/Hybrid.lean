import LSProxy.Lib.Tape
import LSProxy.Model.Hybridbuf

/-!
# The hybrid buffer is a tape

A `Hybridbuf` splits one cursor into `next_pos` and the offset of its file, and its content into
the memory in front and the file behind. As long as the file writes succeed and data is stored at
the end only, none of this shows: what is done with the buffer, from its construction or from a
`clear` on, is a run of a tape (`Tape`).

* `Hybridbuf.RunOf` — operations one after another, with what they return;
* `Hybridbuf.RunOf.at` — the buffer stands where the tape stands;
* `hybridbuf_reads_back` — what is stored is read back.

Which cache the memory is, and how much of the content it holds, appears in no answer: a buffer
that has been cleared answers as a new one does (`Hybridbuf.RunOf.transfer`).
-/

namespace LSProxy

open Segment

namespace Hybridbuf

variable {cfg : Config}

/-- Operations on a buffer, one after another, from `h₀` on, with what they return: stores at the
end that the disk carries out, fetches of a positive number of bytes, `rewind()`, `clear()`, and
`copy_data` from the buffer to a file. -/
inductive RunOf (h₀ : Hybridbuf cfg.histCacheSize) :
    List (Tape.Event UInt8) → Hybridbuf cfg.histCacheSize → Prop
  | start : RunOf h₀ [] h₀
  | store {es : List (Tape.Event UInt8)} {h h' : Hybridbuf cfg.histCacheSize}
      {results : List WriteResult} {data : Bytes} (hrun : RunOf h₀ es h)
      (hend : (Tape.blank.follow es).AtEnd) (hdisk : ∀ n, written results n = some n)
      (hop : h.store results data = .ok h') : RunOf h₀ (es ++ [.stored data]) h'
  | fetch {es : List (Tape.Event UInt8)} {h : Hybridbuf cfg.histCacheSize} {maxSize : ℕ}
      (hrun : RunOf h₀ es h) (hmax : 0 < maxSize) :
      RunOf h₀ (es ++ [.fetched (h.fetch maxSize).2]) (h.fetch maxSize).1
  | rewind {es : List (Tape.Event UInt8)} {h h' : Hybridbuf cfg.histCacheSize}
      (hrun : RunOf h₀ es h) (hop : h.rewind 0 = .ok h') : RunOf h₀ (es ++ [.rewound]) h'
  | clear {es : List (Tape.Event UInt8)} {h : Hybridbuf cfg.histCacheSize}
      (hrun : RunOf h₀ es h) : RunOf h₀ (es ++ [.cleared]) h.clear
  | copyData {es : List (Tape.Event UInt8)} {h h' : Hybridbuf cfg.histCacheSize}
      {disk : ℕ → List WriteResult} {scratch scratch' : Scratch cfg.sockIoBufSize}
      {dest dest' : Filebuf} (hrun : RunOf h₀ es h)
      (hdisk : ∀ k n, written (disk k) n = some n)
      (hop : h.copyData disk scratch dest = .ok (scratch', h', dest')) :
      RunOf h₀ (es ++ [.copied dest'.content]) h'

/-! ### What an operation returns -/

/-- The buffer holds the content of the tape and stands at its cursor. -/
def Matches (h : Hybridbuf cfg.histCacheSize) (t : Tape UInt8) : Prop := h.At t.content t.pos

/-- A store that the disk carries out appends. -/
theorem At.store_eq {h : Hybridbuf cfg.histCacheSize} {c : Bytes} (hat : h.At c c.length)
    {results : List WriteResult} (hdisk : ∀ n, written results n = some n) (data : Bytes) :
    ∃ h', h.store results data = .ok h' ∧ h'.At (c ++ data) (c ++ data).length := by
  rcases hat.store results data with ⟨e, herr, -⟩ | ⟨c', h', hstored, hok, hat'⟩
  · rw [stored_eq (hdisk _)] at herr
    cases herr
  · rw [stored_eq (hdisk _)] at hstored
    obtain rfl := Except.ok.inj hstored
    exact ⟨h', hok, hat'⟩

/-- A fetch reads on, and returns nothing exactly at the end. -/
theorem chunk_reads_on (cache : ℕ) {maxSize p : ℕ} {c : Bytes} (hp : p ≤ c.length)
    (hmax : 0 < maxSize) : chunk cache maxSize c p <+: c.drop p ∧
      (chunk cache maxSize c p = [] ↔ p = c.length) := by
  refine ⟨?_, fun hnil => ?_, fun hend => ?_⟩
  · rw [chunk_eq_take]
    exact List.take_prefix _ _
  · by_contra hne
    have hpos := chunk_length_pos cache (show p < c.length by omega) hmax
    rw [hnil] at hpos
    exact absurd hpos (Nat.lt_irrefl 0)
  · rw [hend]
    exact chunk_end _ _ _

/-- The copy loop, when the disk carries out every store: the destination gets the rest of the
content, and the source ends up at its end. -/
theorem At.copyLoop_eq {source : Hybridbuf cfg.histCacheSize} {c : Bytes} {p : ℕ}
    (hat : source.At c p) {disk : ℕ → List WriteResult}
    (hdisk : ∀ k n, written (disk k) n = some n) {rounds : ℕ} (hrounds : c.length - p < rounds)
    (k : ℕ) (scratch : Scratch cfg.sockIoBufSize) (dest : Bytes) :
    ∃ scratch' source', Hybridbuf.copyLoop disk rounds k scratch source (.filled dest)
        = .ok (scratch', source', .filled (dest ++ c.drop p)) ∧ source'.At c c.length := by
  induction rounds generalizing source p k scratch dest with
  | zero => exact absurd hrounds (Nat.not_lt_zero _)
  | succ rounds ih =>
    have hp := hat.pos_le
    obtain ⟨hbs, hat'⟩ := hat.fetch cfg.histCacheSize_lt cfg.sockIoBufSize_pos
    obtain ⟨hpre, hend⟩ := chunk_reads_on cfg.histCacheSize hp cfg.sockIoBufSize_pos
    rw [← hbs] at hat' hpre hend
    unfold Hybridbuf.copyLoop
    simp only [Scratch.first_put, Filebuf.store_filled, hdisk, List.take_length]
    by_cases hpc : p = c.length
    · -- the last fetch returns nothing
      have hnil := hend.mpr hpc
      rw [hnil, List.length_nil, Nat.add_zero] at hat'
      rw [if_neg (by rw [hnil]; exact Nat.lt_irrefl 0), hpc, List.drop_length, List.append_nil]
      exact ⟨_, _, rfl, hpc ▸ hat'⟩
    · have hpos : 0 < (source.fetch cfg.sockIoBufSize).2.length :=
        List.length_pos_iff.mpr fun hnil => hpc (hend.mp hnil)
      rw [if_pos hpos]
      -- a chunk is appended, and the loop goes on from the next position
      obtain ⟨scratch', source', hloop, hsource⟩ := ih hat' (by omega) (k + 1)
        (scratch.put (source.fetch cfg.sockIoBufSize).2 (source.fetch_length_le _))
        (dest ++ (source.fetch cfg.sockIoBufSize).2)
      refine ⟨scratch', source', ?_, hsource⟩
      obtain ⟨rest, hrest⟩ := hpre
      rw [hloop, ← List.drop_drop, ← hrest, List.drop_left, List.append_assoc]

/-- **`copy_data` copies the whole content**, whatever the position of the source and the content
of the destination, and leaves the source at its end. -/
theorem At.copyData_eq {source : Hybridbuf cfg.histCacheSize} {c : Bytes} {p : ℕ}
    (hat : source.At c p) {disk : ℕ → List WriteResult}
    (hdisk : ∀ k n, written (disk k) n = some n) (scratch : Scratch cfg.sockIoBufSize)
    (dest : Filebuf) :
    ∃ scratch' source', source.copyData disk scratch dest = .ok (scratch', source', .filled c) ∧
      source'.At c c.length := by
  unfold Hybridbuf.copyData
  rw [Hybridbuf.rewind_zero, Filebuf.clear_eq]
  have hrounds : c.length - 0 < source.dataSize + 1 := by
    rw [hat.dataSize_eq]
    omega
  have hloop := hat.rewind_zero.copyLoop_eq hdisk hrounds 0 scratch []
  rw [List.drop_zero, List.nil_append] at hloop
  exact hloop

/-! ### Runs -/

/-- A new buffer and a cleared one are both empty. -/
theorem RunOf.from_empty {dirty h : Hybridbuf cfg.histCacheSize} {es : List (Tape.Event UInt8)}
    (hrun : RunOf (.new _) es h ∨ RunOf dirty.clear es h) : ∃ h₀, RunOf h₀ es h ∧ h₀.At [] 0 := by
  rcases hrun with hrun | hrun
  · exact ⟨_, hrun, new_at⟩
  · exact ⟨_, hrun, clear_at _⟩

/-- **The buffer stands where the tape stands**, and answers as the tape does. -/
theorem RunOf.matches {h₀ h : Hybridbuf cfg.histCacheSize} {es : List (Tape.Event UInt8)}
    (hrun : RunOf h₀ es h) (h₀at : h₀.At [] 0) :
    h.Matches (Tape.blank.follow es) ∧ Tape.Run .blank es (Tape.blank.follow es) := by
  unfold Matches
  induction hrun with
  | start => exact ⟨h₀at, .start⟩
  | @store es h h' results data _ hend hdisk hop ih =>
    obtain ⟨hat, htape⟩ := ih
    rw [hend] at hat
    obtain ⟨h₁, hok, hat'⟩ := hat.store_eq hdisk data
    obtain rfl := Except.ok.inj (hok.symm.trans hop)
    rw [Tape.follow_concat]
    exact ⟨hat', htape.step hend⟩
  | @fetch es h maxSize _ hmax ih =>
    obtain ⟨hat, htape⟩ := ih
    obtain ⟨hbs, hat'⟩ := hat.fetch cfg.histCacheSize_lt hmax
    rw [← hbs] at hat'
    rw [Tape.follow_concat]
    -- what is fetched is on the tape, from the head on
    refine ⟨hat', htape.step ?_⟩
    show (h.fetch maxSize).2 <+: _ ∧ _
    rw [hbs]
    exact chunk_reads_on _ hat.pos_le hmax
  | rewind _ hop ih =>
    obtain ⟨hat, htape⟩ := ih
    rw [Hybridbuf.rewind_zero] at hop
    obtain rfl := Except.ok.inj hop
    rw [Tape.follow_concat]
    exact ⟨hat.rewind_zero, htape.step trivial⟩
  | clear _ ih =>
    rw [Tape.follow_concat]
    exact ⟨clear_at _, ih.2.step trivial⟩
  | @copyData es h h' disk scratch scratch' dest dest' _ hdisk hop ih =>
    obtain ⟨hat, htape⟩ := ih
    obtain ⟨scratch₁, h₁, hok, hat'⟩ := hat.copyData_eq hdisk scratch dest
    rw [hok] at hop
    obtain ⟨-, heq⟩ := Prod.mk.inj (Except.ok.inj hop)
    obtain ⟨rfl, rfl⟩ := Prod.mk.inj heq
    rw [Tape.follow_concat]
    exact ⟨hat', htape.step rfl⟩

/-- **An empty buffer answers as any other empty buffer**, whatever its memory holds. -/
theorem RunOf.transfer {h₀ h₀' h : Hybridbuf cfg.histCacheSize} {es : List (Tape.Event UInt8)}
    (hrun : RunOf h₀ es h) (hat₀ : h₀.At [] 0) (hat₀' : h₀'.At [] 0) : ∃ h', RunOf h₀' es h' := by
  induction hrun with
  | start => exact ⟨h₀', .start⟩
  | @store es h h' results data _ hend hdisk hop ih =>
    obtain ⟨h₁, hrun₁⟩ := ih
    have hat₁ := (hrun₁.matches hat₀').1
    unfold Matches at hat₁
    rw [hend] at hat₁
    obtain ⟨h₁', hok, -⟩ := hat₁.store_eq hdisk data
    exact ⟨h₁', hrun₁.store hend hdisk hok⟩
  | @fetch es h maxSize hrun hmax ih =>
    obtain ⟨h₁, hrun₁⟩ := ih
    -- both are at the same place, so both return the same chunk
    have hbs := ((hrun.matches hat₀).1.fetch cfg.histCacheSize_lt hmax).1
    have hbs₁ := ((hrun₁.matches hat₀').1.fetch cfg.histCacheSize_lt hmax).1
    refine ⟨(h₁.fetch maxSize).1, ?_⟩
    rw [hbs, ← hbs₁]
    exact hrun₁.fetch hmax
  | rewind _ _ ih =>
    obtain ⟨h₁, hrun₁⟩ := ih
    exact ⟨_, hrun₁.rewind (Hybridbuf.rewind_zero h₁)⟩
  | clear _ ih =>
    obtain ⟨h₁, hrun₁⟩ := ih
    exact ⟨_, hrun₁.clear⟩
  | @copyData es h h' disk scratch scratch' dest dest' hrun hdisk hop ih =>
    obtain ⟨h₁, hrun₁⟩ := ih
    obtain ⟨_, _, hok, -⟩ := (hrun.matches hat₀).1.copyData_eq hdisk scratch dest
    obtain ⟨_, h₁', hok₁, -⟩ := (hrun₁.matches hat₀').1.copyData_eq hdisk scratch dest
    rw [hok] at hop
    obtain ⟨-, heq⟩ := Prod.mk.inj (Except.ok.inj hop)
    obtain ⟨-, rfl⟩ := Prod.mk.inj heq
    exact ⟨h₁', hrun₁.copyData hdisk hok₁⟩

end Hybridbuf

/-- **A hybrid buffer reads back what was stored.** In every run from a new buffer, or from a
cleared one whatever it held: the size is that of what has been stored, what is fetched after a
`rewind()` is what has been stored, from the beginning, with nothing returned exactly at its end,
and `copy_data` copies all of it. `next_pos` stays within the stored part of the memory, so
`_buf_unread_data_size` does not underflow. A cleared buffer answers as a new one. -/
theorem hybridbuf_reads_back {cfg : Config} (dirty : Hybridbuf cfg.histCacheSize)
    {es : List (Tape.Event UInt8)} {h : Hybridbuf cfg.histCacheSize}
    (hrun : Hybridbuf.RunOf (.new _) es h ∨ Hybridbuf.RunOf dirty.clear es h) :
    Tape.Run .blank es (Tape.blank.follow es) ∧
      h.dataSize = (Tape.storedIn es).length ∧
      (∀ pre pieces xs, es = pre ++ .rewound :: (pieces ++ [xs]).map .fetched →
        (pieces ++ [xs]).flatten <+: Tape.storedIn es ∧
          (xs = [] ↔ pieces.flatten = Tape.storedIn es)) ∧
      (∀ disk (scratch : Scratch cfg.sockIoBufSize) dest, (∀ k n, written (disk k) n = some n) →
        ∃ scratch' h',
          h.copyData disk scratch dest = .ok (scratch', h', .filled (Tape.storedIn es))) ∧
      h.nextPos ≤ min h.dataSize cfg.histCacheSize ∧
      h.bufUnreadDataSize = min h.dataSize cfg.histCacheSize - h.nextPos ∧
      ((∃ h', Hybridbuf.RunOf (.new cfg.histCacheSize) es h') ∧
        ∃ h', Hybridbuf.RunOf dirty.clear es h') := by
  obtain ⟨h₀, hrun₀, hat₀⟩ := Hybridbuf.RunOf.from_empty hrun
  obtain ⟨hat, htape⟩ := hrun₀.matches hat₀
  unfold Hybridbuf.Matches at hat
  have hpos := hat.pos_le
  have hnext := hat.nextPos_eq
  rw [Tape.follow_content] at hat hpos
  refine ⟨htape, hat.dataSize_eq, ?_, ?_, ?_, ?_, ?_, ?_⟩
  · rintro pre pieces xs rfl
    have hcontent := Tape.follow_content (pre ++ .rewound :: (pieces ++ [xs]).map .fetched)
    rw [← hcontent]
    exact ⟨htape.reading.1, htape.reading_end⟩
  · intro disk scratch dest hdisk
    obtain ⟨scratch', h', hok, -⟩ := hat.copyData_eq hdisk scratch dest
    exact ⟨scratch', h', hok⟩
  · rw [hnext, hat.dataSize_eq]
    omega
  · rw [hat.bufUnreadDataSize cfg.histCacheSize_lt, hnext, hat.dataSize_eq]
  · exact hrun₀.transfer hat₀ Hybridbuf.new_at
  · exact hrun₀.transfer hat₀ (Hybridbuf.clear_at _)

/-- Two bytes of memory in front of the file. -/
def Config.twoBytes : Config := { page503 := [], sockIoBufSize := 4, histCacheSize := 2 }

/-- Three bytes straddle the memory and the file: they come back in two pieces. -/
theorem hybridbuf_reads_back_straddling : ∃ h : Hybridbuf Config.twoBytes.histCacheSize,
    Hybridbuf.RunOf (.new _) [.stored [1, 2, 3], .rewound, .fetched [1, 2], .fetched [3],
      .fetched []] h ∧ h.dataSize = 3 ∧ h.nextPos ≤ min h.dataSize 2 ∧
      (([] : Bytes) = [] ↔ [[1, 2], [3]].flatten = ([1, 2, 3] : Bytes)) := by
  have hstore : Hybridbuf.RunOf (.new Config.twoBytes.histCacheSize) [.stored [1, 2, 3]] _ :=
    .store .start rfl written_nil rfl
  have hrun := (((hstore.rewind (Hybridbuf.rewind_zero _)).fetch (show 0 < 4 by decide)).fetch
    (show 0 < 4 by decide)).fetch (show 0 < 4 by decide)
  obtain ⟨-, hsize, hread, -, hnext, -⟩ := hybridbuf_reads_back (.new _) (.inl hrun)
  exact ⟨_, hrun, hsize, hnext, (hread [.stored [1, 2, 3]] [[1, 2], [3]] [] rfl).2⟩

end LSProxy
