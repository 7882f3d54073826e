import LSProxy.Lib.Reader
import LSProxy.Buffers.Hybrid

/-!
# Rewinding part of the way

`Filebuf::rewind(amount)` moves the cursor back by `amount`. `Hybridbuf::rewind(amount)` overrides
it, and computes where to go from the end of the data instead: it is `data_size - amount` that it
moves to, if that lies in memory. Both call 0 "to the beginning", so a distance that comes out as
0 inside `Hybridbuf::rewind` is taken for the beginning too.

* `Hybridbuf.At.rewind` — where `rewind(amount)` goes from position `p`;
* `hybridbuf_rewind` — the two agree exactly when the cursor is at the end, or when the way back
  ends in the file, or, by coincidence, in the middle of the content.
-/

namespace LSProxy

open Reader

/-! ### What the buffers read -/

/-- A file buffer reads on from its cursor. -/
theorem Filebuf.reads (f : Filebuf) : Reads Filebuf.fetch f (f.content.drop f.offset) := by
  refine Reads.of_step (R := fun f xs => xs = f.content.drop f.offset) ?_ rfl
  rintro f xs n rfl hn
  refine ⟨List.take_prefix _ _, ?_, ?_⟩
  · show (f.content.drop f.offset).take n = [] ↔ _
    rw [List.take_eq_nil_iff]
    exact or_iff_right (by omega)
  · show _ = f.content.drop (f.offset + _)
    rw [List.drop_drop]
    rfl

namespace Hybridbuf

variable {cfg : Config}

/-- A hybrid buffer reads on from its position. -/
theorem At.reads {h : Hybridbuf cfg.histCacheSize} {c : Bytes} {p : ℕ} (hat : h.At c p) :
    Reads Hybridbuf.fetch h (c.drop p) := by
  refine Reads.of_step (R := fun h xs => ∃ c p, h.At c p ∧ xs = c.drop p) ?_ ⟨c, p, hat, rfl⟩
  rintro h xs n ⟨c, p, hat, rfl⟩ hn
  obtain ⟨hbs, hat'⟩ := hat.fetch cfg.histCacheSize_lt hn
  obtain ⟨hpre, hend⟩ := chunk_reads_on cfg.histCacheSize hat.pos_le hn
  rw [← hbs] at hpre hend hat'
  refine ⟨hpre, ?_, c, _, hat', List.drop_drop⟩
  have hp := hat.pos_le
  rw [hend, List.drop_eq_nil_iff]
  omega

/-- The position is where the buffer reads from: two of them read different lists. -/
theorem At.reads_iff {h : Hybridbuf cfg.histCacheSize} {c : Bytes} {p q : ℕ} (hat : h.At c p)
    (hq : q ≤ c.length) : Reads Hybridbuf.fetch h (c.drop q) ↔ p = q := by
  constructor
  · intro hreads
    have hlen := congrArg List.length (hat.reads.unique hreads)
    have hp := hat.pos_le
    rw [List.length_drop, List.length_drop] at hlen
    omega
  · rintro rfl
    exact hat.reads

/-! ### Where `rewind` goes -/

/-- Going back inside the memory part. -/
theorem At.seek_memory {h : Hybridbuf cfg.histCacheSize} {c : Bytes} {p q : ℕ} (hat : h.At c p)
    (hq : q ≤ c.length) (hmem : q ≤ cfg.histCacheSize) :
    ({ h with offset := 0, nextPos := q } : Hybridbuf cfg.histCacheSize).At c q :=
  ⟨hq, hat.dataSize_eq, (Nat.min_eq_left hmem).symm, hat.memory, hat.file,
    (Nat.sub_eq_zero_of_le hmem).symm⟩

/-- Going back inside the file part. -/
theorem At.seek_file {h : Hybridbuf cfg.histCacheSize} {c : Bytes} {p amount : ℕ} (hat : h.At c p)
    (hle : amount ≤ p) (hfile : cfg.histCacheSize ≤ p - amount) :
    ({ h with offset := h.offset - amount } : Hybridbuf cfg.histCacheSize).At c (p - amount) := by
  have hp := hat.pos_le
  refine ⟨by omega, hat.dataSize_eq, ?_, hat.memory, hat.file, ?_⟩
  · rw [hat.nextPos_eq]
    omega
  · simp only [hat.offset_eq]
    omega

/-- `_buf_rewind` by a difference of positions arrives at the lower one, and a difference of 0 is
the beginning. Both subtractions may wrap around. -/
theorem bufRewind_sizeSub {cache : ℕ} (h : Hybridbuf cache) {q : ℕ} (hpos : h.nextPos < 2 ^ 32)
    (hq : q < 2 ^ 32) : h.bufRewind (sizeSub h.nextPos q)
      = { h with nextPos := if h.nextPos = q then 0 else q } := by
  have hdist : sizeSub h.nextPos q % 2 ^ 32
      = if q ≤ h.nextPos then h.nextPos - q else 2 ^ 32 - (q - h.nextPos) := by
    unfold sizeSub
    split <;> omega
  have hback : (h.nextPos + (2 ^ 32 - (if sizeSub h.nextPos q % 2 ^ 32 = 0 then h.nextPos
      else sizeSub h.nextPos q % 2 ^ 32) % 2 ^ 32)) % 2 ^ 32
      = if h.nextPos = q then 0 else q := by
    rw [hdist]
    split_ifs <;> omega
  unfold bufRewind
  simp only [hback]

/-- **Where `rewind(amount)` goes**: to `data_size - amount` if that lies in memory, except that
from there it goes to the beginning; otherwise back in the file by `amount`, if so much of it has
been read. -/
theorem At.rewind {h : Hybridbuf cfg.histCacheSize} {c : Bytes} {p amount : ℕ} (hat : h.At c p)
    (hsize : c.length < 2 ^ 64) (hpos : 0 < amount) (hle : amount ≤ p) :
    (c.length - amount < cfg.histCacheSize ∧ ∃ h', h.rewind amount = .ok h' ∧
      h'.At c (if min p cfg.histCacheSize = c.length - amount then 0 else c.length - amount)) ∨
    (cfg.histCacheSize ≤ p - amount ∧
      ∃ h', h.rewind amount = .ok h' ∧ h'.At c (p - amount)) ∨
    (cfg.histCacheSize ≤ c.length - amount ∧ p - amount < cfg.histCacheSize ∧
      h.rewind amount = .error .errorExit) := by
  have hcache := cfg.histCacheSize_lt
  have hp := hat.pos_le
  have hoffset : sizeSub h.dataSize amount = c.length - amount := by
    rw [hat.dataSize_eq, sizeSub_of_le (by omega) hsize]
  have hnext := hat.nextPos_eq
  unfold Hybridbuf.rewind
  rw [if_neg (by omega), hoffset]
  by_cases hmem : c.length - amount < cfg.histCacheSize
  · rw [if_pos hmem]
    refine Or.inl ⟨hmem, _, rfl, ?_⟩
    -- `_buf_rewind` is given the distance, and takes a distance of 0 for the beginning
    show (({ h with offset := 0 } : Hybridbuf cfg.histCacheSize).bufRewind
      (sizeSub h.nextPos (c.length - amount))).At _ _
    rw [bufRewind_sizeSub { h with offset := 0 } (by simp only [hnext]; omega) (by omega)]
    simp only [hnext]
    split
    · exact hat.seek_memory (Nat.zero_le _) (Nat.zero_le _)
    · exact hat.seek_memory (by omega) (by omega)
  · -- the file goes back by `amount` from where it stands, not from its end
    rw [if_neg hmem]
    unfold Filebuf.fileRewind
    rw [if_neg (by omega), hat.offset_eq]
    by_cases hfile : cfg.histCacheSize ≤ p - amount
    · rw [if_pos (by omega)]
      have hat' := hat.seek_file hle hfile
      rw [hat.offset_eq] at hat'
      exact Or.inr (Or.inl ⟨hfile, _, rfl, hat'⟩)
    · rw [if_neg (by omega)]
      exact Or.inr (Or.inr ⟨by omega, by omega, rfl⟩)

/-- The condition under which `rewind(amount)` goes back by `amount` from position `p` of a content
of `size` bytes. -/
def RewindSound (cache size p amount : ℕ) : Prop :=
  p = size ∨ cache ≤ p - amount ∨ (p < cache ∧ size = 2 * p ∧ amount = p)

/-- Rewinding leaves the buffer at `p - amount` exactly under the condition. -/
theorem At.rewind_iff {h : Hybridbuf cfg.histCacheSize} {c : Bytes} {p amount : ℕ}
    (hat : h.At c p) (hsize : c.length < 2 ^ 64) (hpos : 0 < amount) (hle : amount ≤ p) :
    (∃ h', h.rewind amount = .ok h' ∧ Reads Hybridbuf.fetch h' (c.drop (p - amount))) ↔
      RewindSound cfg.histCacheSize c.length p amount := by
  have hp := hat.pos_le
  unfold RewindSound
  rcases hat.rewind hsize hpos hle with
    ⟨hmem, h', hok, hat'⟩ | ⟨hfile, h', hok, hat'⟩ | ⟨hfile, hmem, herr⟩
  · -- inside memory it goes to a place counted from the end
    have hreads : (∃ h', h.rewind amount = .ok h' ∧ Reads Hybridbuf.fetch h' (c.drop (p - amount)))
        ↔ Reads Hybridbuf.fetch h' (c.drop (p - amount)) := by
      constructor
      · rintro ⟨h₁, hok₁, hreads⟩
        rwa [Except.ok.inj (hok.symm.trans hok₁)]
      · exact fun hreads => ⟨h', hok, hreads⟩
    rw [hreads, hat'.reads_iff (by omega)]
    split <;> omega
  · exact iff_of_true ⟨h', hok, hat'.reads⟩ (Or.inr (Or.inl hfile))
  · refine iff_of_false ?_ (by omega)
    rintro ⟨h', hok, -⟩
    exact absurd (herr.symm.trans hok) nofun

end Hybridbuf

/-- A file buffer goes back by `amount`. -/
theorem Filebuf.rewind_reads {c : Bytes} {p amount : ℕ} (hpos : 0 < amount) (hle : amount ≤ p) :
    ∃ f', (Filebuf.mk c p c.length).rewind amount = .ok f' ∧
      Reads Filebuf.fetch f' (c.drop (p - amount)) := by
  refine ⟨⟨c, p - amount, c.length⟩, ?_, Filebuf.reads _⟩
  unfold Filebuf.rewind Filebuf.fileRewind
  rw [if_neg (by omega), if_pos hle]

/-- **`Hybridbuf::rewind(amount)` agrees with `Filebuf::rewind(amount)`** exactly when it starts at
the end of the content, when the place it goes back to lies in the file, or when it goes back to
the beginning from the middle of a content whose first half lies in memory. -/
theorem hybridbuf_rewind {cfg : Config} (dirty : Hybridbuf cfg.histCacheSize)
    {pre : List (Tape.Event UInt8)} {pieces : List Bytes} {h : Hybridbuf cfg.histCacheSize}
    {amount : ℕ}
    (hrun : Hybridbuf.RunOf (.new _) (pre ++ .rewound :: pieces.map .fetched) h ∨
      Hybridbuf.RunOf dirty.clear (pre ++ .rewound :: pieces.map .fetched) h)
    (hsize : h.dataSize < 2 ^ 64) (hpos : 0 < amount) (hle : amount ≤ pieces.flatten.length) :
    (∃ f', (Filebuf.mk (Tape.storedIn pre) pieces.flatten.length
        (Tape.storedIn pre).length).rewind amount = .ok f' ∧
      Reads Filebuf.fetch f' ((Tape.storedIn pre).drop (pieces.flatten.length - amount))) ∧
    ((∃ h', h.rewind amount = .ok h' ∧
        Reads Hybridbuf.fetch h' ((Tape.storedIn pre).drop (pieces.flatten.length - amount))) ↔
      Hybridbuf.RewindSound cfg.histCacheSize (Tape.storedIn pre).length pieces.flatten.length
        amount) := by
  obtain ⟨h₀, hrun₀, hat₀⟩ := Hybridbuf.RunOf.from_empty hrun
  obtain ⟨hat, htape⟩ := hrun₀.matches hat₀
  unfold Hybridbuf.Matches at hat
  rw [htape.reading.2, Tape.follow_content, Tape.storedIn_reading] at hat
  rw [hat.dataSize_eq] at hsize
  exact ⟨Filebuf.rewind_reads hpos hle, hat.rewind_iff hsize hpos hle⟩

/-- From the end of three bytes, of which two are in memory, one back. -/
theorem hybridbuf_rewind_end : ∃ h h' : Hybridbuf Config.twoBytes.histCacheSize,
    Hybridbuf.RunOf (.new _) [.stored [1, 2, 3], .rewound, .fetched [1, 2], .fetched [3]] h ∧
      h.rewind 1 = .ok h' ∧ Reads Hybridbuf.fetch h' [3] := by
  have hstore : Hybridbuf.RunOf (.new Config.twoBytes.histCacheSize) [.stored [1, 2, 3]] _ :=
    .store .start rfl written_nil rfl
  obtain ⟨h, hrun, hsize⟩ : ∃ h, Hybridbuf.RunOf (.new Config.twoBytes.histCacheSize)
      ([.stored [1, 2, 3]] ++ .rewound :: [[1, 2], [3]].map .fetched) h ∧ h.dataSize = 3 :=
    ⟨_, ((hstore.rewind (Hybridbuf.rewind_zero _)).fetch (show 0 < 4 by decide)).fetch
      (show 0 < 4 by decide), rfl⟩
  obtain ⟨-, hsound⟩ := @hybridbuf_rewind Config.twoBytes (.new _) _ _ _ _ (.inl hrun)
    (by omega) Nat.one_pos (by decide)
  obtain ⟨h', hok, hreads⟩ := hsound.mpr (.inl rfl)
  exact ⟨h, h', hrun, hok, hreads⟩

/-- Three bytes, of which two are in memory. After the first two have been fetched, two back is
the second byte; after the first one has been fetched, one back takes the process down. -/
theorem hybridbuf_rewind_misplaced :
    (∃ h : Hybridbuf Config.twoBytes.histCacheSize,
      Hybridbuf.RunOf (.new _) [.stored [1, 2, 3], .rewound, .fetched [1, 2]] h ∧
        ¬ ∃ h', h.rewind 2 = .ok h' ∧ Reads Hybridbuf.fetch h' [1, 2, 3]) ∧
    ∃ h : Hybridbuf Config.twoBytes.histCacheSize,
      Hybridbuf.RunOf (.new _) [.stored [1, 2, 3], .rewound, .fetched [1]] h ∧
        h.rewind 1 = .error .errorExit := by
  have hstore : Hybridbuf.RunOf (.new Config.twoBytes.histCacheSize) [.stored [1, 2, 3]] _ :=
    .store .start rfl written_nil rfl
  have hrewind := hstore.rewind (Hybridbuf.rewind_zero _)
  constructor
  · obtain ⟨h, hrun⟩ : ∃ h : Hybridbuf Config.twoBytes.histCacheSize,
        Hybridbuf.RunOf (.new _) [.stored [1, 2, 3], .rewound, .fetched [1, 2]] h :=
      ⟨_, hrewind.fetch (show 0 < 4 by decide)⟩
    have hat : h.At [1, 2, 3] 2 := (hrun.matches Hybridbuf.new_at).1
    refine ⟨h, hrun, fun hback => ?_⟩
    have hsound := (hat.rewind_iff (by simp) Nat.two_pos le_rfl).mp hback
    simp [Hybridbuf.RewindSound, Config.twoBytes] at hsound
  · obtain ⟨h, hrun⟩ : ∃ h : Hybridbuf Config.twoBytes.histCacheSize,
        Hybridbuf.RunOf (.new _) [.stored [1, 2, 3], .rewound, .fetched [1]] h :=
      ⟨_, hrewind.fetch (show 0 < 1 by decide)⟩
    have hat : h.At [1, 2, 3] 1 := (hrun.matches Hybridbuf.new_at).1
    refine ⟨h, hrun, ?_⟩
    rcases hat.rewind (by simp) Nat.one_pos le_rfl with ⟨hmem, -⟩ | ⟨hfile, -⟩ | ⟨-, -, herr⟩
    · exact absurd hmem (by decide)
    · exact absurd hfile (by decide)
    · exact herr

end LSProxy
