import BibiCore.Base.LittleEndian

/-!
# Chunks of a file

The chunk reader of Python's `wave` module: a chunk is read from a file, or from the chunk that
contains it, and never past its end. `LawfulByteSource` says what is left to read of either.
-/

/-- A file open for reading; `pos` may lie behind its end. -/
structure File where
  bytes : List UInt8
  pos : Nat
  deriving DecidableEq

/-- What a chunk asks of the file it is read from: up to `n` bytes, the position, and to go to a
position. -/
class ByteSource (φ : Type) where
  read : φ → Nat → List UInt8 × φ
  tell : φ → Nat
  seek : φ → Nat → Option φ

/-- `rest` are the bytes that are left to read. -/
class LawfulByteSource (φ : Type) [ByteSource φ] where
  rest : φ → List UInt8
  fst_read : ∀ (f : φ) (n : Nat), (ByteSource.read f n).1 = (rest f).take n
  rest_read : ∀ (f : φ) (n : Nat), rest (ByteSource.read f n).2 = (rest f).drop n

open ByteSource LawfulByteSource

namespace File

instance : ByteSource File where
  read f n := ((f.bytes.drop f.pos).take n, { f with
    pos := f.pos + ((f.bytes.drop f.pos).take n).length })
  tell f := f.pos
  seek f pos := some { f with pos := pos }

instance : LawfulByteSource File where
  rest f := f.bytes.drop f.pos
  fst_read _ _ := rfl
  rest_read f n := by
    change f.bytes.drop (f.pos + ((f.bytes.drop f.pos).take n).length) = _
    rw [← List.drop_drop, List.length_take]
    rcases Nat.le_total n (f.bytes.drop f.pos).length with h | h
    · rw [Nat.min_eq_left h]
    · rw [Nat.min_eq_right h, List.drop_length, List.drop_of_length_le h]

end File

/-- `_Chunk`, with `align` set and `bigendian` not. -/
structure RiffChunk (φ : Type) where
  file : φ
  chunkname : List UInt8
  chunksize : Nat
  sizeRead : Nat
  offset : Nat
  deriving DecidableEq

namespace RiffChunk

variable {φ : Type} [ByteSource φ]

/-- `_Chunk.__init__`; `none` is `EOFError`. -/
def start (file : φ) : Option (RiffChunk φ) :=
  let (chunkname, file) := read file 4
  if chunkname.length < 4 then none
  else
    let (size, file) := read file 4
    match LittleEndian.unpack 4 size with
    | none => none
    | some chunksize => some ⟨file, chunkname, chunksize, 0, tell file⟩

/-- `_Chunk.read`: a chunk of odd size is followed by a byte that belongs to nothing. -/
def readBytes (c : RiffChunk φ) (size : Nat) : List UInt8 × RiffChunk φ :=
  if c.chunksize ≤ c.sizeRead then ([], c)
  else
    let (data, file) := read c.file (min size (c.chunksize - c.sizeRead))
    let c := { c with file := file, sizeRead := c.sizeRead + data.length }
    if c.sizeRead = c.chunksize ∧ c.chunksize % 2 = 1 then
      let (dummy, file) := read c.file 1
      (data, { c with file := file, sizeRead := c.sizeRead + dummy.length })
    else (data, c)

/-- `_Chunk.seek`; `none` is `RuntimeError`. -/
def seekTo (c : RiffChunk φ) (pos : Nat) : Option (RiffChunk φ) :=
  if c.chunksize < pos then none
  else (seek c.file (c.offset + pos)).map fun file ↦ { c with file := file, sizeRead := pos }

/-- `_Chunk.skip`. -/
def skip (c : RiffChunk φ) : Option (RiffChunk φ) :=
  let n := c.chunksize + c.chunksize % 2 - c.sizeRead
  (seek c.file (tell c.file + n)).map fun file ↦
    { c with file := file, sizeRead := c.sizeRead + n }

instance : ByteSource (RiffChunk φ) where
  read := readBytes
  tell := sizeRead
  seek := seekTo

private theorem drop_min_take (bs : List UInt8) (n k : Nat) :
    (bs.drop (min n k)).take (k - (bs.take (min n k)).length) = (bs.take k).drop n := by
  rw [List.drop_take, List.length_take]
  rcases Nat.le_total n k with hnk | hkn
  · rw [Nat.min_eq_left hnk]
    rcases Nat.le_total n bs.length with hn | hn
    · rw [Nat.min_eq_left hn]
    · simp [List.drop_of_length_le hn]
  · rw [Nat.min_eq_right hkn, Nat.sub_eq_zero_of_le hkn]
    rcases Nat.le_total k bs.length with hk | hk
    · simp [Nat.min_eq_left hk]
    · simp [List.drop_of_length_le hk]

/-- Nothing but what is left of the chunk is left to read, and of that as much as there is. -/
instance [LawfulByteSource φ] : LawfulByteSource (RiffChunk φ) where
  rest c := (rest c.file).take (c.chunksize - c.sizeRead)
  fst_read c n := by
    change (c.readBytes n).1 = _
    unfold readBytes
    split
    · next h => simp [Nat.sub_eq_zero_of_le h]
    · simp only []
      split <;> simp only [fst_read, List.take_take]
  rest_read c n := by
    let left (c : RiffChunk φ) := (rest c.file).take (c.chunksize - c.sizeRead)
    change left (c.readBytes n).2 = (left c).drop n
    unfold readBytes
    split
    · next h => simp [left, Nat.sub_eq_zero_of_le h]
    · next h =>
      have hread := drop_min_take (rest c.file) n (c.chunksize - c.sizeRead)
      simp only []
      split
      · next hend =>
        -- the chunk is at its end, and what was left is not more than was asked for
        have hnone : (left c).drop n = [] := by
          apply List.drop_of_length_le
          rw [fst_read, List.length_take] at hend
          simp only [left, List.length_take]
          omega
        rw [hnone]
        simp only [left]
        rw [Nat.sub_eq_zero_of_le (by omega), List.take_zero]
      · simp only [left, fst_read, rest_read, ← Nat.sub_sub]
        exact hread

/-- A chunk is still to give what its file does, up to its size. -/
theorem rest_eq [LawfulByteSource φ] (c : RiffChunk φ) :
    rest c = (rest c.file).take (c.chunksize - c.sizeRead) := rfl

/-- A chunk begins with its name and its size. -/
theorem start_of_rest [LawfulByteSource φ] {file : φ} {name more : List UInt8} {size : Nat}
    (hname : name.length = 4) (hsize : size < 256 ^ 4)
    (h : rest file = name ++ (LittleEndian.bytes 4 size ++ more)) :
    ∃ c, start file = some c ∧ c.chunkname = name ∧ c.chunksize = size ∧ c.sizeRead = 0 ∧
      c.file = (read (read file 4).2 4).2 ∧ c.offset = tell c.file ∧ rest c.file = more := by
  have hfst : (read file 4).1 = name := by rw [fst_read, h, List.take_left' hname]
  have hrest : rest (read file 4).2 = LittleEndian.bytes 4 size ++ more := by
    rw [rest_read, h, List.drop_left' hname]
  have hlen := LittleEndian.length_bytes 4 size
  have hsnd : LittleEndian.unpack 4 (read (read file 4).2 4).1 = some size := by
    rw [fst_read, hrest, List.take_left' hlen, ← List.append_nil (LittleEndian.bytes 4 size)]
    exact LittleEndian.unpack_bytes hsize []
  refine ⟨⟨(read (read file 4).2 4).2, name, size, 0, tell (read (read file 4).2 4).2⟩, ?_, rfl,
    rfl, rfl, rfl, rfl, ?_⟩
  · simp [start, hfst, hname, hsnd]
  · rw [rest_read, hrest, List.drop_left' hlen]

/-! ### How far a chunk is read -/

/-- A chunk with bytes to give is not read to its size. -/
theorem lt_chunksize_of_rest [LawfulByteSource φ] {c : RiffChunk φ} (h : rest c ≠ []) :
    c.sizeRead < c.chunksize := by
  by_contra hle
  apply h
  rw [rest_eq, Nat.sub_eq_zero_of_le (not_lt.mp hle), List.take_zero]

/-- A chunk of even size takes what it reads off its file and nothing else. -/
theorem readBytes_of_even [LawfulByteSource φ] {c : RiffChunk φ} {n : Nat}
    (heven : c.chunksize % 2 = 0) (hn : n ≤ (rest c).length) :
    (c.readBytes n).2.sizeRead = c.sizeRead + n ∧
      rest (c.readBytes n).2.file = (rest c.file).drop n := by
  rw [rest_eq, List.length_take] at hn
  unfold readBytes
  split
  · next h =>
    rw [Nat.sub_eq_zero_of_le h, Nat.zero_min, Nat.le_zero] at hn
    simp [hn]
  · simp only []
    rw [if_neg (by omega), Nat.min_eq_left (hn.trans (Nat.min_le_left _ _))]
    refine ⟨?_, rest_read c.file n⟩
    rw [fst_read, List.length_take, Nat.min_eq_left (hn.trans (Nat.min_le_right _ _))]

/-- Reading leaves the size of a chunk. -/
@[simp] theorem chunksize_readBytes (c : RiffChunk φ) (n : Nat) :
    (c.readBytes n).2.chunksize = c.chunksize := by
  unfold readBytes
  split
  · rfl
  · simp only []
    split <;> rfl

/-- A read moves a chunk on by what it reads, if not further. -/
theorem sizeRead_readBytes (c : RiffChunk φ) (n : Nat) :
    c.sizeRead + (c.readBytes n).1.length ≤ (c.readBytes n).2.sizeRead := by
  unfold readBytes
  split
  · rfl
  · simp only []
    split
    · exact Nat.le_add_right _ _
    · exact le_rfl

/-- The chunk has been read further. -/
def Later (c c' : RiffChunk φ) : Prop := c'.chunksize = c.chunksize ∧ c.sizeRead ≤ c'.sizeRead

omit [ByteSource φ] in
/-- A chunk is as far as itself. -/
theorem Later.rfl {c : RiffChunk φ} : c.Later c := ⟨Eq.refl _, le_rfl⟩

omit [ByteSource φ] in
/-- Later than a later chunk is later. -/
theorem Later.trans {c c' c'' : RiffChunk φ} (h : c.Later c') (h' : c'.Later c'') :
    c.Later c'' :=
  ⟨h'.1.trans h.1, h.2.trans h'.2⟩

private theorem later_readBytes (c : RiffChunk φ) (n : Nat) : c.Later (c.readBytes n).2 :=
  ⟨chunksize_readBytes c n, (Nat.le_add_right _ _).trans (sizeRead_readBytes c n)⟩

/-- Reading a chunk reads the chunk that contains it. -/
theorem later_readBytes_file (c : RiffChunk (RiffChunk φ)) (n : Nat) :
    c.file.Later (c.readBytes n).2.file := by
  unfold readBytes
  split
  · exact Later.rfl
  · simp only []
    split
    · exact (later_readBytes c.file _).trans (later_readBytes _ 1)
    · exact later_readBytes c.file _

/-- Skipping a chunk inside another only moves the outer one forward. -/
theorem later_skip {c c' : RiffChunk (RiffChunk φ)} (h : c.skip = some c') :
    c.file.Later c'.file := by
  unfold skip at h
  obtain ⟨file, hfile, rfl⟩ := Option.map_eq_some_iff.mp h
  change c.file.seekTo _ = some file at hfile
  unfold seekTo at hfile
  split at hfile
  · cases hfile
  · obtain ⟨_, -, rfl⟩ := Option.map_eq_some_iff.mp hfile
    exact ⟨Eq.refl _, Nat.le_add_right _ _⟩

/-- There is no further chunk at the end of the one that contains them. -/
theorem start_of_le {c : RiffChunk φ} (h : c.chunksize ≤ c.sizeRead) : start c = none := by
  have hread : read c 4 = ([], c) := by
    change c.readBytes 4 = _
    rw [readBytes, if_pos h]
  simp [start, hread]

/-- The head of a chunk takes eight bytes of the chunk that contains it. -/
theorem later_start {c : RiffChunk φ} {chunk : RiffChunk (RiffChunk φ)} (h : start c = some chunk) :
    chunk.file.chunksize = c.chunksize ∧ c.sizeRead + 8 ≤ chunk.file.sizeRead := by
  unfold start at h
  simp only [] at h
  split at h
  · cases h
  · next hname =>
    split at h
    · cases h
    · next hsize =>
      cases h
      have hfirst := sizeRead_readBytes c 4
      have hsecond := sizeRead_readBytes (c.readBytes 4).2 4
      have hname : 4 ≤ (c.readBytes 4).1.length := not_lt.mp hname
      have hsize : 4 ≤ ((c.readBytes 4).2.readBytes 4).1.length :=
        LittleEndian.le_of_unpack hsize
      refine ⟨?_, ?_⟩
      · change ((c.readBytes 4).2.readBytes 4).2.chunksize = _
        rw [chunksize_readBytes, chunksize_readBytes]
      · change _ ≤ ((c.readBytes 4).2.readBytes 4).2.sizeRead
        omega

/-! ### Where a chunk is -/

/-- A chunk that is read off a file is where it says it is. -/
def Aligned (c : RiffChunk File) : Prop := c.file.pos = c.offset + c.sizeRead

/-- Reading from a chunk keeps it aligned with its file. -/
theorem Aligned.readBytes {c : RiffChunk File} (hc : c.Aligned) (n : Nat) :
    (c.readBytes n).2.Aligned := by
  have hmove (f : File) (n : Nat) :
      (read f n).2.pos = f.pos + (read f n).1.length := rfl
  unfold RiffChunk.readBytes
  split
  · exact hc
  · unfold Aligned at hc ⊢
    simp only []
    split
    · simp only [hmove, hc, Nat.add_assoc]
    · simp only [hmove, hc, Nat.add_assoc]

/-- So is the chunk that contains another one, while this one is read. -/
theorem Aligned.readBytes_file {c : RiffChunk (RiffChunk File)} (hc : c.file.Aligned) (n : Nat) :
    (c.readBytes n).2.file.Aligned := by
  have hmove {f : RiffChunk File} (hf : f.Aligned) (n : Nat) : (read f n).2.Aligned :=
    hf.readBytes n
  unfold RiffChunk.readBytes
  split
  · exact hc
  · simp only []
    split
    · exact hmove (hmove hc _) _
    · exact hmove hc _

/-- Skipping the rest of a chunk moves the chunk that contains it on, as long as there is something
left of it. -/
theorem skip_of_rest {c : RiffChunk (RiffChunk File)} {n : Nat} (hc : c.file.Aligned)
    (hn : c.chunksize + c.chunksize % 2 = c.sizeRead + n)
    (hlt : c.file.sizeRead + n ≤ c.file.chunksize) :
    ∃ c', c.skip = some c' ∧ c'.file.Aligned ∧ c'.file.chunksize = c.file.chunksize ∧
      rest c'.file = (rest c.file).drop n := by
  have hskip : c.chunksize + c.chunksize % 2 - c.sizeRead = n := by omega
  let moved : RiffChunk File := { c.file with
    file := { c.file.file with pos := c.file.offset + (c.file.sizeRead + n) }
    sizeRead := c.file.sizeRead + n }
  have hseek : seek c.file (tell c.file + n) = some moved := by
    change c.file.seekTo (c.file.sizeRead + n) = _
    rw [seekTo, if_neg (by omega)]
    rfl
  refine ⟨{ c with file := moved, sizeRead := c.sizeRead + n }, ?_, rfl, rfl, ?_⟩
  · rw [skip, hskip, hseek]
    rfl
  · change ((c.file.file.bytes.drop (c.file.offset + (c.file.sizeRead + n))).take
      (c.file.chunksize - (c.file.sizeRead + n))) =
      ((c.file.file.bytes.drop c.file.file.pos).take (c.file.chunksize - c.file.sizeRead)).drop n
    rw [hc, List.drop_take, List.drop_drop, Nat.sub_sub, Nat.add_assoc]

end RiffChunk
