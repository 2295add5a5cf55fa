import BibiCore.Base.RiffChunk

/-!
# Reading a wave file

`Wave_read` of Python's `wave` module. `none` is an exception: `EOFError`, `RuntimeError` of a
`seek`, or `wave.Error`.
-/

open ByteSource LawfulByteSource

/-- A `bytes` literal. -/
def asciiBytes (s : String) : List UInt8 := s.toList.map fun c ↦ UInt8.ofNat c.toNat

/-- What a `fmt ` chunk says of the samples. -/
structure WaveFormat where
  nchannels : Nat
  framerate : Nat
  sampwidth : Nat
  nchannels_pos : 0 < nchannels
  sampwidth_pos : 0 < sampwidth
  deriving DecidableEq

/-- `_framesize`. -/
def WaveFormat.framesize (format : WaveFormat) : Nat := format.nchannels * format.sampwidth

/-- A frame is no shorter than a byte. -/
theorem WaveFormat.framesize_pos (format : WaveFormat) : 0 < format.framesize :=
  Nat.mul_pos format.nchannels_pos format.sampwidth_pos

/-- `Wave_read`, once it has found the samples. -/
structure WaveRead where
  format : WaveFormat
  dataChunk : RiffChunk (RiffChunk File)
  deriving DecidableEq

namespace WaveRead

/-- `WAVE_FORMAT_PCM`. -/
def formatPCM : Nat := 1

/-- `WAVE_FORMAT_EXTENSIBLE`. -/
def formatExtensible : Nat := 0xFFFE

/-- `KSDATAFORMAT_SUBTYPE_PCM`. -/
def subtypePCM : List UInt8 :=
  [0x01, 0, 0, 0, 0, 0, 0x10, 0, 0x80, 0, 0, 0xAA, 0, 0x38, 0x9B, 0x71]

section

variable {φ : Type} [ByteSource φ]

/-- The part of `_read_fmt_chunk` about `WAVE_FORMAT_EXTENSIBLE`. -/
def readExtension (chunk : φ) : Option φ :=
  let (head, chunk) := read chunk 8
  let (subFormat, chunk) := read chunk 16
  if head.length < 8 then none else if subFormat = subtypePCM then some chunk else none

/-- `_read_fmt_chunk`. -/
def readFmtChunk (chunk : φ) : Option (WaveFormat × φ) := do
  let (head, chunk) := read chunk 14
  guard (14 ≤ head.length)
  let formatTag ← LittleEndian.unpack 2 head
  let nchannels ← LittleEndian.unpack 2 (head.drop 2)
  let framerate ← LittleEndian.unpack 4 (head.drop 4)
  guard (formatTag = formatPCM ∨ formatTag = formatExtensible)
  let (bits, chunk) := read chunk 2
  let bits ← LittleEndian.unpack 2 bits
  let chunk ← (if formatTag = formatExtensible then readExtension chunk else some chunk)
  if h : 0 < nchannels ∧ 0 < (bits + 7) / 8 then
    some (⟨nchannels, framerate, (bits + 7) / 8, h.1, h.2⟩, chunk)
  else none

end

/-- The loop of `initfp` over the chunks of a file, at most `n` of them. -/
def findData : Nat → Option WaveFormat → RiffChunk File → Option WaveRead
  | 0, _, _ => none
  | n + 1, format, file =>
    match RiffChunk.start file with
    | none => none
    | some chunk =>
      if chunk.chunkname = asciiBytes "fmt " then do
        let (format, chunk) ← readFmtChunk chunk
        let chunk ← chunk.skip
        findData n (some format) chunk.file
      else if chunk.chunkname = asciiBytes "data" then format.map fun format ↦ ⟨format, chunk⟩
      else do
        let chunk ← chunk.skip
        findData n format chunk.file

/-- `initfp`; every chunk moves the file on, so that there are fewer of them than bytes. -/
def init (bytes : List UInt8) : Option WaveRead := do
  let file ← RiffChunk.start (⟨bytes, 0⟩ : File)
  if file.chunkname ≠ asciiBytes "RIFF" then none
  let (form, file) := read file 4
  if form ≠ asciiBytes "WAVE" then none
  findData file.chunksize none file

/-- `readframes`. -/
def readframes (wav : WaveRead) (nframes : Nat) : List UInt8 × WaveRead :=
  let (data, chunk) := read wav.dataChunk (nframes * wav.format.framesize)
  (data, { wav with dataChunk := chunk })

/-- The bytes of the samples that are left to read. -/
def samples (wav : WaveRead) : List UInt8 := rest wav.dataChunk

/-- `readframes` takes the bytes of so many frames off the samples. -/
theorem readframes_eq (wav : WaveRead) (nframes : Nat) :
    (wav.readframes nframes).1 = wav.samples.take (nframes * wav.format.framesize) ∧
      (wav.readframes nframes).2.samples = wav.samples.drop (nframes * wav.format.framesize) ∧
      (wav.readframes nframes).2.format = wav.format :=
  ⟨fst_read wav.dataChunk _, rest_read wav.dataChunk _, rfl⟩

/-! ### The loop over the chunks -/

/-- Whatever a read keeps, `_read_fmt_chunk` keeps. -/
theorem readFmtChunk_induction {φ : Type} [ByteSource φ] {P : φ → Prop}
    (hread : ∀ c n, P c → P (read c n).2) {chunk chunk' : φ} {format : WaveFormat}
    (hchunk : P chunk)
    (h : readFmtChunk chunk = some (format, chunk')) : P chunk' := by
  have hextension {c c' : φ} (hc : P c) (h : readExtension c = some c') : P c' := by
    unfold readExtension at h
    simp only [] at h
    split at h
    · cases h
    · split at h
      · cases h
        exact hread _ _ (hread _ _ hc)
      · cases h
  unfold readFmtChunk at h
  simp only [Option.bind_eq_bind, Option.bind_eq_some_iff] at h
  obtain ⟨-, -, formatTag, -, nchannels, -, framerate, -, -, -, bits, -, chunk₂, hchunk₂, h⟩ := h
  have hhead := hread _ 2 (hread chunk 14 hchunk)
  have hbits : P chunk₂ := by
    split at hchunk₂
    · exact hextension hhead hchunk₂
    · cases hchunk₂
      exact hhead
  split at h
  · cases h
    exact hbits
  · cases h

/-- More turns than there are bytes left make no difference. -/
theorem findData_add {n : Nat} {format : Option WaveFormat} {file : RiffChunk File} (m : Nat)
    (h : file.chunksize ≤ file.sizeRead + n) :
    findData (n + m) format file = findData n format file := by
  induction n generalizing format file with
  | zero =>
    cases m with
    | zero => rfl
    | succ m => simp [findData, RiffChunk.start_of_le h]
  | succ n ih =>
    rw [Nat.add_right_comm, findData, findData]
    cases hstart : RiffChunk.start file with
    | none => rfl
    | some chunk =>
      obtain ⟨hchunksize, hsizeRead⟩ := RiffChunk.later_start hstart
      -- whatever happens to the chunk, the file is eight bytes further
      have hnext {format : Option WaveFormat} {c c' : RiffChunk (RiffChunk File)}
          (hc : chunk.file.Later c.file) (hskip : c.skip = some c') :
          findData (n + m) format c'.file = findData n format c'.file := by
        have hlater := hc.trans (RiffChunk.later_skip hskip)
        apply ih
        rw [hlater.1, hchunksize]
        have := hlater.2
        omega
      simp only []
      split
      · cases hfmt : readFmtChunk chunk with
        | none => rfl
        | some p =>
          have hc : chunk.file.Later p.2.file :=
            readFmtChunk_induction (P := fun c ↦ chunk.file.Later c.file)
              (fun c n hc ↦ hc.trans (RiffChunk.later_readBytes_file c n)) RiffChunk.Later.rfl hfmt
          cases hskip : p.2.skip with
          | none => simp [hskip]
          | some c => simp [hskip, hnext hc hskip]
      · split
        · rfl
        · cases hskip : chunk.skip with
          | none => rfl
          | some c => simp [hnext RiffChunk.Later.rfl hskip]

/-! ### The header that `Wave_write` writes -/

/-- The sixteen bytes of a `fmt ` chunk. -/
def fmtBytes (format : WaveFormat) : List UInt8 :=
  LittleEndian.bytes 2 formatPCM ++ (LittleEndian.bytes 2 format.nchannels ++
    (LittleEndian.bytes 4 format.framerate ++
      (LittleEndian.bytes 4 (format.nchannels * format.framerate * format.sampwidth) ++
        (LittleEndian.bytes 2 (format.nchannels * format.sampwidth) ++
          LittleEndian.bytes 2 (format.sampwidth * 8)))))

/-- The two chunks of a file with these samples. -/
def chunkBytes (format : WaveFormat) (data : List UInt8) : List UInt8 :=
  asciiBytes "fmt " ++ (LittleEndian.bytes 4 16 ++ (fmtBytes format ++
    (asciiBytes "data" ++ (LittleEndian.bytes 4 data.length ++ data))))

/-- A file with these samples. -/
def fileBytes (format : WaveFormat) (data : List UInt8) : List UInt8 :=
  asciiBytes "RIFF" ++ (LittleEndian.bytes 4 (36 + data.length) ++
    (asciiBytes "WAVE" ++ chunkBytes format data))

/-- Every number in the header fits into its field. -/
structure Fits (format : WaveFormat) (size : Nat) : Prop where
  nchannels : format.nchannels < 256 ^ 2
  framerate : format.framerate < 256 ^ 4
  byterate : format.nchannels * format.framerate * format.sampwidth < 256 ^ 4
  framesize : format.nchannels * format.sampwidth < 256 ^ 2
  sampwidth : format.sampwidth * 8 < 256 ^ 2
  size : 36 + size < 256 ^ 4

/-- The body of the `fmt ` chunk takes 16 bytes. -/
@[simp] theorem length_fmtBytes (format : WaveFormat) : (fmtBytes format).length = 16 := by
  simp [fmtBytes]

private theorem length_chunkBytes (format : WaveFormat) (data : List UInt8) :
    (chunkBytes format data).length = 32 + data.length := by
  simp [chunkBytes, asciiBytes]
  omega

/-- The `fmt ` chunk is read back. -/
theorem readFmtChunk_fmtBytes {φ : Type} [ByteSource φ] [LawfulByteSource φ] {chunk : φ}
    {format : WaveFormat} {n : Nat} (hfits : Fits format n) (h : rest chunk = fmtBytes format) :
    readFmtChunk chunk = some (format, (read (read chunk 14).2 2).2) := by
  have hhead : (read chunk 14).1 = (fmtBytes format).take 14 := by rw [fst_read, h]
  have hlen : (read chunk 14).1.length = 14 := by simp [hhead]
  have htag : LittleEndian.unpack 2 (read chunk 14).1 = some formatPCM := by
    rw [hhead]
    exact LittleEndian.unpack_bytes (by decide) _
  have hchannels : LittleEndian.unpack 2 ((read chunk 14).1.drop 2) = some format.nchannels := by
    rw [hhead]
    exact LittleEndian.unpack_bytes hfits.nchannels _
  have hrate : LittleEndian.unpack 4 ((read chunk 14).1.drop 4) = some format.framerate := by
    rw [hhead]
    exact LittleEndian.unpack_bytes hfits.framerate _
  have hbits : LittleEndian.unpack 2 (read (read chunk 14).2 2).1 =
      some (format.sampwidth * 8) := by
    rw [fst_read, rest_read, h]
    exact LittleEndian.unpack_bytes hfits.sampwidth []
  have hwidth : (format.sampwidth * 8 + 7) / 8 = format.sampwidth := by omega
  have hpos : 1 ≤ format.sampwidth * 8 := Nat.mul_pos format.sampwidth_pos (by decide)
  simp [readFmtChunk, hlen, htag, hchannels, hrate, hbits, hwidth, hpos, formatPCM,
    formatExtensible, format.nchannels_pos]

private theorem rest_chunk {φ : Type} [ByteSource φ] [LawfulByteSource φ] {c : RiffChunk φ}
    {bs more : List UInt8} (hread : c.sizeRead = 0) (hsize : c.chunksize = bs.length)
    (h : rest c.file = bs ++ more) : rest c = bs := by
  rw [RiffChunk.rest_eq, hread, Nat.sub_zero, hsize, h, List.take_left]

/-- The samples of a file are found. -/
theorem findData_fileBytes {format : WaveFormat} {data : List UInt8} {file : RiffChunk File}
    {n : Nat}
    (hfits : Fits format data.length) (haligned : file.Aligned)
    (h : rest file = chunkBytes format data) :
    ∃ w, findData (n + 2) none file = some w ∧ w.format = format ∧ w.samples = data := by
  obtain ⟨fmt, hfmt, hname, hsize, hread, hfile, -, hrest⟩ :=
    RiffChunk.start_of_rest (by decide) (by decide) h
  have hfmtAligned : fmt.file.Aligned := by
    rw [hfile]
    exact (haligned.readBytes 4).readBytes 4
  have hbytes : rest fmt = fmtBytes format := rest_chunk hread (by simp [hsize]) hrest
  -- the sixteen bytes are read in two steps, and then there is nothing to skip
  obtain ⟨hread14, hrest14⟩ := RiffChunk.readBytes_of_even (n := 14) (c := fmt) (by rw [hsize])
    (by simp [hbytes])
  have hleft : rest (fmt.readBytes 14).2 = (fmtBytes format).drop 14 := by
    rw [← hbytes]
    exact rest_read fmt 14
  obtain ⟨hread16, hrest16⟩ := RiffChunk.readBytes_of_even (n := 2) (c := (fmt.readBytes 14).2)
    (by rw [RiffChunk.chunksize_readBytes, hsize]) (by simp [hleft])
  rw [hread14, hread] at hread16
  rw [hrest14, List.drop_drop, hrest, List.drop_left' (length_fmtBytes format)] at hrest16
  have hlt := RiffChunk.lt_chunksize_of_rest (c := ((fmt.readBytes 14).2.readBytes 2).2.file)
    (by simp [hrest16, asciiBytes])
  obtain ⟨fmt', hskip, -, -, hrest'⟩ := RiffChunk.skip_of_rest (n := 0)
    (RiffChunk.Aligned.readBytes_file (RiffChunk.Aligned.readBytes_file hfmtAligned 14) 2)
    (by simp [hread16, hsize]) hlt.le
  rw [List.drop_zero, hrest16] at hrest'
  obtain ⟨chunk, hchunk, hname', hsize', hread', -, -, hdata⟩ :=
    RiffChunk.start_of_rest (by decide) (by have := hfits.size; omega) hrest'
  refine ⟨⟨format, chunk⟩, ?_, rfl, ?_⟩
  · rw [findData, hfmt]
    simp only [hname, ↓reduceIte, readFmtChunk_fmtBytes hfits hbytes, Option.bind_eq_bind,
      Option.bind_some]
    change (((fmt.readBytes 14).2.readBytes 2).2.skip.bind _) = _
    rw [hskip, Option.bind_some, findData, hchunk]
    simp [hname', show asciiBytes "data" ≠ asciiBytes "fmt " by decide]
  · exact rest_chunk hread' hsize' (hdata.trans (List.append_nil data).symm)

/-- A file with these samples is read back. -/
theorem init_fileBytes {format : WaveFormat} {data : List UInt8}
    (hfits : Fits format data.length) :
    ∃ w, init (fileBytes format data) = some w ∧ w.format = format ∧ w.samples = data := by
  have hrest : rest (⟨fileBytes format data, 0⟩ : File) = fileBytes format data := rfl
  obtain ⟨file, hfile, hname, hsize, hread, -, hoffset, hmore⟩ :=
    RiffChunk.start_of_rest (by decide) hfits.size hrest
  have haligned : file.Aligned := by
    rw [RiffChunk.Aligned, hread, hoffset]
    rfl
  have hlen : (asciiBytes "WAVE" ++ chunkBytes format data).length = 36 + data.length := by
    rw [List.length_append, length_chunkBytes, ← Nat.add_assoc]
    rfl
  have hchunks : rest file = asciiBytes "WAVE" ++ chunkBytes format data :=
    rest_chunk hread (hsize.trans hlen.symm) (hmore.trans (List.append_nil _).symm)
  have hform : (read file 4).1 = asciiBytes "WAVE" := by
    rw [fst_read, hchunks, List.take_left' (by decide)]
  have hleft : rest (read file 4).2 = chunkBytes format data := by
    rw [rest_read, hchunks, List.drop_left' (by decide)]
  obtain ⟨w, hw, hformat, hsamples⟩ :=
    findData_fileBytes (n := 34 + data.length) hfits (haligned.readBytes 4) hleft
  refine ⟨w, ?_, hformat, hsamples⟩
  have hcount : (read file 4).2.chunksize = 34 + data.length + 2 := by
    change (file.readBytes 4).2.chunksize = _
    rw [RiffChunk.chunksize_readBytes, hsize]
    omega
  rw [init, hfile]
  simp only [Option.bind_eq_bind, Option.bind_some, hname, hform, ne_eq, not_true, ↓reduceIte,
    hcount]
  exact hw

end WaveRead
