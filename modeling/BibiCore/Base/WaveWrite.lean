import BibiCore.Base.WaveRead

/-!
# Writing a wave file

`Wave_write` of Python's `wave` module, on a file in memory. The sizes in the header are written
before the samples and patched after them. `none` is an exception: `wave.Error`, or the
`struct.error` of a number that does not fit into its field.
-/

/-- `BytesIO.write`: what is there is overwritten, and a gap before it is filled with zeros. -/
def File.write (f : File) (bs : List UInt8) : File where
  bytes := (f.bytes ++ List.replicate (f.pos - f.bytes.length) 0).take f.pos ++
    (bs ++ f.bytes.drop (f.pos + bs.length))
  pos := f.pos + bs.length

private theorem File.write_end {bytes bs : List UInt8} {pos : Nat} (hpos : pos = bytes.length) :
    File.write ⟨bytes, pos⟩ bs = ⟨bytes ++ bs, pos + bs.length⟩ := by
  simp [File.write, hpos]

private theorem File.write_inside {before old after bs : List UInt8} {pos : Nat}
    (hpos : pos = before.length) (hlen : old.length = bs.length) :
    File.write ⟨before ++ (old ++ after), pos⟩ bs = ⟨before ++ (bs ++ after), pos + bs.length⟩ := by
  have hgap : pos - (before ++ (old ++ after)).length = 0 := by simp [hpos]
  unfold File.write
  rw [hgap, List.replicate_zero, List.append_nil, hpos, List.take_left, ← List.drop_drop,
    List.drop_left, List.drop_left' hlen]

open WaveRead (formatPCM fmtBytes fileBytes Fits)

/-- `Wave_write`; a parameter that is not set is zero. -/
structure WaveWrite where
  file : File
  nchannels : Nat
  sampwidth : Nat
  framerate : Nat
  headerwritten : Bool
  datawritten : Nat
  datalength : Nat
  formLengthPos : Nat
  dataLengthPos : Nat
  deriving DecidableEq

namespace WaveWrite

/-- `initfp`, on an empty file. -/
def start : WaveWrite := ⟨⟨[], 0⟩, 0, 0, 0, false, 0, 0, 0, 0⟩

/-- `setnchannels`. -/
def setnchannels (wav : WaveWrite) (nchannels : Int) : Option WaveWrite :=
  if wav.datawritten ≠ 0 then none
  else if nchannels < 1 then none else some { wav with nchannels := nchannels.toNat }

/-- `setsampwidth`. -/
def setsampwidth (wav : WaveWrite) (sampwidth : Int) : Option WaveWrite :=
  if wav.datawritten ≠ 0 then none
  else if sampwidth < 1 ∨ 4 < sampwidth then none
  else some { wav with sampwidth := sampwidth.toNat }

/-- `setframerate`. -/
def setframerate (wav : WaveWrite) (framerate : Int) : Option WaveWrite :=
  if wav.datawritten ≠ 0 then none
  else if framerate ≤ 0 then none else some { wav with framerate := framerate.toNat }

/-- The `struct.pack` of `_write_header`. -/
def packHead (wav : WaveWrite) (datalength : Nat) : Option (List UInt8) := do
  let size ← LittleEndian.pack 4 (36 + datalength)
  let fmtSize ← LittleEndian.pack 4 16
  let tag ← LittleEndian.pack 2 formatPCM
  let nchannels ← LittleEndian.pack 2 wav.nchannels
  let framerate ← LittleEndian.pack 4 wav.framerate
  let byterate ← LittleEndian.pack 4 (wav.nchannels * wav.framerate * wav.sampwidth)
  let framesize ← LittleEndian.pack 2 (wav.nchannels * wav.sampwidth)
  let bits ← LittleEndian.pack 2 (wav.sampwidth * 8)
  some (size ++ (asciiBytes "WAVE" ++ (asciiBytes "fmt " ++ (fmtSize ++ (tag ++ (nchannels ++
    (framerate ++ (byterate ++ (framesize ++ (bits ++ asciiBytes "data"))))))))))

/-- The `_datalength` that `_write_header` writes: that of whole frames. -/
def wholeFrames (wav : WaveWrite) (initlength : Nat) : Nat :=
  initlength / (wav.nchannels * wav.sampwidth) * wav.nchannels * wav.sampwidth

/-- `_write_header`. -/
def writeHeader (wav : WaveWrite) (initlength : Nat) : Option WaveWrite := do
  let file := wav.file.write (asciiBytes "RIFF")
  let head ← wav.packHead (wav.wholeFrames initlength)
  let size ← LittleEndian.pack 4 (wav.wholeFrames initlength)
  some { wav with
    file := (file.write head).write size
    headerwritten := true
    datalength := wav.wholeFrames initlength
    formLengthPos := file.pos
    dataLengthPos := (file.write head).pos }

/-- `_ensure_header_written`. -/
def ensureHeaderWritten (wav : WaveWrite) (datasize : Nat) : Option WaveWrite :=
  if wav.headerwritten then some wav
  else if wav.nchannels = 0 ∨ wav.sampwidth = 0 ∨ wav.framerate = 0 then none
  else wav.writeHeader datasize

/-- `_patchheader`. -/
def patchheader (wav : WaveWrite) : Option WaveWrite :=
  if wav.datawritten = wav.datalength then some wav
  else do
    let size ← LittleEndian.pack 4 (36 + wav.datawritten)
    let dataSize ← LittleEndian.pack 4 wav.datawritten
    let file := { wav.file with pos := wav.formLengthPos }.write size
    let file := { file with pos := wav.dataLengthPos }.write dataSize
    some { wav with
      file := { file with pos := wav.file.pos }
      datalength := wav.datawritten }

/-- `writeframesraw`. -/
def writeframesraw (wav : WaveWrite) (data : List UInt8) : Option WaveWrite := do
  let wav ← wav.ensureHeaderWritten data.length
  some { wav with
    file := wav.file.write data
    datawritten := wav.datawritten + data.length }

/-- `writeframes`. -/
def writeframes (wav : WaveWrite) (data : List UInt8) : Option WaveWrite := do
  let wav ← wav.writeframesraw data
  if wav.datalength ≠ wav.datawritten then wav.patchheader else some wav

/-- `close`. -/
def close (wav : WaveWrite) : Option WaveWrite := do
  let wav ← wav.ensureHeaderWritten 0
  if wav.datalength ≠ wav.datawritten then wav.patchheader else some wav

/-- `setnchannels`, before any frame is written, wants a channel. -/
theorem setnchannels_eq_some {wav wav' : WaveWrite} {n : Int} (h : wav.datawritten = 0) :
    wav.setnchannels n = some wav' ↔ 1 ≤ n ∧ wav' = { wav with nchannels := n.toNat } := by
  rw [setnchannels, if_neg (not_not.mpr h)]
  split
  · simp; omega
  · simp only [Option.some_inj, eq_comm, iff_and_self]; omega

/-- `setsampwidth`, before any frame is written, wants one to four bytes. -/
theorem setsampwidth_eq_some {wav wav' : WaveWrite} {n : Int} (h : wav.datawritten = 0) :
    wav.setsampwidth n = some wav' ↔
      (1 ≤ n ∧ n ≤ 4) ∧ wav' = { wav with sampwidth := n.toNat } := by
  rw [setsampwidth, if_neg (not_not.mpr h)]
  split
  · simp; omega
  · simp only [Option.some_inj, eq_comm, iff_and_self]; omega

/-- `setframerate`, before any frame is written, wants a positive rate. -/
theorem setframerate_eq_some {wav wav' : WaveWrite} {n : Int} (h : wav.datawritten = 0) :
    wav.setframerate n = some wav' ↔ 0 < n ∧ wav' = { wav with framerate := n.toNat } := by
  rw [setframerate, if_neg (not_not.mpr h)]
  split
  · simp; omega
  · simp only [Option.some_inj, eq_comm, iff_and_self]; omega

/-! ### What is in the file -/

variable {format : WaveFormat} {data more : List UInt8}

/-- The part of the header between its two sizes. -/
def midBytes (format : WaveFormat) : List UInt8 :=
  asciiBytes "WAVE" ++ (asciiBytes "fmt " ++ (LittleEndian.bytes 4 16 ++
    (fmtBytes format ++ asciiBytes "data")))

/-- A file whose header gives this size. -/
def sizedBytes (format : WaveFormat) (size : Nat) (data : List UInt8) : List UInt8 :=
  asciiBytes "RIFF" ++ (LittleEndian.bytes 4 (36 + size) ++ (midBytes format ++
    (LittleEndian.bytes 4 size ++ data)))

/-- With its true size, the file is the one `fileBytes` describes. -/
theorem sizedBytes_length (format : WaveFormat) (data : List UInt8) :
    sizedBytes format data.length data = fileBytes format data := by
  simp [sizedBytes, midBytes, fileBytes, WaveRead.chunkBytes]

/-- The header between the two sizes takes 32 bytes. -/
@[simp] theorem length_midBytes (format : WaveFormat) : (midBytes format).length = 32 := by
  simp [midBytes, asciiBytes]

/-- The header takes 44 bytes, whatever sizes it names. -/
@[simp] theorem length_sizedBytes (format : WaveFormat) (size : Nat) (data : List UInt8) :
    (sizedBytes format size data).length = 44 + data.length := by
  simp [sizedBytes, asciiBytes]
  omega

private theorem sizedBytes_append (format : WaveFormat) (size : Nat) (data more : List UInt8) :
    sizedBytes format size (data ++ more) = sizedBytes format size data ++ more := by
  simp [sizedBytes]

/-- The writer, with the header and these samples written. -/
def written (format : WaveFormat) (size : Nat) (data : List UInt8) : WaveWrite where
  file := ⟨sizedBytes format size data, 44 + data.length⟩
  nchannels := format.nchannels
  sampwidth := format.sampwidth
  framerate := format.framerate
  headerwritten := true
  datawritten := data.length
  datalength := size
  formLengthPos := 4
  dataLengthPos := 40

/-- The writer, with its parameters set and nothing written. -/
def configured (format : WaveFormat) : WaveWrite :=
  { start with
    nchannels := format.nchannels, sampwidth := format.sampwidth, framerate := format.framerate }

private theorem packHead_eq_some (format : WaveFormat) {wav : WaveWrite} {size : Nat}
    {bytes : List UInt8}
    (hchannels : wav.nchannels = format.nchannels) (hwidth : wav.sampwidth = format.sampwidth)
    (hrate : wav.framerate = format.framerate) :
    wav.packHead size = some bytes ↔
      Fits format size ∧ bytes = LittleEndian.bytes 4 (36 + size) ++ midBytes format := by
  simp only [packHead, hchannels, hwidth, hrate, Option.bind_eq_bind, Option.bind_eq_some_iff,
    LittleEndian.pack_eq_some]
  constructor
  · rintro ⟨_, ⟨hsize, rfl⟩, _, ⟨-, rfl⟩, _, ⟨-, rfl⟩, _, ⟨hchannels, rfl⟩, _, ⟨hrate, rfl⟩, _,
      ⟨hbytes, rfl⟩, _, ⟨hframe, rfl⟩, _, ⟨hbits, rfl⟩, h⟩
    refine ⟨⟨hchannels, hrate, hbytes, hframe, hbits, hsize⟩, ?_⟩
    cases h
    simp [midBytes, fmtBytes]
  · rintro ⟨hfits, rfl⟩
    refine ⟨_, ⟨hfits.size, rfl⟩, _, ⟨by decide, rfl⟩, _, ⟨by decide, rfl⟩, _,
      ⟨hfits.nchannels, rfl⟩, _, ⟨hfits.framerate, rfl⟩, _, ⟨hfits.byterate, rfl⟩, _,
      ⟨hfits.framesize, rfl⟩, _, ⟨hfits.sampwidth, rfl⟩, ?_⟩
    simp [midBytes, fmtBytes]

private theorem wholeFrames_le (wav : WaveWrite) (size : Nat) : wav.wholeFrames size ≤ size := by
  unfold wholeFrames
  rw [Nat.mul_assoc]
  exact Nat.div_mul_le_self size _

/-- With a size, every smaller one fits the header. -/
theorem fits_of_le {size size' : Nat} (h : Fits format size) (hle : size' ≤ size) :
    Fits format size' :=
  { h with size := by have := h.size; omega }

/-- The header that is written first. -/
theorem writeHeader_configured {size : Nat}
    (hfits : Fits format ((configured format).wholeFrames size)) :
    (configured format).writeHeader size =
      some (written format ((configured format).wholeFrames size) []) := by
  have hpacked : (configured format).packHead _ = some _ :=
    (packHead_eq_some format rfl rfl rfl).mpr ⟨hfits, rfl⟩
  have hsize : LittleEndian.pack 4 ((configured format).wholeFrames size) = some _ :=
    LittleEndian.pack_eq_some.mpr ⟨by have := hfits.size; omega, rfl⟩
  have hriff : (configured format).file.write (asciiBytes "RIFF") = ⟨asciiBytes "RIFF", 4⟩ := rfl
  have hhead : File.write ⟨asciiBytes "RIFF", 4⟩
      (LittleEndian.bytes 4 (36 + (configured format).wholeFrames size) ++ midBytes format) =
      ⟨asciiBytes "RIFF" ++ (LittleEndian.bytes 4 (36 + (configured format).wholeFrames size) ++
        midBytes format), 40⟩ := by
    rw [File.write_end (by rfl)]
    simp
  rw [writeHeader, hriff, hpacked, Option.bind_eq_bind, Option.bind_some, hsize, Option.bind_some,
    hhead, File.write_end (by simp [asciiBytes])]
  simp [written, sizedBytes, configured, start]

private theorem fits_of_writeHeader {size : Nat} {wav : WaveWrite}
    (h : (configured format).writeHeader size = some wav) :
    Fits format ((configured format).wholeFrames size) := by
  rw [writeHeader, Option.bind_eq_bind, Option.bind_eq_some_iff] at h
  obtain ⟨head, hhead, -⟩ := h
  exact ((packHead_eq_some format rfl rfl rfl).mp hhead).1

/-- The two writes of `_patchheader`. -/
theorem write_sizes (format : WaveFormat) (size n : Nat) (data : List UInt8) :
    File.write ⟨(File.write ⟨sizedBytes format size data, 4⟩ (LittleEndian.bytes 4 (36 + n))).bytes,
      40⟩ (LittleEndian.bytes 4 n) = ⟨sizedBytes format n data, 44⟩ := by
  rw [sizedBytes, File.write_inside (by rfl) (by simp)]
  have hassoc (bs : List UInt8) : asciiBytes "RIFF" ++ (LittleEndian.bytes 4 (36 + n) ++
      (midBytes format ++ (bs ++ data))) = asciiBytes "RIFF" ++ LittleEndian.bytes 4 (36 + n) ++
      midBytes format ++ (bs ++ data) := by simp
  simp only [hassoc]
  rw [File.write_inside (by simp [asciiBytes]) (by simp)]
  simp [sizedBytes]

/-- The sizes in the header are patched, as long as they fit. -/
theorem patchheader_eq_some {size : Nat} {wav : WaveWrite} (hfits : Fits format size) :
    (written format size data).patchheader = some wav ↔
      Fits format data.length ∧ wav = written format data.length data := by
  have hdatawritten : (written format size data).datawritten = data.length := rfl
  have hdatalength : (written format size data).datalength = size := rfl
  unfold patchheader
  rw [hdatawritten, hdatalength]
  split
  · next heq =>
    rw [Option.some_inj, heq]
    exact ⟨fun h ↦ ⟨hfits, h.symm⟩, fun h ↦ h.2.symm⟩
  · simp only [Option.bind_eq_bind, Option.bind_eq_some_iff, LittleEndian.pack_eq_some]
    have hpatched : some { written format size data with
        file := { File.write ⟨(File.write ⟨sizedBytes format size data, 4⟩
          (LittleEndian.bytes 4 (36 + data.length))).bytes, 40⟩
          (LittleEndian.bytes 4 data.length) with pos := 44 + data.length }
        datalength := data.length } = some (written format data.length data) := by
      rw [write_sizes]
      rfl
    constructor
    · rintro ⟨_, ⟨hsize, rfl⟩, _, ⟨-, rfl⟩, h⟩
      exact ⟨{ hfits with size := hsize }, Option.some_inj.mp (h.symm.trans hpatched)⟩
    · rintro ⟨hfits', rfl⟩
      exact ⟨_, ⟨hfits'.size, rfl⟩, _, ⟨by have := hfits'.size; omega, rfl⟩, hpatched⟩

/-- Whether the header needs to be patched is checked twice. -/
theorem patchheader_of_ne (wav : WaveWrite) :
    (if wav.datalength ≠ wav.datawritten then wav.patchheader else some wav) = wav.patchheader := by
  split
  · rfl
  · next h => rw [patchheader, if_pos (not_not.mp h).symm]

private theorem writeframesraw_written (format : WaveFormat) (size : Nat) (data more : List UInt8) :
    (written format size data).writeframesraw more = some (written format size (data ++ more)) := by
  have hfile : (written format size data).file.write more =
      ⟨sizedBytes format size (data ++ more), 44 + (data ++ more).length⟩ := by
    rw [written, File.write_end (length_sizedBytes format size data).symm, sizedBytes_append,
      List.length_append, Nat.add_assoc]
  rw [writeframesraw, ensureHeaderWritten, if_pos (by rfl), Option.bind_eq_bind, Option.bind_some,
    hfile]
  simp [written]

/-- Further samples are written, as long as the header can say so. -/
theorem writeframes_written {wav : WaveWrite} (hfits : Fits format data.length) :
    (written format data.length data).writeframes more = some wav ↔
      Fits format (data ++ more).length ∧
        wav = written format (data ++ more).length (data ++ more) := by
  rw [writeframes, writeframesraw_written, Option.bind_eq_bind, Option.bind_some,
    patchheader_of_ne, patchheader_eq_some hfits]

/-- So are the first ones, after the header. -/
theorem writeframes_configured (format : WaveFormat) {wav : WaveWrite}
    (hrate : format.framerate ≠ 0) :
    (configured format).writeframes data = some wav ↔
      Fits format data.length ∧ wav = written format data.length data := by
  have hensure : (configured format).ensureHeaderWritten data.length =
      (configured format).writeHeader data.length := by
    have hset : ¬ ((configured format).nchannels = 0 ∨ (configured format).sampwidth = 0 ∨
        (configured format).framerate = 0) := by
      have hchannels := format.nchannels_pos
      have hwidth := format.sampwidth_pos
      simp only [configured]
      omega
    rw [ensureHeaderWritten, if_neg (by simp [configured, start]), if_neg hset]
  by_cases hwhole : Fits format ((configured format).wholeFrames data.length)
  · have hraw := writeframesraw_written format ((configured format).wholeFrames data.length) [] data
    rw [writeframesraw, ensureHeaderWritten, if_pos (by rfl), List.nil_append] at hraw
    rw [writeframes, writeframesraw, hensure, writeHeader_configured hwhole, hraw,
      Option.bind_eq_bind, Option.bind_some, patchheader_of_ne, patchheader_eq_some hwhole]
  · have hnone : (configured format).writeHeader data.length = none :=
      Option.eq_none_iff_forall_ne_some.mpr fun _ h ↦ hwhole (fits_of_writeHeader h)
    rw [writeframes, writeframesraw, hensure, hnone]
    constructor
    · intro h
      cases h
    · intro h
      exact absurd (fits_of_le h.1 (wholeFrames_le _ _)) hwhole

/-- Nothing is left to do at the end. -/
theorem close_written (format : WaveFormat) (data : List UInt8) :
    (written format data.length data).close = some (written format data.length data) := by
  rw [close, ensureHeaderWritten, if_pos (by rfl), Option.bind_eq_bind, Option.bind_some]
  exact if_neg (not_not.mpr rfl)

/-- All samples are written, one piece after another, if and only if the header can say so. -/
theorem foldlM_writeframes {wav : WaveWrite} {pieces : List (List UInt8)}
    (hfits : Fits format data.length) :
    pieces.foldlM writeframes (written format data.length data) = some wav ↔
      Fits format (data ++ pieces.flatten).length ∧
        wav = written format (data ++ pieces.flatten).length (data ++ pieces.flatten) := by
  induction pieces generalizing data with
  | nil =>
    rw [List.foldlM_nil, List.flatten_nil, List.append_nil]
    exact ⟨fun h ↦ ⟨hfits, (Option.some_inj.mp h).symm⟩, fun h ↦ by rw [h.2]; rfl⟩
  | cons piece pieces ih =>
    rw [List.foldlM_cons, List.flatten_cons, ← List.append_assoc, Option.bind_eq_bind,
      Option.bind_eq_some_iff]
    constructor
    · rintro ⟨next, hnext, h⟩
      obtain ⟨hfits', rfl⟩ := (writeframes_written hfits).mp hnext
      exact (ih hfits').mp h
    · intro h
      have hfits' : Fits format (data ++ piece).length :=
        fits_of_le h.1 (by simp only [List.length_append]; omega)
      exact ⟨_, (writeframes_written hfits).mpr ⟨hfits', rfl⟩, (ih hfits').mpr h⟩

end WaveWrite
