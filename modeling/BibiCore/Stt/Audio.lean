import Mathlib.Data.Rat.Defs
import Mathlib.Algebra.GroupWithZero.Nat
import Mathlib.Algebra.Order.Ring.Rat

/-!
# Audio chunks and their conversion

`stt/engines/models.py`, `stt/exceptions.py` and `stt/utils/audio.py`. An int16 array is a list
of 16-bit vectors. The linear interpolation inside `_resample` runs in floating point in numpy
and is a parameter; a duration is the exact quotient.
-/

namespace BibiCore.Stt

/-- An exception the service can see: its own two, `stt/exceptions.py`, and any other. -/
inductive STTError where
  | modelNotFound (model : String)
  | invalidAudioFormat (message : String)
  | other (message : String)
  deriving DecidableEq

/-- The `code` that `StreamTranscribe` reports for the exception. -/
def STTError.code : STTError → String
  | .modelNotFound _ => "model_not_found"
  | .invalidAudioFormat _ => "invalid_audio_format"
  | .other _ => "internal_error"

/-- `str(e)`. -/
def STTError.message : STTError → String
  | .modelNotFound model => s!"Unknown model '{model}'"
  | .invalidAudioFormat message => message
  | .other message => message

/-- `AudioFormatSpec`, `stt/engines/models.py:13`. -/
structure AudioFormatSpec where
  sampleRate : Int
  channels : Int
  sampleWidth : Int
  deriving DecidableEq

/-- `AudioChunk`, `stt/engines/models.py:5`. -/
structure AudioChunk where
  data : List UInt8
  sampleRate : Int
  channels : Int
  sampleWidth : Int
  deriving DecidableEq

/-- The three format fields of a chunk. -/
def AudioChunk.format (chunk : AudioChunk) : AudioFormatSpec :=
  ⟨chunk.sampleRate, chunk.channels, chunk.sampleWidth⟩

/-- `total_bytes` of `calculate_duration`. -/
def totalBytes (chunks : List AudioChunk) : Nat := (chunks.map (·.data.length)).sum

/-- No chunks have no bytes. -/
@[simp] theorem totalBytes_nil : totalBytes [] = 0 := rfl

/-- The bytes of two lists of chunks add up. -/
@[simp] theorem totalBytes_append (chunks chunks' : List AudioChunk) :
    totalBytes (chunks ++ chunks') = totalBytes chunks + totalBytes chunks' := by
  simp [totalBytes]

/-- The bytes of one chunk. -/
@[simp] theorem totalBytes_singleton (chunk : AudioChunk) :
    totalBytes [chunk] = chunk.data.length := by
  simp [totalBytes]

/-- The buffer of all chunks has the total size. -/
theorem length_flatMap_data (chunks : List AudioChunk) :
    (chunks.flatMap (·.data)).length = totalBytes chunks :=
  List.length_flatMap

/-- `bytes_per_second` of `calculate_duration`, read off one chunk. -/
def AudioChunk.bytesPerSecond (chunk : AudioChunk) : Int :=
  chunk.sampleRate * chunk.channels * chunk.sampleWidth

/-- `calculate_duration`, `stt/utils/audio.py:9`. -/
def calculateDuration (chunks : List AudioChunk) : Except STTError ℚ :=
  match chunks with
  | [] => .ok 0
  | first :: _ =>
    if first.bytesPerSecond = 0 then .error (.other "division by zero")
    else .ok ((totalBytes chunks : ℚ) / (first.bytesPerSecond : ℚ))

abbrev Sample := BitVec 16

/-- Little-endian int16 samples; a last odd byte is no sample. -/
def int16sOfBytes : List UInt8 → List Sample
  | lo :: hi :: rest => (hi.toBitVec ++ lo.toBitVec) :: int16sOfBytes rest
  | _ => []

/-- Little-endian int32 samples. -/
def int32sOfBytes : List UInt8 → List (BitVec 32)
  | b₀ :: b₁ :: b₂ :: b₃ :: rest =>
    (b₃.toBitVec ++ b₂.toBitVec ++ b₁.toBitVec ++ b₀.toBitVec) :: int32sOfBytes rest
  | _ => []

/-- `np.frombuffer` for elements of `itemsize` bytes. -/
def frombuffer {α : Type} (itemsize : Nat) (elements : List UInt8 → List α)
    (data : List UInt8) : Except STTError (List α) :=
  if data.length % itemsize = 0 then .ok (elements data)
  else .error (.other "buffer size must be a multiple of element size")

/-- `_to_int16`, `stt/utils/audio.py:64`. -/
def toInt16 (data : List UInt8) (sampleWidth : Int) : Except STTError (List Sample) :=
  if sampleWidth = 2 then frombuffer 2 int16sOfBytes data
  else if sampleWidth = 1 then .ok (data.map fun u ↦ (u.toBitVec.setWidth 16 - 128) * 256)
  else if sampleWidth = 4 then
    (frombuffer 4 int32sOfBytes data).map (·.map fun s ↦ (s.sshiftRight 16).setWidth 16)
  else .error (.invalidAudioFormat s!"Unsupported sample width: {sampleWidth} bytes")

/-- The little-endian bytes of an element of `k` bytes. -/
def bytesOf {w : Nat} (k : Nat) (s : BitVec w) : List UInt8 :=
  (List.range k).map fun i ↦ UInt8.ofBitVec (s.extractLsb' (8 * i) 8)

/-- `_from_int16`, `stt/utils/audio.py:76`. -/
def fromInt16 (samples : List Sample) (sampleWidth : Int) : Except STTError (List UInt8) :=
  if sampleWidth = 2 then .ok (samples.flatMap (bytesOf 2))
  else if sampleWidth = 1 then
    .ok (samples.map fun s ↦ UInt8.ofNat (min 255 (max 0 (s.toInt / 256 + 128))).toNat)
  else if sampleWidth = 4 then
    .ok (samples.flatMap fun s ↦ bytesOf 4 ((s.signExtend 32).shiftLeft 16))
  else .error (.invalidAudioFormat s!"Unsupported sample width: {sampleWidth} bytes")

/-- The first `n` rows of `channels` samples each. -/
def rows (channels : Nat) : Nat → List Sample → List (List Sample)
  | 0, _ => []
  | n + 1, samples => samples.take channels :: rows channels n (samples.drop channels)

/-- `samples.reshape(-1, channels)`. -/
def reshape (samples : List Sample) (channels : Int) : Except STTError (List (List Sample)) :=
  if channels < 0 then .error (.other "can only specify one unknown dimension")
  else if channels = 0 ∨ samples.length % channels.toNat ≠ 0 then
    .error (.other s!"cannot reshape array of size {samples.length} into shape ({channels})")
  else .ok (rows channels.toNat (samples.length / channels.toNat) samples)

/-- `mean(axis=1).astype(np.int16)` of one row: the cast truncates toward zero. -/
def mean (row : List Sample) : Sample :=
  BitVec.ofInt 16 ((row.map BitVec.toInt).sum.tdiv row.length)

/-- The interpolation of `_resample`, from the samples and the two rates. -/
abbrev Interpolation := List Sample → Int → Int → List Sample

/-- `_resample`, `stt/utils/audio.py:87`. -/
def resample (interp : Interpolation) (samples : List Sample) (fromRate toRate : Int) :
    Except STTError (List Sample) :=
  if fromRate = toRate ∨ samples.length = 0 then .ok samples
  else if fromRate = 0 then .error (.other "division by zero")
  else .ok (interp samples fromRate toRate)

/-- `_convert_chunk`, `stt/utils/audio.py:35`. -/
def convertChunk (interp : Interpolation) (target : AudioFormatSpec) (chunk : AudioChunk) :
    Except STTError AudioChunk :=
  if chunk.sampleRate = target.sampleRate ∧ chunk.channels = target.channels ∧
      chunk.sampleWidth = target.sampleWidth then .ok chunk
  else do
    let samples ← toInt16 chunk.data chunk.sampleWidth
    let samples ←
      if chunk.channels = target.channels then .ok samples
      else if target.channels ≠ 1 then
        .error (.invalidAudioFormat
          s!"Cannot convert {chunk.channels}-channel audio to {target.channels} channels")
      else (reshape samples chunk.channels).map (·.map mean)
    let samples ←
      if chunk.sampleRate = target.sampleRate then .ok samples
      else resample interp samples chunk.sampleRate target.sampleRate
    let data ← fromInt16 samples target.sampleWidth
    return ⟨data, target.sampleRate, target.channels, target.sampleWidth⟩

/-- `convert_chunks`, `stt/utils/audio.py:19`, consumed to its end. -/
def convertChunks (interp : Interpolation) (target : Option AudioFormatSpec)
    (chunks : List AudioChunk) : Except STTError (List AudioChunk) :=
  match target with
  | none => .ok chunks
  | some target => chunks.mapM (convertChunk interp target)

/-- Bytes that do not begin with a sample are fewer than two. -/
theorem length_lt_two {bytes : List UInt8}
    (h : ∀ lo hi rest, bytes = lo :: hi :: rest → False) : bytes.length < 2 := by
  cases bytes with
  | nil => decide
  | cons lo bytes =>
    cases bytes with
    | nil => exact Nat.lt_succ_self 1
    | cons hi rest => exact (h lo hi rest rfl).elim

/-- Two bytes make a sample. -/
theorem length_int16sOfBytes (bytes : List UInt8) :
    (int16sOfBytes bytes).length = bytes.length / 2 := by
  induction bytes using int16sOfBytes.induct with
  | case1 lo hi rest ih =>
    simp only [int16sOfBytes, List.length_cons, ih]
    omega
  | case2 bytes h =>
    rw [int16sOfBytes.eq_2 bytes h, Nat.div_eq_of_lt (length_lt_two h)]
    rfl

/-- The samples of whole samples and what follows. -/
theorem int16sOfBytes_append {bytes : List UInt8} (heven : bytes.length % 2 = 0)
    (more : List UInt8) :
    int16sOfBytes (bytes ++ more) = int16sOfBytes bytes ++ int16sOfBytes more := by
  induction bytes using int16sOfBytes.induct with
  | case1 lo hi rest ih =>
    have hrest : rest.length % 2 = 0 := by
      simp only [List.length_cons] at heven
      omega
    simp only [List.cons_append, int16sOfBytes, ih hrest]
  | case2 bytes h =>
    have hlt := length_lt_two h
    obtain rfl : bytes = [] := List.length_eq_zero_iff.mp (by omega)
    rfl

/-- A chunk already in the target format passes as it is. -/
theorem convertChunk_of_format {interp : Interpolation} {target : AudioFormatSpec}
    {chunk : AudioChunk} (h : chunk.format = target) :
    convertChunk interp target chunk = .ok chunk := by
  subst h
  simp [convertChunk, AudioChunk.format]

/-- So do chunks that all are. -/
theorem convertChunks_of_format {interp : Interpolation} {target : AudioFormatSpec}
    {chunks : List AudioChunk} (h : ∀ chunk ∈ chunks, chunk.format = target) :
    convertChunks interp (some target) chunks = .ok chunks := by
  unfold convertChunks
  induction chunks with
  | nil => rfl
  | cons chunk chunks ih =>
    obtain ⟨hc, hcs⟩ := List.forall_mem_cons.mp h
    have hrest := ih hcs
    simp only at hrest ⊢
    rw [List.mapM_cons, convertChunk_of_format hc, hrest]
    rfl

/-- The first chunk's format does not multiply to zero. -/
def Measurable (chunks : List AudioChunk) : Prop :=
  ∀ first ∈ chunks.head?, first.bytesPerSecond ≠ 0

instance (chunks : List AudioChunk) : Decidable (Measurable chunks) :=
  inferInstanceAs (Decidable (∀ first ∈ (chunks.head? : Option _), _))

private theorem measurable_nil : Measurable [] := fun _ h ↦ by cases h

/-- Only the first chunk counts. -/
theorem measurable_append {chunks chunks' : List AudioChunk} (h : chunks ≠ []) :
    Measurable (chunks ++ chunks') ↔ Measurable chunks := by
  cases chunks with
  | nil => exact absurd rfl h
  | cons first rest => rfl

/-- Such chunks have a duration. -/
theorem Measurable.calculateDuration {chunks : List AudioChunk} (h : Measurable chunks) :
    ∃ duration, calculateDuration chunks = .ok duration := by
  cases chunks with
  | nil => exact ⟨0, rfl⟩
  | cons first rest => exact ⟨_, if_neg (h first rfl)⟩

/-- All others raise. -/
theorem calculateDuration_of_not_measurable {chunks : List AudioChunk} (h : ¬ Measurable chunks) :
    calculateDuration chunks = .error (.other "division by zero") := by
  cases chunks with
  | nil => exact absurd measurable_nil h
  | cons first rest =>
    apply if_pos
    by_contra hz
    apply h
    intro c hc
    cases hc
    exact hz

end BibiCore.Stt
