import BibiCore.Base.WaveWrite

/-!
# Encoding speech as a wave file

`WavEncoder` of `src/tts/output/wav_encoder.py`, with which `/tts` makes one file of the chunks that
an engine yields.
-/

namespace BibiCore.Tts

open WaveRead (Fits fileBytes)

/-- `AudioChunk`, `tts/engines/models.py`. -/
structure AudioChunk where
  data : List UInt8
  sampleRate : Int
  channels : Int
  sampleWidth : Int
  deriving DecidableEq

/-- All of the audio. -/
def audio (chunks : List AudioChunk) : List UInt8 := (chunks.map (·.data)).flatten

/-- What can leave `encode`. -/
inductive EncodeError (ε : Type) where
  /-- `ValueError` -/
  | value (message : String)
  /-- `wave.Error` or `struct.error` -/
  | wave
  /-- raised by the engine -/
  | stream (e : ε)
  deriving DecidableEq

/-- The body of the `with` of `encode`, as far as the engine yields chunks. -/
def writeChunks (first : AudioChunk) (chunks : List AudioChunk) : Option WaveWrite := do
  let wav ← WaveWrite.start.setnchannels first.channels
  let wav ← wav.setsampwidth first.sampleWidth
  let wav ← wav.setframerate first.sampleRate
  let wav ← wav.writeframes first.data
  (chunks.map (·.data)).foldlM WaveWrite.writeframes wav

/-- `WavEncoder.encode` of an engine that yields the chunks and then returns or raises. -/
def encode {ε : Type} (chunks : List AudioChunk) (ending : Option ε) :
    Except (EncodeError ε) (List UInt8) :=
  match chunks, ending with
  | [], some e => .error (.stream e)
  | [], none => .error (.value "Synthesis produced no audio")
  | first :: chunks, ending =>
    match writeChunks first chunks, ending with
    | none, _ => .error .wave
    | some _, some e => .error (.stream e)
    | some wav, none =>
      match wav.close with
      | none => .error .wave
      | some wav => .ok wav.file.bytes

/-- A format that `Wave_write` accepts. -/
structure Encodable (chunk : AudioChunk) : Prop where
  channels : 1 ≤ chunk.channels
  sampleWidth : 1 ≤ chunk.sampleWidth ∧ chunk.sampleWidth ≤ 4
  sampleRate : 0 < chunk.sampleRate

instance (chunk : AudioChunk) : Decidable (Encodable chunk) :=
  decidable_of_iff (1 ≤ chunk.channels ∧ (1 ≤ chunk.sampleWidth ∧ chunk.sampleWidth ≤ 4) ∧
    0 < chunk.sampleRate) ⟨fun ⟨h₁, h₂, h₃⟩ ↦ ⟨h₁, h₂, h₃⟩, fun h ↦ ⟨h.1, h.2, h.3⟩⟩

/-- The format of the file. -/
def Encodable.format {chunk : AudioChunk} (h : Encodable chunk) : WaveFormat where
  nchannels := chunk.channels.toNat
  framerate := chunk.sampleRate.toNat
  sampwidth := chunk.sampleWidth.toNat
  nchannels_pos := by have := h.channels; omega
  sampwidth_pos := by have := h.sampleWidth; omega

/-- The chunks are written if and only if the first one's format can be, and the sizes fit. -/
theorem writeChunks_eq_some {first : AudioChunk} {chunks : List AudioChunk} {wav : WaveWrite} :
    writeChunks first chunks = some wav ↔
      ∃ h : Encodable first, Fits h.format (audio (first :: chunks)).length ∧
        wav = .written h.format (audio (first :: chunks)).length (audio (first :: chunks)) := by
  simp only [writeChunks, Option.bind_eq_bind, Option.bind_eq_some_iff]
  have haudio : audio (first :: chunks) = first.data ++ (chunks.map (·.data)).flatten := rfl
  constructor
  · rintro ⟨w₁, h₁, w₂, h₂, w₃, h₃, w₄, h₄, h₅⟩
    obtain ⟨hchannels, rfl⟩ := (WaveWrite.setnchannels_eq_some rfl).mp h₁
    obtain ⟨hwidth, rfl⟩ := (WaveWrite.setsampwidth_eq_some rfl).mp h₂
    obtain ⟨hrate, rfl⟩ := (WaveWrite.setframerate_eq_some rfl).mp h₃
    have hfirst : Encodable first := ⟨hchannels, hwidth, hrate⟩
    obtain ⟨hfits, rfl⟩ := (WaveWrite.writeframes_configured hfirst.format
      (by simp only [Encodable.format]; omega)).mp h₄
    exact ⟨hfirst, (WaveWrite.foldlM_writeframes hfits).mp h₅⟩
  · rintro ⟨hfirst, hfits, rfl⟩
    have hfits' : Fits hfirst.format first.data.length :=
      WaveWrite.fits_of_le hfits (by rw [haudio, List.length_append]; exact Nat.le_add_right _ _)
    exact ⟨_, (WaveWrite.setnchannels_eq_some rfl).mpr ⟨hfirst.channels, rfl⟩,
      _, (WaveWrite.setsampwidth_eq_some rfl).mpr ⟨hfirst.sampleWidth, rfl⟩,
      _, (WaveWrite.setframerate_eq_some rfl).mpr ⟨hfirst.sampleRate, rfl⟩,
      _, (WaveWrite.writeframes_configured hfirst.format
        (by have := hfirst.sampleRate; simp only [Encodable.format]; omega)).mpr ⟨hfits', rfl⟩,
      (WaveWrite.foldlM_writeframes hfits').mpr ⟨hfits, rfl⟩⟩

/-- A file is made if and only if there is a first chunk, the engine does not raise and the header
can say how much there is; it holds the audio, in the first chunk's format. -/
theorem encode_eq_ok {ε : Type} {chunks : List AudioChunk} {ending : Option ε}
    {bytes : List UInt8} :
    encode chunks ending = .ok bytes ↔ ending = none ∧ ∃ first ∈ chunks.head?,
      ∃ h : Encodable first, Fits h.format (audio chunks).length ∧
        bytes = fileBytes h.format (audio chunks) := by
  cases chunks with
  | nil => cases ending <;> simp [encode]
  | cons first chunks =>
    simp only [List.head?_cons, Option.mem_some_iff, exists_eq_left']
    cases hwritten : writeChunks first chunks with
    | none =>
      have hnot (h : Encodable first) : ¬ Fits h.format (audio (first :: chunks)).length := by
        intro hfits
        simp [writeChunks_eq_some.mpr ⟨h, hfits, rfl⟩] at hwritten
      simp only [encode, hwritten, reduceCtorEq, false_iff]
      rintro ⟨-, h, hfits, -⟩
      exact hnot h hfits
    | some wav =>
      obtain ⟨h, hfits, rfl⟩ := writeChunks_eq_some.mp hwritten
      cases ending with
      | some e => simp [encode, hwritten]
      | none =>
        have hbytes : (WaveWrite.written h.format (audio (first :: chunks)).length
            (audio (first :: chunks))).file.bytes = fileBytes h.format (audio (first :: chunks)) :=
          WaveWrite.sizedBytes_length h.format _
        simp only [encode, hwritten, WaveWrite.close_written, hbytes, Except.ok.injEq, true_and]
        exact ⟨fun heq ↦ ⟨h, hfits, heq.symm⟩, fun ⟨_, _, heq⟩ ↦ heq.symm⟩

end BibiCore.Tts
