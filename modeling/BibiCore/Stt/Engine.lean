import BibiCore.Base.Rounding
import BibiCore.Stt.Audio

/-!
# Transcription engines

`stt/engines/models.py`, `stt/engines/base.py` and `stt/engines/whispercpp_engine.py`. The
native whisper.cpp model is a parameter. A float32 sample is its exact value.
-/

namespace BibiCore.Stt

open Rounding

/-- `TranscriptSegment`, `stt/engines/models.py:22`. -/
structure TranscriptSegment where
  startMs : Int
  endMs : Int
  text : String
  score : Option FloatValue
  deriving DecidableEq

/-- `Transcript`, `stt/engines/models.py:30`. -/
structure Transcript where
  segments : List TranscriptSegment
  lang : Option String
  deriving DecidableEq

/-- `Transcript.text`, `stt/engines/models.py:35`. -/
def Transcript.text (transcript : Transcript) : String :=
  String.join (transcript.segments.map (·.text))

/-- `STTEngine`, `stt/engines/base.py:23`, as the servicer uses it: the class's required format
and the instance's `transcribe`. -/
structure STTEngine where
  requiredFormat : Option AudioFormatSpec
  transcribe : List AudioChunk → Except STTError Transcript

/-- `EngineManager.prepare_audio`, `stt/engine_manager.py:33`, for the engine's class. -/
def prepareAudio (interp : Interpolation) (engine : STTEngine) (chunks : List AudioChunk) :
    Except STTError (List AudioChunk) :=
  convertChunks interp engine.requiredFormat chunks

namespace WhisperCpp

/-- A segment of the native model, with times in centiseconds. -/
structure Segment where
  t0 : Int
  t1 : Int
  text : String
  probability : Option FloatValue
  deriving DecidableEq

/-- `Model.transcribe` of the native library, on float32 samples. -/
abbrev Model := List ℚ → Except STTError (List Segment)

/-- `_REQUIRED_FORMAT`, `stt/engines/whispercpp_engine.py:12`. -/
def requiredFormat : AudioFormatSpec := ⟨16000, 1, 2⟩

/-- `_validate_chunk`, `stt/engines/whispercpp_engine.py:114`. -/
def validateChunk (chunk : AudioChunk) (sampleRate channels sampleWidth : Int) :
    Except STTError Unit :=
  if chunk.sampleRate ≠ sampleRate then
    .error (.invalidAudioFormat "All audio chunks must have the same sample rate")
  else if chunk.channels ≠ channels then
    .error (.invalidAudioFormat "All audio chunks must have the same channel count")
  else if chunk.sampleWidth ≠ sampleWidth then
    .error (.invalidAudioFormat "All audio chunks must have the same sample width")
  else if chunk.sampleRate ≠ 16000 then
    .error (.invalidAudioFormat "Whisper requires 16000Hz audio")
  else if chunk.channels ≠ 1 then
    .error (.invalidAudioFormat "Whisper requires mono audio")
  else if chunk.sampleWidth ≠ 2 then
    .error (.invalidAudioFormat "Whisper requires 16-bit PCM")
  else .ok ()

/-- `_pcm_to_float32`, `stt/engines/whispercpp_engine.py:146`. -/
def pcmToFloat32 (pcm : List UInt8) : Except STTError (List ℚ) :=
  (frombuffer 2 int16sOfBytes pcm).map (·.map fun s ↦ (s.toInt : ℚ) / 32768)

/-- `_convert_audio`, `stt/engines/whispercpp_engine.py:83`: every chunk is validated against
the first one's format. -/
def convertAudio (source : List AudioChunk) : Except STTError (List ℚ) := do
  match source with
  | [] => pure ()
  | first :: _ =>
    source.forM fun chunk ↦
      validateChunk chunk first.sampleRate first.channels first.sampleWidth
  let pcm := source.flatMap (·.data)
  if pcm = [] then .error (.invalidAudioFormat "Audio source produced no data")
  else pcmToFloat32 pcm

/-- The `Transcript` that `transcribe` builds from the native segments. -/
def toTranscript (segments : List Segment) : Transcript :=
  ⟨segments.map fun segment ↦
    ⟨segment.t0 * 10, segment.t1 * 10, segment.text, segment.probability⟩, none⟩

/-- `WhisperCppEngine.transcribe`, `stt/engines/whispercpp_engine.py:52`. -/
def transcribe (model : Model) (source : List AudioChunk) : Except STTError Transcript := do
  let samples ← convertAudio source
  let segments ← model samples
  return toTranscript segments

/-- `WhisperCppEngine` over a loaded native model. -/
def engine (model : Model) : STTEngine := ⟨some requiredFormat, transcribe model⟩

/-- The samples go to the native model, its segments into the transcript. -/
theorem transcribe_of_samples {model : Model} {source : List AudioChunk} {samples : List ℚ}
    (h : convertAudio source = .ok samples) :
    transcribe model source = (model samples).map toTranscript := by
  rw [transcribe, h]
  cases hm : model samples <;> simp [bind, Except.bind, pure, Except.pure, Except.map, hm]

/-- A chunk in the required format passes the validation. -/
theorem validateChunk_of_format {chunk : AudioChunk} (h : chunk.format = requiredFormat) :
    validateChunk chunk 16000 1 2 = .ok () := by
  obtain ⟨hr, hc, hw⟩ : chunk.sampleRate = 16000 ∧ chunk.channels = 1 ∧ chunk.sampleWidth = 2 := by
    simpa [AudioChunk.format, requiredFormat] using h
  simp [validateChunk, hr, hc, hw]

/-- So do all chunks of a source in that format. -/
theorem forM_validateChunk_of_format {source : List AudioChunk}
    (h : ∀ chunk ∈ source, chunk.format = requiredFormat) :
    source.forM (fun chunk ↦ validateChunk chunk 16000 1 2) = .ok () := by
  induction source with
  | nil => rfl
  | cons chunk chunks ih =>
    obtain ⟨hc, hcs⟩ := List.forall_mem_cons.mp h
    rw [List.forM, validateChunk_of_format hc]
    exact ih hcs

/-- Chunks in the required format are checked for data only. -/
theorem convertAudio_of_format {source : List AudioChunk}
    (h : ∀ chunk ∈ source, chunk.format = requiredFormat) :
    convertAudio source =
      if source.flatMap (·.data) = [] then
        .error (.invalidAudioFormat "Audio source produced no data")
      else pcmToFloat32 (source.flatMap (·.data)) := by
  cases source with
  | nil => rfl
  | cons first rest =>
    obtain ⟨hr, hc, hw⟩ :
        first.sampleRate = 16000 ∧ first.channels = 1 ∧ first.sampleWidth = 2 := by
      simpa [AudioChunk.format, requiredFormat] using h first List.mem_cons_self
    simp only [convertAudio, hr, hc, hw, forM_validateChunk_of_format h]
    rfl

/-- An even number of bytes, and at least one, makes at least one sample. -/
theorem exists_pcmToFloat32 {pcm : List UInt8} (heven : pcm.length % 2 = 0) (hne : pcm ≠ []) :
    ∃ samples, pcmToFloat32 pcm = .ok samples ∧ samples ≠ [] := by
  match pcm, hne with
  | [_], _ => simp at heven
  | lo :: hi :: rest, _ =>
    refine ⟨_, by rw [pcmToFloat32, frombuffer, if_pos heven]; rfl, ?_⟩
    simp [int16sOfBytes]

end WhisperCpp

end BibiCore.Stt
