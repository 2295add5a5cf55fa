import BibiCore.Base.Traverse
import BibiCore.Stt.Engine
import BibiCore.Stt.Resample

/-!
# Prepared audio

`EngineManager.prepare_audio` hands a generator to `WhisperCppEngine._convert_audio`, which takes
one converted chunk at a time and validates it. What was converted is never refused.
-/

namespace BibiCore.Stt

namespace WhisperCpp

/-- The six errors of `_validate_chunk`. -/
def formatErrors : List STTError :=
  ["All audio chunks must have the same sample rate",
    "All audio chunks must have the same channel count",
    "All audio chunks must have the same sample width",
    "Whisper requires 16000Hz audio", "Whisper requires mono audio",
    "Whisper requires 16-bit PCM"].map .invalidAudioFormat

/-- The loop of `_convert_audio` over the generator of `convert_chunks`: `first` is the format of
the first chunk, once there is one. -/
def pcmOfPrepared (interp : Interpolation) (target : AudioFormatSpec) :
    Option AudioFormatSpec → List AudioChunk → Except STTError (List UInt8)
  | _, [] => .ok []
  | first, chunk :: chunks => do
    let out ← convertChunk interp target chunk
    let first := first.getD out.format
    validateChunk out first.sampleRate first.channels first.sampleWidth
    let pcm ← pcmOfPrepared interp target (some first) chunks
    return out.data ++ pcm

/-- `_convert_audio(prepare_audio(chunks))`, `stt/engines/whispercpp_engine.py:83` over
`stt/engine_manager.py:33`. -/
def convertPrepared (interp : Interpolation) (chunks : List AudioChunk) :
    Except STTError (List ℚ) := do
  let pcm ← pcmOfPrepared interp requiredFormat none chunks
  if pcm = [] then .error (.invalidAudioFormat "Audio source produced no data")
  else pcmToFloat32 pcm

variable {interp : Interpolation} {target : AudioFormatSpec} {chunk out : AudioChunk}
  {chunks : List AudioChunk}

/-- A converted chunk has the target format. -/
theorem format_of_convertChunk (h : convertChunk interp target chunk = .ok out) :
    out.format = target := by
  unfold convertChunk at h
  split at h
  · next hformat =>
    obtain rfl := Except.ok.inj h
    rw [AudioChunk.format, hformat.1, hformat.2.1, hformat.2.2]
  · simp only [bind, Except.bind, pure, Except.pure] at h
    -- every branch raises, or builds a chunk with the target's fields
    repeat' split at h
    all_goals cases h
    all_goals rfl

/-- So do all of them. -/
theorem format_of_convertChunks {outs : List AudioChunk}
    (h : convertChunks interp (some target) chunks = .ok outs) :
    ∀ out ∈ outs, out.format = target := by
  have hformats : outs.map AudioChunk.format = chunks.map fun _ ↦ target :=
    List.map_eq_of_mapM (fun _ _ ↦ format_of_convertChunk) h
  intro out hout
  have hmem := List.mem_map_of_mem (f := AudioChunk.format) hout
  rw [hformats] at hmem
  obtain ⟨-, -, hformat⟩ := List.mem_map.mp hmem
  exact hformat.symm

/-- A chunk of the required format is valid after another one. -/
theorem validateChunk_of_first {first : Option AudioFormatSpec}
    (hfirst : ∀ format ∈ first, format = requiredFormat) (hout : out.format = requiredFormat) :
    first.getD out.format = requiredFormat ∧
      validateChunk out requiredFormat.sampleRate requiredFormat.channels
        requiredFormat.sampleWidth = .ok () := by
  constructor
  · cases first with
    | none => exact hout
    | some format => exact hfirst format rfl
  · exact validateChunk_of_format hout

/-- Validation changes nothing: the loop joins the data of the converted chunks. -/
theorem pcmOfPrepared_eq {first : Option AudioFormatSpec}
    (hfirst : ∀ format ∈ first, format = requiredFormat) :
    pcmOfPrepared interp requiredFormat first chunks =
      (convertChunks interp (some requiredFormat) chunks).map (·.flatMap (·.data)) := by
  induction chunks generalizing first with
  | nil => rfl
  | cons chunk chunks ih =>
    rw [pcmOfPrepared, convertChunks, List.mapM_cons]
    cases hout : convertChunk interp requiredFormat chunk with
    | error error => rfl
    | ok out =>
      obtain ⟨hgetD, hvalid⟩ := validateChunk_of_first hfirst (format_of_convertChunk hout)
      have hrest := @ih (some requiredFormat) (by simp)
      simp only [convertChunks] at hrest
      simp only [bind, Except.bind, hgetD, hvalid, hrest]
      cases chunks.mapM (convertChunk interp requiredFormat) <;> rfl

/-- Taking the chunks one at a time is converting them all first. -/
theorem convertPrepared_eq (model : Model) :
    convertPrepared interp chunks =
      (prepareAudio interp (engine model) chunks).bind convertAudio := by
  rw [convertPrepared, pcmOfPrepared_eq (by simp)]
  show _ = (convertChunks interp (some requiredFormat) chunks).bind convertAudio
  cases houts : convertChunks interp (some requiredFormat) chunks with
  | error error => rfl
  | ok outs =>
    exact (convertAudio_of_format (format_of_convertChunks houts)).symm

/-! ### Chunks of whole frames -/

/-- A width that is not known is refused. -/
theorem convertChunk_of_not_supported (h : ¬ Supported chunk.sampleWidth) :
    convertChunk interp requiredFormat chunk = .error (.invalidAudioFormat
      s!"Unsupported sample width: {chunk.sampleWidth} bytes") := by
  have h1 : chunk.sampleWidth ≠ 1 := fun hw ↦ h (.inl hw)
  have h2 : chunk.sampleWidth ≠ 2 := fun hw ↦ h (.inr (.inl hw))
  have h4 : chunk.sampleWidth ≠ 4 := fun hw ↦ h (.inr (.inr hw))
  simp [convertChunk, requiredFormat, toInt16, h1, h2, h4, bind, Except.bind]

/-- Resampling leaves something of something, and nothing of nothing. -/
theorem rerate_eq_nil_iff {arithmetic : Arithmetic} {fromRate toRate : Int}
    {samples : List Sample} :
    rerate arithmetic.interpolation fromRate toRate samples = [] ↔ samples = [] := by
  unfold rerate
  split
  · rfl
  · next h =>
    have hne : samples ≠ [] := fun hnil ↦ h (.inr (by rw [hnil]; rfl))
    simp only [hne, iff_false, Arithmetic.interpolation]
    intro hnil
    have hlen := congrArg List.length hnil
    simp only [List.length_map, List.length_range, List.length_nil] at hlen
    omega

private theorem eq_nil_iff_of_length {α β : Type} {a : List α} {b : List β} {k : Int} (hk : k ≠ 0)
    (h : (a.length : Int) * k = b.length) : a = [] ↔ b = [] := by
  rw [← List.length_eq_zero_iff, ← List.length_eq_zero_iff]
  constructor
  · intro ha
    rw [ha] at h
    simpa using h.symm
  · intro hb
    rw [hb] at h
    exact_mod_cast (Int.mul_eq_zero.mp h).resolve_right hk

/-- A chunk of whole frames is converted to whole samples, and to none only if it is empty. -/
theorem convertChunk_required {arithmetic : Arithmetic} (hwidth : Supported chunk.sampleWidth)
    (hrate : 0 < chunk.sampleRate) (hchannels : 0 < chunk.channels) (haligned : chunk.Aligned) :
    ∃ out, convertChunk arithmetic.interpolation requiredFormat chunk = .ok out ∧
      out.data.length % 2 = 0 ∧ (out.data = [] ↔ chunk.data = []) := by
  rw [convertChunk_of_aligned rfl (by decide) hwidth (.inr hrate) hchannels haligned]
  refine ⟨_, rfl, ?_⟩
  obtain ⟨hd, hsamples⟩ := dvd_samples hwidth haligned
  split
  · next h =>
    have hw : chunk.sampleWidth = 2 := congrArg AudioFormatSpec.sampleWidth h
    rw [hw] at hd
    exact ⟨by omega, Iff.rfl⟩
  · have hlen : ((recode arithmetic.interpolation requiredFormat chunk).length : Int) = _ * 2 :=
      length_encodeSamples (by decide : Supported 2) _
    have hwne : chunk.sampleWidth ≠ 0 := by
      rcases hwidth with hw | hw | hw <;> omega
    refine ⟨by simp only; omega, ?_⟩
    rw [← eq_nil_iff_of_length (by decide) hlen.symm, rerate_eq_nil_iff,
      eq_nil_iff_of_length hchannels.ne' (length_downmix hchannels hsamples),
      eq_nil_iff_of_length hwne (length_decodeSamples hwidth hd)]

/-- If some width is not known, the conversion says so. -/
theorem convertChunks_of_not_supported {arithmetic : Arithmetic}
    (hchunks : ∀ chunk ∈ chunks, 0 < chunk.sampleRate ∧ 0 < chunk.channels ∧ chunk.Aligned)
    (h : ∃ chunk ∈ chunks, ¬ Supported chunk.sampleWidth) :
    ∃ width : Int, convertChunks arithmetic.interpolation (some requiredFormat) chunks =
      .error (.invalidAudioFormat s!"Unsupported sample width: {width} bytes") := by
  cases hresult : chunks.mapM (convertChunk arithmetic.interpolation requiredFormat) with
  | ok outs =>
    obtain ⟨chunk, hchunk, hwidth⟩ := h
    obtain ⟨out, hout⟩ := List.exists_mapM_eq_ok_iff.mp ⟨outs, hresult⟩ chunk hchunk
    rw [convertChunk_of_not_supported hwidth] at hout
    cases hout
  | error error =>
    obtain ⟨chunk, hchunk, herror⟩ := List.exists_of_mapM_eq_error hresult
    by_cases hwidth : Supported chunk.sampleWidth
    · obtain ⟨hrate, hchannels, haligned⟩ := hchunks chunk hchunk
      obtain ⟨out, hout, -⟩ :=
        @convertChunk_required chunk arithmetic hwidth hrate hchannels haligned
      rw [hout] at herror
      cases herror
    · rw [convertChunk_of_not_supported hwidth] at herror
      obtain rfl := Except.error.inj herror
      exact ⟨chunk.sampleWidth, hresult⟩

/-- If all widths are known, all chunks are converted. -/
theorem convertChunks_of_supported {arithmetic : Arithmetic}
    (hchunks : ∀ chunk ∈ chunks, 0 < chunk.sampleRate ∧ 0 < chunk.channels ∧ chunk.Aligned)
    (h : ∀ chunk ∈ chunks, Supported chunk.sampleWidth) :
    ∃ outs, convertChunks arithmetic.interpolation (some requiredFormat) chunks = .ok outs ∧
      (∀ out ∈ outs, out.data.length % 2 = 0) ∧
      (outs.flatMap (·.data) = [] ↔ ∀ chunk ∈ chunks, chunk.data = []) := by
  induction chunks with
  | nil => exact ⟨[], rfl, by simp⟩
  | cons chunk chunks ih =>
    obtain ⟨⟨hrate, hchannels, haligned⟩, hrest⟩ := List.forall_mem_cons.mp hchunks
    obtain ⟨hwidth, hwidths⟩ := List.forall_mem_cons.mp h
    obtain ⟨out, hout, heven, hnil⟩ :=
      @convertChunk_required chunk arithmetic hwidth hrate hchannels haligned
    obtain ⟨outs, houts, hevens, hnils⟩ := ih hrest hwidths
    refine ⟨out :: outs, ?_, List.forall_mem_cons.mpr ⟨heven, hevens⟩, ?_⟩
    · simp only [convertChunks] at houts ⊢
      rw [List.mapM_cons, hout, houts]
      rfl
    · rw [List.flatMap_cons, List.append_eq_nil_iff, hnil, hnils, List.forall_mem_cons]

/-- Whole samples are counted chunk by chunk. -/
theorem length_flatMap_even {outs : List AudioChunk} (h : ∀ out ∈ outs, out.data.length % 2 = 0) :
    (outs.flatMap (·.data)).length = 2 * (outs.map fun out ↦ out.data.length / 2).sum := by
  induction outs with
  | nil => rfl
  | cons out outs ih =>
    obtain ⟨hout, hrest⟩ := List.forall_mem_cons.mp h
    rw [List.flatMap_cons, List.length_append, List.map_cons, List.sum_cons, ih hrest]
    omega

/-- An even number of bytes is decoded to half as many samples. -/
theorem exists_pcmToFloat32_length {pcm : List UInt8} {n : Nat} (h : pcm.length = 2 * n) :
    ∃ samples, pcmToFloat32 pcm = .ok samples ∧ samples.length = n := by
  refine ⟨_, by rw [pcmToFloat32, frombuffer, if_pos (by omega)]; rfl, ?_⟩
  rw [List.length_map, length_int16sOfBytes, h]
  omega

/-- The message about a width is none of the format errors. -/
theorem unsupported_not_mem (width : Int) :
    STTError.invalidAudioFormat s!"Unsupported sample width: {width} bytes" ∉ formatErrors := by
  have hfirst : ∀ error ∈ formatErrors, error.message.toList.head? ≠ some 'U' := by decide
  intro h
  refine hfirst _ h ?_
  change ("Unsupported sample width: " ++ toString width ++ " bytes").toList.head? = some 'U'
  simp [String.toList_append]

/-- Chunks of whole frames, of any formats, are refused exactly when a width is not known or there
is no data at all, and never for the format that they were converted to; else every converted sample
is returned. -/
theorem convertPrepared_classified (arithmetic : Arithmetic) (chunks : List AudioChunk)
    (hchunks : ∀ chunk ∈ chunks, 0 < chunk.sampleRate ∧ 0 < chunk.channels ∧ chunk.Aligned) :
    (∀ error ∈ formatErrors, convertPrepared arithmetic.interpolation chunks ≠ .error error) ∧
      ((∃ message, convertPrepared arithmetic.interpolation chunks =
          .error (.invalidAudioFormat message)) ↔
        (∃ chunk ∈ chunks, ¬ Supported chunk.sampleWidth) ∨ ∀ chunk ∈ chunks, chunk.data = []) ∧
      (¬ ((∃ chunk ∈ chunks, ¬ Supported chunk.sampleWidth) ∨ ∀ chunk ∈ chunks, chunk.data = []) →
        ∃ samples outs, convertPrepared arithmetic.interpolation chunks = .ok samples ∧
          convertChunks arithmetic.interpolation (some requiredFormat) chunks = .ok outs ∧
          samples.length = (outs.map fun out ↦ out.data.length / 2).sum) := by
  rw [convertPrepared, pcmOfPrepared_eq (by simp)]
  by_cases hwidths : ∃ chunk ∈ chunks, ¬ Supported chunk.sampleWidth
  · obtain ⟨width, herror⟩ := convertChunks_of_not_supported hchunks hwidths
    rw [herror]
    refine ⟨fun error herr h ↦ ?_, ⟨fun _ ↦ .inl hwidths, fun _ ↦ ⟨_, rfl⟩⟩,
      fun h ↦ absurd (.inl hwidths) h⟩
    cases h
    exact unsupported_not_mem width herr
  · have hsupported : ∀ chunk ∈ chunks, Supported chunk.sampleWidth := by simpa using hwidths
    obtain ⟨outs, houts, heven, hnil⟩ := convertChunks_of_supported hchunks hsupported
    rw [houts]
    simp only [Except.map, bind, Except.bind]
    by_cases hdata : ∀ chunk ∈ chunks, chunk.data = []
    · rw [if_pos (hnil.mpr hdata)]
      refine ⟨fun error herr h ↦ ?_, ⟨fun _ ↦ .inr hdata, fun _ ↦ ⟨_, rfl⟩⟩,
        fun h ↦ absurd (.inr hdata) h⟩
      cases h
      simp [formatErrors] at herr
    · obtain ⟨samples, hsamples, hlen⟩ := exists_pcmToFloat32_length (length_flatMap_even heven)
      rw [if_neg fun h ↦ hdata (hnil.mp h), hsamples]
      refine ⟨fun error _ h ↦ (nomatch h), ⟨fun ⟨_, h⟩ ↦ (nomatch h), fun h ↦ ?_⟩,
        fun _ ↦ ⟨samples, outs, rfl, rfl, hlen⟩⟩
      exact absurd h (not_or.mpr ⟨hwidths, hdata⟩)

/-- Stereo audio, an empty 8-bit chunk and 32-bit audio of a higher rate. -/
def mixed : List AudioChunk :=
  [⟨[10, 0, 20, 0], 16000, 2, 2⟩, ⟨[], 8000, 1, 1⟩, ⟨[0, 0, 3, 0, 0, 0, 4, 0], 44100, 1, 4⟩]

/-- All of them are converted. -/
theorem convertPrepared_classified_mixed :
    ∃ samples outs, convertPrepared exact.interpolation mixed = .ok samples ∧
      convertChunks exact.interpolation (some requiredFormat) mixed = .ok outs ∧
      samples.length = (outs.map fun out ↦ out.data.length / 2).sum :=
  (convertPrepared_classified exact mixed (by decide)).2.2 (by decide)

end WhisperCpp

end BibiCore.Stt
