import BibiCore.Stt.Prepared
import BibiCore.Stt.WavFile
import BibiCore.Tts.WavEncoder

/-!
# Uploaded files

`/transcribe` of `src/stt/api/routes.py`: a file is stored, read as chunks, converted and
transcribed. Among the files are those that `/tts` makes.
-/

namespace BibiCore.Stt

open WaveRead (Fits)

variable {ε : Type}

private theorem audioFormat_format {first : Tts.AudioChunk} (h : Tts.Encodable first) :
    audioFormat h.format = ⟨first.sampleRate, first.channels, first.sampleWidth⟩ := by
  have hchannels := h.channels
  have hwidth := h.sampleWidth.1
  have hrate := h.sampleRate
  simp only [audioFormat, Tts.Encodable.format, AudioFormatSpec.mk.injEq]
  omega

private theorem framesize_format {first : Tts.AudioChunk} (h : Tts.Encodable first) :
    (h.format.framesize : Int) = first.channels * first.sampleWidth := by
  have hchannels : (first.channels.toNat : Int) = first.channels := by
    have := h.channels
    omega
  have hwidth : (first.sampleWidth.toNat : Int) = first.sampleWidth := by
    have := h.sampleWidth
    omega
  rw [WaveFormat.framesize, Nat.cast_mul]
  exact congrArg₂ (· * ·) hchannels hwidth

/-- A file that `/tts` makes is read back: its audio, in the format of its first chunk, 4096 frames
at a time. It is made unless the engine raises or yields nothing, or the header cannot say what the
first chunk's format is or how much there is. -/
theorem spoken_file_read_back (chunks : List Tts.AudioChunk) (ending : Option ε) :
    ((∃ bytes, Tts.encode chunks ending = .ok bytes) ↔ ending = none ∧
      ∃ first ∈ chunks.head?, ∃ h : Tts.Encodable first,
        Fits h.format (Tts.audio chunks).length) ∧
    ∀ bytes, Tts.encode chunks ending = .ok bytes →
      ∃ first ∈ chunks.head?, ∃ source, wavFileAudioSource bytes = some source ∧
        source.flatMap (·.data) = Tts.audio chunks ∧
        (∀ chunk ∈ source, chunk.data ≠ [] ∧
          chunk.format = ⟨first.sampleRate, first.channels, first.sampleWidth⟩) ∧
        ∀ chunk ∈ source.dropLast,
          (chunk.data.length : Int) = 4096 * (first.channels * first.sampleWidth) := by
  constructor
  · constructor
    · rintro ⟨bytes, hbytes⟩
      obtain ⟨hending, first, hfirst, h, hfits, -⟩ := Tts.encode_eq_ok.mp hbytes
      exact ⟨hending, first, hfirst, h, hfits⟩
    · rintro ⟨hending, first, hfirst, h, hfits⟩
      exact ⟨_, Tts.encode_eq_ok.mpr ⟨hending, first, hfirst, h, hfits, rfl⟩⟩
  · intro bytes hbytes
    obtain ⟨-, first, hfirst, h, hfits, rfl⟩ := Tts.encode_eq_ok.mp hbytes
    obtain ⟨wav, hwav, hformat, hsamples⟩ := WaveRead.init_fileBytes hfits
    have hcut : CutFrom h.format (Tts.audio chunks) (readChunks wav.samples.length wav) := by
      rw [← hformat, ← hsamples]
      exact cutFrom_readChunks le_rfl
    refine ⟨first, hfirst, _, by rw [wavFileAudioSource, hwav]; rfl, hcut.joined, ?_, ?_⟩
    · intro chunk hchunk
      exact ⟨hcut.nonempty chunk hchunk, (hcut.formats chunk hchunk).trans (audioFormat_format h)⟩
    · intro chunk hchunk
      rw [hcut.full chunk hchunk, Nat.cast_mul, framesize_format h]
      rfl

/-! ### Audio that cannot be converted -/

/-- Bytes that are no whole samples are not decoded. -/
theorem toInt16_of_not_dvd {data : List UInt8} {sampleWidth : Int} (hw : Supported sampleWidth)
    (hd : ¬ sampleWidth ∣ (data.length : Int)) :
    ∃ message, toInt16 data sampleWidth = .error (.other message) := by
  rcases hw with rfl | rfl | rfl
  · exact absurd (Int.one_dvd _) hd
  · have h2 : ¬ data.length % 2 = 0 := by omega
    exact ⟨_, by simp [toInt16, frombuffer, h2]; rfl⟩
  · have h4 : ¬ data.length % 4 = 0 := by omega
    exact ⟨_, by simp [toInt16, frombuffer, h4, Except.map]; rfl⟩

/-- Samples that are no whole frames are not averaged. -/
theorem reshape_of_not_dvd {samples : List Sample} {channels : Int} (hc : 0 < channels)
    (hs : ¬ channels ∣ (samples.length : Int)) :
    ∃ message, reshape samples channels = .error (.other message) := by
  have hmod : samples.length % channels.toNat ≠ 0 := by
    intro h
    apply hs
    rw [← Int.toNat_of_nonneg hc.le]
    exact Int.natCast_dvd_natCast.mpr (Nat.dvd_of_mod_eq_zero h)
  exact ⟨_, by rw [reshape, if_neg (by omega), if_pos (.inr hmod)]⟩

/-- A frame that is not whole, or a rate of zero, raises something else than
`InvalidAudioFormatError`. -/
theorem convertChunk_other {interp : Interpolation} {target : AudioFormatSpec} {chunk : AudioChunk}
    (hmono : target.channels = 1) (hrate : 0 < target.sampleRate)
    (hwidth : Supported chunk.sampleWidth) (hchannels : 0 < chunk.channels) (hne : chunk.data ≠ [])
    (hformat : chunk.format ≠ target) (hbad : ¬ (chunk.Aligned ∧ chunk.sampleRate ≠ 0)) :
    ∃ message, convertChunk interp target chunk = .error (.other message) := by
  have hdiffers : ¬ (chunk.sampleRate = target.sampleRate ∧ chunk.channels = target.channels ∧
      chunk.sampleWidth = target.sampleWidth) := by
    rintro ⟨h1, h2, h3⟩
    exact hformat (by rw [AudioChunk.format, h1, h2, h3])
  by_cases hd : chunk.sampleWidth ∣ (chunk.data.length : Int)
  · have hlen := length_decodeSamples hwidth hd
    have hdecoded := toInt16_of_supported hwidth hd
    generalize decodeSamples chunk.sampleWidth chunk.data = samples at hlen hdecoded
    by_cases hs : chunk.channels ∣ (samples.length : Int)
    · have haligned : chunk.Aligned := by
        rw [AudioChunk.Aligned, ← hlen]
        exact Int.mul_dvd_mul_right _ hs
      have hzero : chunk.sampleRate = 0 := not_not.mp fun h ↦ hbad ⟨haligned, h⟩
      have hsamples : samples ≠ [] := by
        rintro rfl
        rw [List.length_nil, Nat.cast_zero, Int.zero_mul] at hlen
        exact hne (List.length_eq_zero_iff.mp (by omega))
      have hresample {samples : List Sample} (h : samples ≠ []) :
          resample interp samples 0 target.sampleRate = .error (.other "division by zero") := by
        rw [resample, if_neg, if_pos rfl]
        rw [List.length_eq_zero_iff]
        exact not_or.mpr ⟨hrate.ne, h⟩
      have hdownmix : downmix chunk.channels samples ≠ [] := by
        intro h
        have hcount := length_downmix hchannels hs
        rw [h, List.length_nil, Nat.cast_zero, Int.zero_mul] at hcount
        exact hsamples (List.length_eq_zero_iff.mp (by omega))
      have hne0 : ¬ 0 = target.sampleRate := hrate.ne
      refine ⟨"division by zero", ?_⟩
      rw [convertChunk, if_neg hdiffers, hdecoded, hzero, hmono]
      by_cases hc : chunk.channels = 1
      · simp [hc, hne0, hresample hsamples, bind, Except.bind]
      · rw [downmix, if_neg hc] at hdownmix
        simp [hc, hne0, reshape_of_dvd hchannels hs, hresample hdownmix, bind, Except.bind,
          Except.map]
    · obtain ⟨message, herror⟩ := reshape_of_not_dvd hchannels hs
      have hstereo : chunk.channels ≠ 1 := by
        intro h
        rw [h] at hs
        exact hs (Int.one_dvd _)
      refine ⟨message, ?_⟩
      rw [convertChunk, if_neg hdiffers, hdecoded]
      simp [hmono, hstereo, herror, bind, Except.bind, Except.map]
  · obtain ⟨message, herror⟩ := toInt16_of_not_dvd hwidth hd
    exact ⟨message, by rw [convertChunk, if_neg hdiffers, herror]; rfl⟩

/-- If the chunks that cannot be converted have a known width, the first of them says so. -/
theorem convertChunks_other {arithmetic : Arithmetic} {chunks : List AudioChunk}
    (hchunks : ∀ chunk ∈ chunks, Supported chunk.sampleWidth ∧ 0 < chunk.channels ∧
      0 ≤ chunk.sampleRate ∧ chunk.data ≠ [] ∧ chunk.format ≠ WhisperCpp.requiredFormat)
    (hbad : ∃ chunk ∈ chunks, ¬ (chunk.Aligned ∧ chunk.sampleRate ≠ 0)) :
    ∃ message, convertChunks arithmetic.interpolation (some WhisperCpp.requiredFormat) chunks =
      .error (.other message) := by
  have hother {chunk : AudioChunk} (hchunk : chunk ∈ chunks)
      (h : ¬ (chunk.Aligned ∧ chunk.sampleRate ≠ 0)) : ∃ message,
      convertChunk arithmetic.interpolation WhisperCpp.requiredFormat chunk =
        .error (.other message) := by
    obtain ⟨hwidth, hchannels, -, hdata, hformat⟩ := hchunks chunk hchunk
    exact convertChunk_other rfl (by decide) hwidth hchannels hdata hformat h
  cases hresult : chunks.mapM
      (convertChunk arithmetic.interpolation WhisperCpp.requiredFormat) with
  | ok outs =>
    obtain ⟨chunk, hchunk, hnot⟩ := hbad
    obtain ⟨out, hout⟩ := List.exists_mapM_eq_ok_iff.mp ⟨outs, hresult⟩ chunk hchunk
    obtain ⟨message, herror⟩ := hother hchunk hnot
    rw [herror] at hout
    cases hout
  | error error =>
    obtain ⟨chunk, hchunk, herror⟩ := List.exists_of_mapM_eq_error hresult
    by_cases hgood : chunk.Aligned ∧ chunk.sampleRate ≠ 0
    · obtain ⟨hwidth, hchannels, hrate, -⟩ := hchunks chunk hchunk
      have hpos : 0 < chunk.sampleRate := by
        have hne := hgood.2
        omega
      obtain ⟨out, hout, -⟩ :=
        @WhisperCpp.convertChunk_required chunk arithmetic hwidth hpos hchannels hgood.1
      rw [hout] at herror
      cases herror
    · obtain ⟨message, he⟩ := hother hchunk hgood
      obtain rfl := Except.error.inj (herror.symm.trans he)
      exact ⟨message, hresult⟩

private theorem dvd_length_flatMap {chunks : List AudioChunk} {k : Nat}
    (h : ∀ chunk ∈ chunks.dropLast, k ∣ chunk.data.length) :
    (∀ chunk ∈ chunks, k ∣ chunk.data.length) ↔ k ∣ (chunks.flatMap (·.data)).length := by
  induction chunks with
  | nil => simp
  | cons chunk chunks ih =>
    rw [List.flatMap_cons, List.length_append, List.forall_mem_cons]
    by_cases hend : chunks = []
    · simp [hend]
    · rw [List.dropLast_cons_of_ne_nil hend, List.forall_mem_cons] at h
      rw [Nat.dvd_add_right h.1, ← ih h.2]
      exact and_iff_right h.1

/-- The chunks of a file are whole frames if and only if its data is. -/
theorem CutFrom.aligned_iff {format : WaveFormat} {data : List UInt8} {chunks : List AudioChunk}
    (h : CutFrom format data chunks) :
    (∀ chunk ∈ chunks, chunk.Aligned) ↔ format.framesize ∣ data.length := by
  have haligned {chunk : AudioChunk} (hchunk : chunk ∈ chunks) :
      chunk.Aligned ↔ format.framesize ∣ chunk.data.length := by
    have hformat := h.formats chunk hchunk
    rw [AudioChunk.Aligned, show chunk.channels = format.nchannels from
      congrArg AudioFormatSpec.channels hformat, show chunk.sampleWidth = format.sampwidth from
      congrArg AudioFormatSpec.sampleWidth hformat]
    exact_mod_cast Iff.rfl
  have hfull : ∀ chunk ∈ chunks.dropLast, format.framesize ∣ chunk.data.length := by
    intro chunk hchunk
    rw [h.full chunk hchunk]
    exact Nat.dvd_mul_left _ _
  rw [← h.joined, ← dvd_length_flatMap hfull]
  exact forall₂_congr fun chunk hchunk ↦ haligned hchunk

section

variable {format : WaveFormat} {data : List UInt8} {chunks : List AudioChunk}

open WhisperCpp (convertPrepared requiredFormat)

private theorem CutFrom.fields (h : CutFrom format data chunks) {chunk : AudioChunk}
    (hchunk : chunk ∈ chunks) :
    chunk.sampleRate = format.framerate ∧ chunk.channels = format.nchannels ∧
      chunk.sampleWidth = format.sampwidth := by
  have hformat := h.formats chunk hchunk
  exact ⟨congrArg AudioFormatSpec.sampleRate hformat, congrArg AudioFormatSpec.channels hformat,
    congrArg AudioFormatSpec.sampleWidth hformat⟩

/-- A file without data is refused. -/
theorem convertPrepared_nil (interp : Interpolation) : convertPrepared interp [] =
    .error (.invalidAudioFormat "Audio source produced no data") := rfl

/-- A file of a width that is not known is refused with its first chunk. -/
theorem convertPrepared_of_not_supported (interp : Interpolation) (h : CutFrom format data chunks)
    (hdata : data ≠ []) (hwidth : ¬ Supported format.sampwidth) :
    ∃ message, convertPrepared interp chunks = .error (.invalidAudioFormat message) := by
  cases chunks with
  | nil => exact absurd (h.eq_nil_iff.mp rfl) hdata
  | cons chunk chunks =>
    rw [← (h.fields List.mem_cons_self).2.2] at hwidth
    refine ⟨s!"Unsupported sample width: {chunk.sampleWidth} bytes", ?_⟩
    rw [convertPrepared, WhisperCpp.pcmOfPrepared_eq (by simp), convertChunks, List.mapM_cons,
      WhisperCpp.convertChunk_of_not_supported hwidth]
    rfl

/-- A file of whole frames is converted. -/
theorem convertPrepared_of_aligned (arithmetic : Arithmetic) (h : CutFrom format data chunks)
    (hdata : data ≠ [])
    (hwidth : Supported format.sampwidth) (haligned : format.framesize ∣ data.length)
    (hrate : 0 < format.framerate) :
    ∃ samples, convertPrepared arithmetic.interpolation chunks = .ok samples := by
  obtain ⟨outs, houts, heven, hnil⟩ := @WhisperCpp.convertChunks_of_supported chunks arithmetic
    (fun chunk hchunk ↦ ⟨by rw [(h.fields hchunk).1]; exact_mod_cast hrate,
      by rw [(h.fields hchunk).2.1]; exact_mod_cast format.nchannels_pos,
      h.aligned_iff.mpr haligned chunk hchunk⟩)
    (fun chunk hchunk ↦ by rw [(h.fields hchunk).2.2]; exact hwidth)
  have hne : outs.flatMap (·.data) ≠ [] := by
    intro hempty
    apply hdata
    rw [← h.joined, List.flatMap_eq_nil_iff]
    exact hnil.mp hempty
  obtain ⟨samples, hsamples, -⟩ :=
    WhisperCpp.exists_pcmToFloat32_length (WhisperCpp.length_flatMap_even heven)
  refine ⟨samples, ?_⟩
  rw [convertPrepared, WhisperCpp.pcmOfPrepared_eq (by simp), houts]
  simp only [Except.map, bind, Except.bind]
  rw [if_neg hne, hsamples]

/-- A file that ends inside a frame, or whose rate is zero, raises something else. -/
theorem convertPrepared_other (arithmetic : Arithmetic) (h : CutFrom format data chunks)
    (hdata : data ≠ [])
    (hwidth : Supported format.sampwidth)
    (hbad : ¬ (format.framesize ∣ data.length ∧ 0 < format.framerate)) :
    ∃ message, convertPrepared arithmetic.interpolation chunks = .error (.other message) := by
  have hchunks : chunks ≠ [] := mt h.eq_nil_iff.mp hdata
  rw [convertPrepared, WhisperCpp.pcmOfPrepared_eq (by simp)]
  by_cases hformat : audioFormat format = requiredFormat
  · -- such a file is not converted, and half a sample is seen at the end only
    have hnot : ¬ data.length % 2 = 0 := by
      intro heven
      have hsize : format.framesize = 2 := by
        have hchannels : (format.nchannels : Int) = 1 := congrArg AudioFormatSpec.channels hformat
        have hwide : (format.sampwidth : Int) = 2 := congrArg AudioFormatSpec.sampleWidth hformat
        rw [WaveFormat.framesize, Int.ofNat_inj.mp hchannels, Int.ofNat_inj.mp hwide]
      have hrate : (format.framerate : Int) = 16000 := congrArg AudioFormatSpec.sampleRate hformat
      apply hbad
      rw [hsize]
      omega
    rw [convertChunks_of_format fun chunk hchunk ↦ (h.formats chunk hchunk).trans hformat]
    refine ⟨"buffer size must be a multiple of element size", ?_⟩
    simp only [Except.map, bind, Except.bind, h.joined]
    rw [if_neg hdata, WhisperCpp.pcmToFloat32, frombuffer, if_neg hnot]
    rfl
  · have hsome : ∃ chunk ∈ chunks, ¬ (chunk.Aligned ∧ chunk.sampleRate ≠ 0) := by
      by_contra hall
      push Not at hall
      obtain ⟨chunk, hchunk⟩ := List.exists_mem_of_ne_nil chunks hchunks
      have hrate := (hall chunk hchunk).2
      rw [(h.fields hchunk).1] at hrate
      exact hbad ⟨h.aligned_iff.mp fun chunk hchunk ↦ (hall chunk hchunk).1, by omega⟩
    obtain ⟨message, herror⟩ := @convertChunks_other arithmetic chunks
      (fun chunk hchunk ↦ ⟨by rw [(h.fields hchunk).2.2]; exact hwidth,
        by rw [(h.fields hchunk).2.1]; exact_mod_cast format.nchannels_pos,
        by rw [(h.fields hchunk).1]; exact Int.natCast_nonneg _, h.nonempty chunk hchunk,
        by rw [h.formats chunk hchunk]; exact hformat⟩) hsome
    exact ⟨message, by rw [herror]; rfl⟩

end

/-! ### The route -/

/-- What a client of `/transcribe` is answered. -/
inductive Answer where
  | transcribed (segments : List TranscriptSegment)
  /-- `HTTPException`; the detail has a code if an exception of the service is behind it -/
  | refused (status : Nat) (code : Option String) (message : String)
  /-- any other exception -/
  | failed
  deriving DecidableEq

def Answer.status : Answer → Nat
  | .transcribed _ => 200
  | .refused status _ _ => status
  | .failed => 500

/-- The `except` clauses of `transcribe`. -/
def STTError.answer : STTError → Answer
  | .modelNotFound model => .refused 404 (some "model_not_found") (modelNotFound model).message
  | .invalidAudioFormat message => .refused 400 (some "invalid_audio_format") message
  | .other _ => .failed

/-- The content types of wave files. -/
def wavTypes : List (Option String) := [some "audio/wav", some "audio/x-wav"]

/-- `_transcribe`, with the engine acquired, over the generators of `prepare_audio` and of the
source. -/
def transcribePrepared (interp : Interpolation) (model : WhisperCpp.Model)
    (source : List AudioChunk) : Except STTError Transcript := do
  let samples ← WhisperCpp.convertPrepared interp source
  let segments ← model samples
  return WhisperCpp.toTranscript segments

/-- `transcribe`, `stt/api/routes.py:25`, with the engine that `acquire_engine` yields or with what
it raises. -/
def transcribeUpload (interp : Interpolation) (contentType : Option String)
    (acquired : Except STTError WhisperCpp.Model) (bytes : List UInt8) : Answer :=
  if contentType ∉ wavTypes then .refused 400 none "Only wav files are supported"
  else
    match acquired with
    | .error e => e.answer
    | .ok model =>
      match wavFileAudioSource bytes with
      | none => .failed
      | some source =>
        match transcribePrepared interp model source with
        | .error e => e.answer
        | .ok script => .transcribed script.segments

private theorem status_of_error {interp : Interpolation} {contentType : Option String}
    {model : WhisperCpp.Model} {bytes : List UInt8} {wav : WaveRead} {error : STTError}
    (htype : contentType ∈ wavTypes) (hwav : WaveRead.init bytes = some wav)
    (herror : WhisperCpp.convertPrepared interp (readChunks wav.samples.length wav) =
      .error error) :
    transcribeUpload interp contentType (.ok model) bytes = error.answer := by
  simp [transcribeUpload, htype, wavFileAudioSource, hwav, transcribePrepared, herror, bind,
    Except.bind]

/-- A client is told that the file is at fault exactly if it is said to be none, holds nothing or is
of a width that is not known; a transcript comes of a file of whole frames, of a rate that is not
zero, if the native model returns; everything else is a failure of the service. -/
theorem upload_answered (arithmetic : Arithmetic) (contentType : Option String)
    (model : WhisperCpp.Model) (bytes : List UInt8)
    (hmodel : ∀ samples error, model samples = .error error → ∃ message, error = .other message) :
    ((transcribeUpload arithmetic.interpolation contentType (.ok model) bytes).status = 400 ↔
      contentType ∉ wavTypes ∨ ∃ wav, WaveRead.init bytes = some wav ∧
        (wav.samples = [] ∨ ¬ Supported wav.format.sampwidth)) ∧
    ((transcribeUpload arithmetic.interpolation contentType (.ok model) bytes).status = 200 ↔
      contentType ∈ wavTypes ∧ ∃ wav, WaveRead.init bytes = some wav ∧ wav.samples ≠ [] ∧
        Supported wav.format.sampwidth ∧ wav.format.framesize ∣ wav.samples.length ∧
        0 < wav.format.framerate ∧ ∃ samples segments,
          WhisperCpp.convertPrepared arithmetic.interpolation
            (readChunks wav.samples.length wav) = .ok samples ∧ model samples = .ok segments) ∧
    (transcribeUpload arithmetic.interpolation contentType (.ok model) bytes).status ∈
      [200, 400, 500] := by
  by_cases htype : contentType ∈ wavTypes
  swap
  · simp [transcribeUpload, htype, Answer.status]
  cases hwav : WaveRead.init bytes with
  | none => simp [transcribeUpload, htype, wavFileAudioSource, hwav, Answer.status]
  | some wav =>
    have hcut : CutFrom wav.format wav.samples (readChunks wav.samples.length wav) :=
      cutFrom_readChunks le_rfl
    simp only [Option.some.injEq, exists_eq_left', htype, not_true, false_or, true_and]
    by_cases hnone : wav.samples = []
    · have herror := convertPrepared_nil arithmetic.interpolation
      rw [← hcut.eq_nil_iff.mpr hnone] at herror
      rw [status_of_error htype hwav herror]
      simp [STTError.answer, Answer.status, hnone]
    by_cases hwidth : Supported wav.format.sampwidth
    swap
    · obtain ⟨message, herror⟩ := convertPrepared_of_not_supported arithmetic.interpolation
        hcut hnone hwidth
      rw [status_of_error htype hwav herror]
      simp [STTError.answer, Answer.status, hwidth]
    by_cases hgood : wav.format.framesize ∣ wav.samples.length ∧ 0 < wav.format.framerate
    swap
    · obtain ⟨message, herror⟩ := convertPrepared_other arithmetic hcut hnone hwidth hgood
      rw [status_of_error htype hwav herror]
      simp [STTError.answer, Answer.status, hnone, hwidth, herror]
    · obtain ⟨samples, hsamples⟩ := convertPrepared_of_aligned arithmetic hcut hnone hwidth hgood.1
        hgood.2
      cases hsegments : model samples with
      | error error =>
        obtain ⟨message, rfl⟩ := hmodel samples error hsegments
        simp [transcribeUpload, htype, wavFileAudioSource, hwav, transcribePrepared, hsamples,
          hsegments, bind, Except.bind, STTError.answer, Answer.status, hnone, hwidth]
      | ok segments =>
        simp [transcribeUpload, htype, wavFileAudioSource, hwav, transcribePrepared, hsamples,
          hsegments, bind, Except.bind, pure, Except.pure, Answer.status, hnone, hwidth, hgood.1,
          hgood.2]

/-- Two samples, in the format that needs no conversion. -/
def shortFile : List UInt8 := WaveRead.fileBytes ⟨1, 16000, 2, by decide, by decide⟩ [1, 0, 2, 0]

/-- A model that hears nothing answers with no segments. -/
theorem upload_answered_short :
    (transcribeUpload exact.interpolation (some "audio/wav") (.ok fun _ ↦ .ok [])
      shortFile).status = 200 := by
  have hread : ∃ wav, WaveRead.init shortFile = some wav ∧ wav.samples ≠ [] ∧
      Supported wav.format.sampwidth ∧ wav.format.framesize ∣ wav.samples.length ∧
      0 < wav.format.framerate ∧ ∃ samples,
        WhisperCpp.convertPrepared exact.interpolation (readChunks wav.samples.length wav) =
          .ok samples := ⟨_, rfl, by decide, by decide, by decide, by decide, _, rfl⟩
  obtain ⟨wav, hwav, hne, hwidth, haligned, hrate, samples, hsamples⟩ := hread
  exact (upload_answered exact (some "audio/wav") (fun _ ↦ .ok []) shortFile (by simp)).2.1.mpr
    ⟨by decide, wav, hwav, hne, hwidth, haligned, hrate, samples, [], hsamples, rfl⟩

end BibiCore.Stt
