import Mathlib.Tactic.Linarith
import Mathlib.Tactic.NormNum
import BibiCore.Gateway.Clients
import BibiCore.Stt.Servicer

/-!
# The FINAL event of an utterance

What the FINAL event says when every window is transcribed, and when there is one at all with
the whisper engine.
-/

namespace BibiCore.Stt

open Windowing
open BibiCore.Gateway (joinSegments mapTranscriptEvent)

/-! ## Chunks of whole samples -/

/-- A 16 kHz mono 16-bit chunk of whole samples. -/
structure AudioChunk.Whole (chunk : AudioChunk) : Prop where
  format : chunk.format = WhisperCpp.requiredFormat
  even : chunk.data.length % 2 = 0

variable {w : List AudioChunk}

private theorem totalBytes_even (hw : ∀ chunk ∈ w, chunk.Whole) : totalBytes w % 2 = 0 := by
  induction w with
  | nil => rfl
  | cons chunk w ih =>
    obtain ⟨hc, hcs⟩ := List.forall_mem_cons.mp hw
    have heven := hc.even
    have hrest := ih hcs
    simp only [totalBytes, List.map_cons, List.sum_cons] at hrest ⊢
    omega

/-- Whole chunks have a duration. -/
theorem measurable_of_whole (hw : ∀ chunk ∈ w, chunk.Whole) : Measurable w := by
  intro first hfirst
  have hf := (hw first (List.mem_of_mem_head? hfirst)).format
  simp only [AudioChunk.format, WhisperCpp.requiredFormat, AudioFormatSpec.mk.injEq] at hf
  simp [AudioChunk.bytesPerSecond, hf]

/-- The threshold of 16 kHz mono 16-bit chunks, in bytes. -/
theorem windowFull_of_format (hw : ∀ chunk ∈ w, chunk.format = WhisperCpp.requiredFormat) :
    windowFull w = true ↔ 160000 ≤ totalBytes w := by
  cases w with
  | nil =>
    have hlt : ¬ (5 : ℚ) ≤ 0 := by norm_num
    simp [windowFull, calculateDuration, windowSeconds, hlt]
  | cons first rest =>
    have hf := hw first List.mem_cons_self
    simp only [AudioChunk.format, WhisperCpp.requiredFormat, AudioFormatSpec.mk.injEq] at hf
    have hb : first.bytesPerSecond = 32000 := by simp [AudioChunk.bytesPerSecond, hf]
    rw [windowFull_iff]
    simp only [calculateDuration, hb, windowSeconds]
    rw [if_neg (by norm_num)]
    simp only [Except.ok.injEq, exists_eq_left', Int.cast_ofNat]
    rw [le_div_iff₀ (by norm_num)]
    norm_num

/-- The threshold of whole chunks, in bytes. -/
theorem windowFull_of_whole (hw : ∀ chunk ∈ w, chunk.Whole) :
    windowFull w = true ↔ 160000 ≤ totalBytes w :=
  windowFull_of_format fun chunk hc ↦ (hw chunk hc).format

/-! ## The text of the FINAL event -/

/-- The texts of the FINAL events, as the stt client hands them to the session. -/
def finalTexts (events : List Proto.TranscriptEvent) : List String :=
  events.filterMap fun event ↦
    match mapTranscriptEvent event with
    | .finalEvent text => some text
    | _ => none

/-- The transcript of the whole utterance. -/
def utteranceText (interp : Interpolation) (engine : STTEngine)
    (chunks : List Proto.SttAudioChunkMsg) (marker : Proto.SttAudioChunkMsg) : String :=
  String.join ((windows chunks marker).map fun w ↦ (windowTranscript interp engine w).text)

/-- The call answers with one FINAL event, whose text is the transcript of the utterance. -/
def FinalIsWhole (interp : Interpolation) (engine : STTEngine)
    (chunks : List Proto.SttAudioChunkMsg) (marker : Proto.SttAudioChunkMsg) : Prop :=
  finalTexts (streamTranscribe interp (.ok engine) (received (chunks ++ [marker]))) =
    [utteranceText interp engine chunks marker]

instance (interp : Interpolation) (engine : STTEngine) (chunks : List Proto.SttAudioChunkMsg)
    (marker : Proto.SttAudioChunkMsg) : Decidable (FinalIsWhole interp engine chunks marker) :=
  inferInstanceAs (Decidable (_ = _))

/-- The client joins the segments as the service does. -/
theorem joinSegments_eq_text {event : Proto.TranscriptEvent} {transcript : Transcript}
    (h : event.segments.map (·.text) = transcript.segments.map (·.text)) :
    joinSegments event = transcript.text := by
  rw [Transcript.text, ← h]
  simp [joinSegments, String.join_eq_foldl, List.foldl_map]

/-- Partial events are no finals. -/
theorem finalTexts_partials {events : List Proto.TranscriptEvent}
    (h : ∀ event ∈ events, event.type = .partialEvent) : finalTexts events = [] := by
  rw [finalTexts, List.filterMap_eq_nil_iff]
  intro event he
  simp [mapTranscriptEvent, h event he]

private theorem join_eq_empty {texts : List String} :
    String.join texts = "" ↔ ∀ text ∈ texts, text = "" := by
  induction texts with
  | nil => simp
  | cons text texts ih => simp [String.append_eq_empty_iff, ih]

variable {interp : Interpolation} {engine : STTEngine}
  {chunks : List Proto.SttAudioChunkMsg} {marker : Proto.SttAudioChunkMsg}

/-- The windows that fill up and the end marker are answered with an event. -/
def Answered (interp : Interpolation) (engine : STTEngine) (chunks : List Proto.SttAudioChunkMsg)
    (marker : Proto.SttAudioChunkMsg) : Prop :=
  (∀ w ∈ filledWindows chunks, ∃ event, answerWindow interp engine w .partialEvent = .ok event) ∧
    ∃ event, answerLast interp engine (lastWindow chunks marker) = .ok event

/-- They are when the last window can be measured, and every window is transcribed with times that
fit. -/
theorem answered_iff : Answered interp engine chunks marker ↔
    Measurable (lastWindow chunks marker) ∧ ∀ w ∈ windows chunks marker,
      (∃ t, transcribeWindow interp engine w = .ok t) ∧
        (windowTranscript interp engine w).InRange := by
  have hlast : (∃ event, answerLast interp engine (lastWindow chunks marker) = .ok event) ↔
      Measurable (lastWindow chunks marker) ∧
        ∃ event, answerWindow interp engine (lastWindow chunks marker) .finalEvent =
          .ok event := by
    rw [answerLast_eq]
    split <;> simp [*]
  simp only [Answered, hlast, exists_answerWindow_iff, windows, List.forall_mem_append,
    List.forall_mem_singleton]
  exact and_left_comm

/-- When they are, the only FINAL text is that of the last window. -/
theorem finalTexts_of_answered (hchunks : ∀ c ∈ chunks, c.endOfUtterance = false)
    (hmarker : marker.endOfUtterance = true) (h : Answered interp engine chunks marker) :
    finalTexts (streamTranscribe interp (.ok engine) (received (chunks ++ [marker]))) =
      [(windowTranscript interp engine (lastWindow chunks marker)).text] := by
  obtain ⟨hfilled, event, hlast⟩ := h
  obtain ⟨partials, hevents, hpartials⟩ := utteranceEvents_of_answered hfilled hlast
  have hanswer := hlast
  rw [answerLast_eq] at hanswer
  split at hanswer
  · obtain ⟨htype, htexts⟩ := of_answerWindow hanswer
    rw [streamTranscribe_utterance hchunks hmarker, hevents, finalTexts, List.filterMap_append,
      ← finalTexts, finalTexts_partials hpartials, ← joinSegments_eq_text htexts]
    simp [mapTranscriptEvent, htype]
  · cases hanswer

/-- Otherwise there is none. -/
theorem finalTexts_of_not_answered (hchunks : ∀ c ∈ chunks, c.endOfUtterance = false)
    (hmarker : marker.endOfUtterance = true) (h : ¬ Answered interp engine chunks marker) :
    finalTexts (streamTranscribe interp (.ok engine) (received (chunks ++ [marker]))) = [] := by
  obtain ⟨partials, error, hevents, hpartials⟩ := utteranceEvents_of_not_answered h
  rw [streamTranscribe_utterance hchunks hmarker, hevents, finalTexts, List.filterMap_append,
    ← finalTexts, finalTexts_partials hpartials]
  rfl

/-- The transcript of the utterance is that of the windows that filled, then the last one's. -/
theorem utteranceText_eq : utteranceText interp engine chunks marker =
    String.join ((filledWindows chunks).map fun w ↦ (windowTranscript interp engine w).text) ++
      (windowTranscript interp engine (lastWindow chunks marker)).text := by
  simp [utteranceText, windows]

/-- The FINAL text is the transcript of the whole utterance exactly when a duration can be
computed for the last window, all times fit the event's fields, and the windows before the last
have nothing to say. -/
theorem finalIsWhole_iff_silent (interp : Interpolation) (engine : STTEngine)
    (chunks : List Proto.SttAudioChunkMsg) (marker : Proto.SttAudioChunkMsg)
    (hchunks : ∀ c ∈ chunks, c.endOfUtterance = false) (hmarker : marker.endOfUtterance = true)
    (hok : ∀ w ∈ windows chunks marker, ∃ t, transcribeWindow interp engine w = .ok t) :
    FinalIsWhole interp engine chunks marker ↔
      Measurable (lastWindow chunks marker) ∧
        (∀ w ∈ windows chunks marker, (windowTranscript interp engine w).InRange) ∧
        ∀ w ∈ filledWindows chunks, (windowTranscript interp engine w).text = "" := by
  have hanswered : Answered interp engine chunks marker ↔ Measurable (lastWindow chunks marker) ∧
      ∀ w ∈ windows chunks marker, (windowTranscript interp engine w).InRange := by
    rw [answered_iff]
    exact and_congr_right fun _ ↦ forall₂_congr fun w hw ↦ and_iff_right (hok w hw)
  rw [← and_assoc, ← hanswered]
  unfold FinalIsWhole
  by_cases ha : Answered interp engine chunks marker
  · rw [finalTexts_of_answered hchunks hmarker ha, utteranceText_eq, List.cons.injEq,
      eq_comm, String.append_eq_right_iff, join_eq_empty, List.forall_mem_map]
    simp [ha]
  · rw [finalTexts_of_not_answered hchunks hmarker ha]
    simp [ha]

/-- Samples that are not resampled. -/
def plainSamples : Interpolation := fun samples _ _ ↦ samples

/-- An engine that accepts any format and hears the same words in every window. -/
def noteEngine : STTEngine :=
  ⟨none, fun _ ↦ .ok ⟨[⟨0, 5000, "take a note", some (.finite 1)⟩], none⟩⟩

/-- Five seconds of microphone audio in one message. -/
def fiveSeconds : Proto.SttAudioChunkMsg := ⟨List.replicate 160000 0, 16000, 1, 2, false⟩

private theorem length_fiveSeconds : (chunkFromProto fiveSeconds).data.length = 160000 :=
  List.length_replicate

/-- An end marker in the microphone's format. -/
def endMarker (data : List UInt8) : Proto.SttAudioChunkMsg := ⟨data, 16000, 1, 2, true⟩

/-- Half a second of microphone audio. -/
def halfSecond : Proto.SttAudioChunkMsg := ⟨List.replicate 16000 0, 16000, 1, 2, false⟩

private theorem length_halfSecond : (chunkFromProto halfSecond).data.length = 16000 :=
  List.length_replicate

private theorem cut_halfSecond : cut windowFull [] [chunkFromProto halfSecond] =
    ([], [chunkFromProto halfSecond]) := by
  have hwhole : ∀ chunk ∈ [] ++ [chunkFromProto halfSecond], chunk.Whole :=
    List.forall_mem_singleton.mpr ⟨rfl, by rw [length_halfSecond]⟩
  have hfull : windowFull ([] ++ [chunkFromProto halfSecond]) = false := by
    rw [Bool.eq_false_iff, Ne, windowFull_of_whole hwhole, List.nil_append, totalBytes_singleton,
      length_halfSecond]
    omega
  rw [cut_cons_of_not_full hfull]
  rfl

private theorem noteEngine_inRange (w : List AudioChunk) :
    (windowTranscript plainSamples noteEngine w).InRange := by
  show Transcript.InRange ⟨[⟨0, 5000, "take a note", some (.finite 1)⟩], none⟩
  decide

/-- An utterance of half a second, which is one window. -/
theorem finalIsWhole_iff_silent_note :
    FinalIsWhole plainSamples noteEngine [halfSecond] (endMarker [0, 0]) := by
  apply (finalIsWhole_iff_silent plainSamples noteEngine _ _ (by decide) rfl ?_).mpr
  · refine ⟨?_, fun w _ ↦ noteEngine_inRange w, ?_⟩
    · rw [lastWindow, List.map_singleton, cut_halfSecond]
      decide
    · rw [filledWindows, List.map_singleton, cut_halfSecond]
      exact fun _ hw ↦ (List.not_mem_nil hw).elim
  · exact fun w _ ↦ ⟨_, rfl⟩

private theorem cut_fiveSeconds : cut windowFull [] [chunkFromProto fiveSeconds] =
    ([[chunkFromProto fiveSeconds]], []) := by
  have hwhole : ∀ chunk ∈ [] ++ [chunkFromProto fiveSeconds], chunk.Whole :=
    List.forall_mem_singleton.mpr ⟨rfl, by rw [length_fiveSeconds]⟩
  have hfull : windowFull ([] ++ [chunkFromProto fiveSeconds]) = true := by
    rw [windowFull_of_whole hwhole, List.nil_append, totalBytes_singleton, length_fiveSeconds]
  rw [cut_cons_of_full hfull]
  rfl

/-- Five seconds of audio and one more sample: the client is told the second window's words
only. -/
theorem not_finalIsWhole :
    fiveSeconds.endOfUtterance = false ∧ (endMarker [0, 0]).endOfUtterance = true ∧
      (∀ w ∈ windows [fiveSeconds] (endMarker [0, 0]),
        ∃ t, transcribeWindow plainSamples noteEngine w = .ok t) ∧
      ¬ FinalIsWhole plainSamples noteEngine [fiveSeconds] (endMarker [0, 0]) := by
  have hok : ∀ w ∈ windows [fiveSeconds] (endMarker [0, 0]),
      ∃ t, transcribeWindow plainSamples noteEngine w = .ok t := fun _ _ ↦ ⟨_, rfl⟩
  have hfilled : filledWindows [fiveSeconds] = [[chunkFromProto fiveSeconds]] := by
    rw [filledWindows, List.map_singleton, cut_fiveSeconds]
  have hlast : lastWindow [fiveSeconds] (endMarker [0, 0]) =
      [chunkFromProto (endMarker [0, 0])] := by
    rw [lastWindow, List.map_singleton, cut_fiveSeconds, List.nil_append]
  have hm : Measurable (lastWindow [fiveSeconds] (endMarker [0, 0])) := by
    rw [hlast]
    decide
  have hanswered : Answered plainSamples noteEngine [fiveSeconds] (endMarker [0, 0]) :=
    answered_iff.mpr ⟨hm, fun w hw ↦ ⟨hok w hw, noteEngine_inRange w⟩⟩
  refine ⟨rfl, rfl, hok, ?_⟩
  rw [FinalIsWhole, finalTexts_of_answered (List.forall_mem_singleton.mpr rfl) rfl hanswered,
    utteranceText_eq, hfilled, hlast]
  decide

/-! ## The whisper engine -/

/-- There is exactly one FINAL event, it is the last event, and no event is an ERROR. -/
def EndsInOneFinal (events : List Proto.TranscriptEvent) : Prop :=
  (events.filter fun event ↦ event.type = .finalEvent).length = 1 ∧
    events.getLast?.map (·.type) = some .finalEvent ∧
    ∀ event ∈ events, event.type ≠ .errorEvent

/-- The bytes that wait in the buffer when the end marker arrives: five seconds are 160000
bytes, and the chunk that reaches them empties the buffer. -/
def residue (chunks : List Proto.SttAudioChunkMsg) : Nat :=
  chunks.foldl (fun n c ↦ if 160000 ≤ n + c.data.length then 0 else n + c.data.length) 0

variable {model : WhisperCpp.Model}

private theorem formats_of_whole (hw : ∀ chunk ∈ w, chunk.Whole) :
    ∀ chunk ∈ w, chunk.format = WhisperCpp.requiredFormat :=
  fun chunk hc ↦ (hw chunk hc).format

/-- Whole chunks reach the engine as they are. -/
theorem transcribeWindow_of_whole (hw : ∀ chunk ∈ w, chunk.Whole) :
    transcribeWindow interp (WhisperCpp.engine model) w = WhisperCpp.transcribe model w := by
  have hprepared : prepareAudio interp (WhisperCpp.engine model) w = .ok w :=
    convertChunks_of_format (formats_of_whole hw)
  rw [transcribeWindow, hprepared]
  rfl

/-- The engine refuses a window without a byte. -/
theorem transcribeWindow_of_no_data (hw : ∀ chunk ∈ w, chunk.Whole) (hn : totalBytes w = 0) :
    transcribeWindow interp (WhisperCpp.engine model) w =
      .error (.invalidAudioFormat "Audio source produced no data") := by
  have hpcm : w.flatMap (·.data) = [] :=
    List.length_eq_zero_iff.mp (by rw [length_flatMap_data, hn])
  rw [transcribeWindow_of_whole hw, WhisperCpp.transcribe,
    WhisperCpp.convertAudio_of_format (formats_of_whole hw), if_pos hpcm]
  rfl

/-- Any other window of whole chunks goes to the model, as at least one sample. -/
theorem transcribeWindow_of_data (hw : ∀ chunk ∈ w, chunk.Whole) (hn : totalBytes w ≠ 0) :
    ∃ samples, samples ≠ [] ∧ transcribeWindow interp (WhisperCpp.engine model) w =
      (model samples).map WhisperCpp.toTranscript := by
  have hpcm : w.flatMap (·.data) ≠ [] := by
    intro hnil
    apply hn
    rw [← length_flatMap_data, hnil]
    rfl
  have heven : (w.flatMap (·.data)).length % 2 = 0 := by
    rw [length_flatMap_data]
    exact totalBytes_even hw
  obtain ⟨samples, hs, hne⟩ := WhisperCpp.exists_pcmToFloat32 heven hpcm
  refine ⟨samples, hne, ?_⟩
  rw [transcribeWindow_of_whole hw]
  apply WhisperCpp.transcribe_of_samples
  rw [WhisperCpp.convertAudio_of_format (formats_of_whole hw), if_neg hpcm, hs]

/-- So it is transcribed when the model succeeds on samples. -/
theorem exists_transcribeWindow (hw : ∀ chunk ∈ w, chunk.Whole) (hn : totalBytes w ≠ 0)
    (hmodel : ∀ samples, samples ≠ [] → ∃ segments, model samples = .ok segments) :
    ∃ t, transcribeWindow interp (WhisperCpp.engine model) w = .ok t := by
  obtain ⟨samples, hne, ht⟩ := transcribeWindow_of_data hw hn
  obtain ⟨segments, hs⟩ := hmodel samples hne
  exact ⟨_, by rw [ht, hs]; rfl⟩

/-- The times of its transcripts fit when those of the model's segments do. -/
theorem windowTranscript_inRange
    (h : ∀ samples segments, model samples = .ok segments →
      (WhisperCpp.toTranscript segments).InRange) (w : List AudioChunk) :
    (windowTranscript interp (WhisperCpp.engine model) w).InRange := by
  have hempty : Transcript.InRange ⟨[], none⟩ := fun _ hs ↦ (List.not_mem_nil hs).elim
  unfold windowTranscript transcribeWindow
  cases prepareAudio interp (WhisperCpp.engine model) w with
  | error error => exact hempty
  | ok prepared =>
    show ((WhisperCpp.transcribe model prepared).toOption.getD ⟨[], none⟩).InRange
    cases hs : WhisperCpp.convertAudio prepared with
    | error error =>
      rw [WhisperCpp.transcribe, hs]
      exact hempty
    | ok samples =>
      rw [WhisperCpp.transcribe_of_samples hs]
      cases hm : model samples with
      | error error => exact hempty
      | ok segments => exact h samples segments hm

/-- Partial events and one more end in a final one exactly when that one is. -/
theorem endsInOneFinal_concat {partials : List Proto.TranscriptEvent}
    (htypes : ∀ e ∈ partials, e.type = .partialEvent) {event : Proto.TranscriptEvent} :
    EndsInOneFinal (partials ++ [event]) ↔ event.type = .finalEvent := by
  constructor
  · rintro ⟨-, hlast, -⟩
    simpa using hlast
  · intro hfinal
    have hnone : partials.filter (·.type = .finalEvent) = [] := by
      rw [List.filter_eq_nil_iff]
      intro e he
      simp [htypes e he]
    refine ⟨by simp [List.filter_append, hnone, hfinal], by simp [hfinal], ?_⟩
    intro e he
    rcases List.mem_append.mp he with he | he
    · simp [htypes e he]
    · rw [List.mem_singleton.mp he, hfinal]
      decide

/-- An utterance ends in its one FINAL event exactly when all of it is answered. -/
theorem endsInOneFinal_iff_answered (hchunks : ∀ c ∈ chunks, c.endOfUtterance = false)
    (hmarker : marker.endOfUtterance = true) :
    EndsInOneFinal (streamTranscribe interp (.ok engine) (received (chunks ++ [marker]))) ↔
      Answered interp engine chunks marker := by
  rw [streamTranscribe_utterance hchunks hmarker]
  by_cases h : Answered interp engine chunks marker
  · obtain ⟨hfilled, event, hlast⟩ := h
    obtain ⟨partials, hevents, htypes⟩ := utteranceEvents_of_answered hfilled hlast
    have htype : event.type = .finalEvent := by
      rw [answerLast_eq] at hlast
      split at hlast
      · exact (of_answerWindow hlast).1
      · cases hlast
    rw [hevents, endsInOneFinal_concat htypes]
    exact iff_of_true htype ⟨hfilled, event, hlast⟩
  · obtain ⟨partials, error, hevents, htypes⟩ := utteranceEvents_of_not_answered h
    rw [hevents, endsInOneFinal_concat htypes]
    exact iff_of_false (by simp [errorEvent]) h

/-- The windows that fill up are made of whole chunks and hold data. -/
theorem data_of_mem_filledWindows (hwhole : ∀ c ∈ chunks, (chunkFromProto c).Whole)
    (hw : w ∈ filledWindows chunks) : (∀ chunk ∈ w, chunk.Whole) ∧ totalBytes w ≠ 0 := by
  have hall : ∀ chunk ∈ w, chunk.Whole := by
    intro chunk hc
    obtain ⟨msg, hm, rfl⟩ := List.mem_map.mp (mem_of_mem_cut hw hc)
    exact hwhole msg hm
  have hfull := (windowFull_of_whole hall).mp (full_of_mem_cut hw)
  exact ⟨hall, by omega⟩

/-- The last window is made of whole chunks; its bytes are the residue and the marker's. -/
theorem totalBytes_lastWindow (hwhole : ∀ c ∈ chunks, (chunkFromProto c).Whole)
    (hmarker : (chunkFromProto marker).Whole) :
    (∀ chunk ∈ lastWindow chunks marker, chunk.Whole) ∧
      totalBytes (lastWindow chunks marker) = residue chunks + marker.data.length := by
  have hall : ∀ chunk ∈ chunks.map chunkFromProto, chunk.Whole := List.forall_mem_map.mpr hwhole
  have hrest := size_cut (P := AudioChunk.Whole) totalBytes_nil
    (fun b x ↦ by rw [totalBytes_append, totalBytes_singleton])
    (fun b hb ↦ windowFull_of_whole hb) (fun _ h ↦ (List.not_mem_nil h).elim) hall
  rw [List.foldl_map] at hrest
  constructor
  · rw [lastWindow, List.forall_mem_append]
    exact ⟨fun c hc ↦ hall c (mem_of_mem_rest hc), List.forall_mem_singleton.mpr hmarker⟩
  · rw [lastWindow, totalBytes_append, totalBytes_singleton, hrest]
    rfl

/-- Of an utterance of whole chunks every window is transcribed, unless no byte waits for the end
marker and the marker brings none. -/
theorem transcribed_iff_residue (hwhole : ∀ c ∈ chunks ++ [marker], (chunkFromProto c).Whole)
    (hmodel : ∀ samples, samples ≠ [] → ∃ segments, model samples = .ok segments) :
    (∀ w ∈ windows chunks marker,
        ∃ t, transcribeWindow interp (WhisperCpp.engine model) w = .ok t) ↔
      residue chunks ≠ 0 ∨ marker.data ≠ [] := by
  obtain ⟨hcs, hm⟩ := List.forall_mem_append.mp hwhole
  obtain ⟨hlast, hbytes⟩ := totalBytes_lastWindow hcs (hm marker (List.mem_singleton.mpr rfl))
  have hfilled : ∀ w ∈ filledWindows chunks,
      ∃ t, transcribeWindow interp (WhisperCpp.engine model) w = .ok t := by
    intro w hw
    obtain ⟨hall, hdata⟩ := data_of_mem_filledWindows hcs hw
    exact exists_transcribeWindow hall hdata hmodel
  have hor : residue chunks ≠ 0 ∨ marker.data ≠ [] ↔
      totalBytes (lastWindow chunks marker) ≠ 0 := by
    rw [hbytes, ← List.length_pos_iff]
    omega
  rw [windows, List.forall_mem_append, List.forall_mem_singleton, hor, and_iff_right hfilled]
  refine ⟨fun ⟨t, ht⟩ hn ↦ ?_, fun hn ↦ exists_transcribeWindow hlast hn hmodel⟩
  rw [transcribeWindow_of_no_data hlast hn] at ht
  cases ht

/-- With the whisper engine an utterance of whole chunks ends in its one FINAL event exactly when
bytes wait in the buffer at the end marker or come with it, and the times of the model's segments
fit the event's fields. -/
theorem endsInOneFinal_iff_residue (interp : Interpolation) (model : WhisperCpp.Model)
    (chunks : List Proto.SttAudioChunkMsg) (marker : Proto.SttAudioChunkMsg)
    (hchunks : ∀ c ∈ chunks, c.endOfUtterance = false) (hmarker : marker.endOfUtterance = true)
    (hwhole : ∀ c ∈ chunks ++ [marker], (chunkFromProto c).Whole)
    (hmodel : ∀ samples, samples ≠ [] → ∃ segments, model samples = .ok segments) :
    EndsInOneFinal (streamTranscribe interp (.ok (WhisperCpp.engine model))
        (received (chunks ++ [marker]))) ↔
      (residue chunks ≠ 0 ∨ marker.data ≠ []) ∧ ∀ w ∈ windows chunks marker,
        (windowTranscript interp (WhisperCpp.engine model) w).InRange := by
  obtain ⟨hcs, hm⟩ := List.forall_mem_append.mp hwhole
  obtain ⟨hlast, -⟩ := totalBytes_lastWindow hcs (hm marker (List.mem_singleton.mpr rfl))
  rw [endsInOneFinal_iff_answered hchunks hmarker, answered_iff,
    and_iff_right (measurable_of_whole hlast), ← transcribed_iff_residue hwhole hmodel]
  exact forall₂_and

/-- A native model that hears the same words in any audio. -/
def noteModel : WhisperCpp.Model := fun _ ↦ .ok [⟨0, 500, "take a note", some (.finite 1)⟩]

/-- The segments of `noteModel` have times of 32 bits. -/
theorem noteModel_inRange (w : List AudioChunk) :
    (windowTranscript plainSamples (WhisperCpp.engine noteModel) w).InRange := by
  refine windowTranscript_inRange (fun samples segments hm ↦ ?_) w
  obtain rfl := Except.ok.inj hm
  decide

/-- An utterance of one sample, which is left for its marker. -/
theorem endsInOneFinal_iff_residue_note :
    EndsInOneFinal (streamTranscribe plainSamples (.ok (WhisperCpp.engine noteModel))
      (received ([⟨[0, 0], 16000, 1, 2, false⟩] ++ [endMarker []]))) := by
  apply (endsInOneFinal_iff_residue plainSamples noteModel _ _ (by decide) rfl ?_ ?_).mpr
  · exact ⟨.inl (by decide), fun w _ ↦ noteModel_inRange w⟩
  · simp only [List.forall_mem_append, List.forall_mem_singleton]
    exact ⟨⟨rfl, rfl⟩, rfl, rfl⟩
  · exact fun samples _ ↦ ⟨_, rfl⟩

/-- Five seconds of audio, then the end marker as the gateway sends it: the window has just been
handed over and the engine refuses what is left. -/
theorem not_endsInOneFinal :
    fiveSeconds.endOfUtterance = false ∧ (endMarker []).endOfUtterance = true ∧
      (∀ c ∈ [fiveSeconds] ++ [endMarker []], (chunkFromProto c).Whole) ∧
      (∃ c ∈ [fiveSeconds] ++ [endMarker []], c.data ≠ []) ∧
      (∀ samples, samples ≠ [] → ∃ segments, noteModel samples = .ok segments) ∧
      ¬ EndsInOneFinal (streamTranscribe plainSamples (.ok (WhisperCpp.engine noteModel))
        (received ([fiveSeconds] ++ [endMarker []]))) := by
  have hwhole : ∀ c ∈ [fiveSeconds] ++ [endMarker []], (chunkFromProto c).Whole := by
    simp only [List.forall_mem_append, List.forall_mem_singleton]
    exact ⟨⟨rfl, by rw [length_fiveSeconds]⟩, rfl, rfl⟩
  have hmodel : ∀ samples, samples ≠ [] → ∃ segments, noteModel samples = .ok segments :=
    fun samples _ ↦ ⟨_, rfl⟩
  have hdata : fiveSeconds.data ≠ [] := List.ne_nil_of_length_eq_add_one length_fiveSeconds
  have hlen : fiveSeconds.data.length = 160000 := length_fiveSeconds
  have hresidue : residue [fiveSeconds] = 0 := by simp [residue, hlen]
  refine ⟨rfl, rfl, hwhole, ⟨fiveSeconds, by simp, hdata⟩, hmodel, ?_⟩
  rw [endsInOneFinal_iff_answered (List.forall_mem_singleton.mpr rfl) rfl, answered_iff]
  rintro ⟨-, hall⟩
  have htranscribed := (transcribed_iff_residue hwhole hmodel).mp fun w hw ↦ (hall w hw).1
  rw [hresidue] at htranscribed
  exact absurd htranscribed (by decide)

end BibiCore.Stt
