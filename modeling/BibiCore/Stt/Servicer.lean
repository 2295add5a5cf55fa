import BibiCore.Base.Traverse
import BibiCore.Base.Windowing
import BibiCore.Proto
import BibiCore.Stt.Engine

/-!
# `StreamTranscribe`

`stt/pb_convert.py` and `stt/grpc_servicer.py`. A call is a list of requests, the events it
yields are the result. What the loop does is stated against the windows that `cut` makes of the
received chunks.
-/

namespace BibiCore.Stt

open Windowing

/-- `chunk_from_proto`, `stt/pb_convert.py:11`. -/
def chunkFromProto (msg : Proto.SttAudioChunkMsg) : AudioChunk :=
  ⟨msg.data, msg.sampleRate, msg.channels, msg.sampleWidth⟩

/-- `segment_to_proto`, `stt/pb_convert.py:20`. -/
def segmentToProto (seg : TranscriptSegment) : Except STTError Proto.TranscriptSegmentMsg := do
  let startMs ← Proto.int32 .other seg.startMs
  let endMs ← Proto.int32 .other seg.endMs
  return ⟨startMs, endMs, seg.text, seg.score.map (·.toFloat32)⟩

/-- `transcript_to_event`, `stt/pb_convert.py:31`. -/
def transcriptToEvent (transcript : Transcript) (eventType : Proto.TranscriptEventType) :
    Except STTError Proto.TranscriptEvent := do
  let segments ← transcript.segments.mapM segmentToProto
  return ⟨eventType, segments, transcript.lang, "", ""⟩

/-- `error_event`, `stt/pb_convert.py:44`. -/
def errorEvent (code message : String) : Proto.TranscriptEvent :=
  ⟨.errorEvent, [], none, code, message⟩

/-- A message of the request iterator, and whether the context is cancelled when it arrives. -/
structure Request where
  msg : Proto.SttAudioChunkMsg
  cancelled : Bool

/-- Messages of a call that the client does not cancel. -/
def received (msgs : List Proto.SttAudioChunkMsg) : List Request := msgs.map fun msg ↦ ⟨msg, false⟩

/-- `WINDOW_SECONDS`, `stt/grpc_servicer.py:22`. -/
def windowSeconds : ℚ := 5

section

variable (interp : Interpolation) (engine : STTEngine)

/-- What is done with a full buffer: `prepare_audio`, then `engine.transcribe`. -/
def transcribeWindow (buffer : List AudioChunk) : Except STTError Transcript := do
  let prepared ← prepareAudio interp engine buffer
  engine.transcribe prepared

/-- The event that a full buffer is answered with. -/
def answerWindow (buffer : List AudioChunk) (eventType : Proto.TranscriptEventType) :
    Except STTError Proto.TranscriptEvent := do
  let transcript ← transcribeWindow interp engine buffer
  transcriptToEvent transcript eventType

/-- What one pass of the `async for` body comes to. -/
inductive Pass where
  | returned (event : Option Proto.TranscriptEvent)
  | raised (error : STTError)
  | continued (event : Option Proto.TranscriptEvent) (buffer : List AudioChunk)
  deriving DecidableEq

/-- The body of the `async for`, `stt/grpc_servicer.py:31`. -/
def receive (buffer : List AudioChunk) (request : Request) : Pass :=
  if request.cancelled then .returned none
  else
    let msg := request.msg
    let buffer := buffer ++ [chunkFromProto msg]
    match calculateDuration buffer with
    | .error error => .raised error
    | .ok duration =>
      if (windowSeconds ≤ duration ∨ msg.endOfUtterance) ∧ buffer ≠ [] then
        let eventType := if msg.endOfUtterance then .finalEvent else .partialEvent
        match answerWindow interp engine buffer eventType with
        | .error error => .raised error
        | .ok event =>
          if msg.endOfUtterance then .returned (some event) else .continued (some event) []
      else if msg.endOfUtterance then .returned none
      else .continued none buffer

/-- The `async for`: the events it yields and the exception that ends it, if one does. -/
def receiveAll (buffer : List AudioChunk) :
    List Request → List Proto.TranscriptEvent × Option STTError
  | [] => ([], none)
  | request :: requests =>
    match receive interp engine buffer request with
    | .returned event => (event.toList, none)
    | .raised error => ([], some error)
    | .continued event buffer =>
      (event.toList ++ (receiveAll buffer requests).1, (receiveAll buffer requests).2)

/-- `StreamTranscribe`, `stt/grpc_servicer.py:26`, from what `acquire_engine` yields or
raises: every exception ends it with one error event. -/
def streamTranscribe (acquired : Except STTError STTEngine) (requests : List Request) :
    List Proto.TranscriptEvent :=
  match acquired with
  | .error error => [errorEvent error.code error.message]
  | .ok engine =>
    let result := receiveAll interp engine [] requests
    result.1 ++ (result.2.map fun error ↦ errorEvent error.code error.message).toList

end

/-- The window threshold has been reached. -/
def windowFull (buffer : List AudioChunk) : Bool :=
  match calculateDuration buffer with
  | .ok duration => decide (windowSeconds ≤ duration)
  | .error _ => false

/-- The windows that filled up while the chunks arrived. -/
def filledWindows (chunks : List Proto.SttAudioChunkMsg) : List (List AudioChunk) :=
  (cut windowFull [] (chunks.map chunkFromProto)).1

/-- The window that the end marker closes. -/
def lastWindow (chunks : List Proto.SttAudioChunkMsg) (marker : Proto.SttAudioChunkMsg) :
    List AudioChunk :=
  (cut windowFull [] (chunks.map chunkFromProto)).2 ++ [chunkFromProto marker]

/-- The windows that the utterance is cut into. -/
def windows (chunks : List Proto.SttAudioChunkMsg) (marker : Proto.SttAudioChunkMsg) :
    List (List AudioChunk) :=
  filledWindows chunks ++ [lastWindow chunks marker]

/-- The windows are the utterance, cut: no chunk is lost, repeated or moved. -/
theorem flatten_windows (chunks : List Proto.SttAudioChunkMsg) (marker : Proto.SttAudioChunkMsg) :
    (windows chunks marker).flatten = (chunks ++ [marker]).map chunkFromProto := by
  rw [List.map_append, List.map_singleton]
  exact flatten_cutEnd _ _

/-- The transcript of a window, empty where there is none. -/
def windowTranscript (interp : Interpolation) (engine : STTEngine) (window : List AudioChunk) :
    Transcript :=
  (transcribeWindow interp engine window).toOption.getD ⟨[], none⟩

/-- The answer to the end marker; the last window is measured first like every other. -/
def answerLast (interp : Interpolation) (engine : STTEngine) (window : List AudioChunk) :
    Except STTError Proto.TranscriptEvent := do
  let _ ← calculateDuration window
  answerWindow interp engine window .finalEvent

/-- The events of an utterance: one for each window that fills and one for the last window, or an
error event instead of the first that cannot be made. -/
def utteranceEvents (interp : Interpolation) (engine : STTEngine) (last : List AudioChunk) :
    List (List AudioChunk) → List Proto.TranscriptEvent
  | [] =>
    match answerLast interp engine last with
    | .ok event => [event]
    | .error error => [errorEvent error.code error.message]
  | window :: windows =>
    match answerWindow interp engine window .partialEvent with
    | .ok event => event :: utteranceEvents interp engine last windows
    | .error error => [errorEvent error.code error.message]

/-! ### The events -/

/-- The times of a segment fit their fields. -/
def TranscriptSegment.InRange (seg : TranscriptSegment) : Prop :=
  Proto.FitsInt32 seg.startMs ∧ Proto.FitsInt32 seg.endMs

instance (seg : TranscriptSegment) : Decidable seg.InRange :=
  inferInstanceAs (Decidable (_ ∧ _))

/-- The times of every segment do. -/
def Transcript.InRange (transcript : Transcript) : Prop :=
  ∀ seg ∈ transcript.segments, seg.InRange

instance (transcript : Transcript) : Decidable transcript.InRange :=
  inferInstanceAs (Decidable (∀ _ ∈ _, _))

/-- A segment whose times fit has a message. -/
theorem segmentToProto_of_inRange {seg : TranscriptSegment} (h : seg.InRange) :
    segmentToProto seg =
      .ok ⟨seg.startMs, seg.endMs, seg.text, seg.score.map (·.toFloat32)⟩ := by
  simp [segmentToProto, Proto.int32, h.1, h.2, bind, Except.bind, pure, Except.pure]

/-- Any other raises `ValueError`. -/
theorem segmentToProto_of_not_inRange {seg : TranscriptSegment} (h : ¬ seg.InRange) :
    ∃ message, segmentToProto seg = .error (.other message) := by
  by_cases hs : Proto.FitsInt32 seg.startMs
  · have he : ¬ Proto.FitsInt32 seg.endMs := fun he ↦ h ⟨hs, he⟩
    exact ⟨s!"Value out of range: {seg.endMs}", by
      simp [segmentToProto, Proto.int32, hs, he, bind, Except.bind]⟩
  · exact ⟨s!"Value out of range: {seg.startMs}", by
      simp [segmentToProto, Proto.int32, hs, bind, Except.bind]⟩

/-- The message has the segment's text. -/
theorem text_of_segmentToProto {seg : TranscriptSegment} {msg : Proto.TranscriptSegmentMsg}
    (h : segmentToProto seg = .ok msg) : msg.text = seg.text := by
  by_cases hr : seg.InRange
  · rw [segmentToProto_of_inRange hr] at h
    obtain rfl := Except.ok.inj h
    rfl
  · obtain ⟨message, hm⟩ := segmentToProto_of_not_inRange hr
    rw [hm] at h
    cases h

/-- A transcript is made into an event when all its times fit. -/
theorem exists_transcriptToEvent_iff {transcript : Transcript}
    {eventType : Proto.TranscriptEventType} :
    (∃ event, transcriptToEvent transcript eventType = .ok event) ↔ transcript.InRange := by
  have hsegment (seg : TranscriptSegment) :
      (∃ msg, segmentToProto seg = .ok msg) ↔ seg.InRange := by
    refine ⟨fun ⟨msg, hm⟩ ↦ ?_, fun h ↦ ⟨_, segmentToProto_of_inRange h⟩⟩
    by_contra h
    obtain ⟨message, he⟩ := segmentToProto_of_not_inRange h
    rw [he] at hm
    cases hm
  simp only [Transcript.InRange, ← hsegment, ← List.exists_mapM_eq_ok_iff]
  unfold transcriptToEvent
  cases transcript.segments.mapM segmentToProto <;> simp [bind, Except.bind, pure, Except.pure]

/-- The event has the type and the texts. -/
theorem of_transcriptToEvent {transcript : Transcript} {eventType : Proto.TranscriptEventType}
    {event : Proto.TranscriptEvent} (h : transcriptToEvent transcript eventType = .ok event) :
    event.type = eventType ∧
      event.segments.map (·.text) = transcript.segments.map (·.text) := by
  unfold transcriptToEvent at h
  cases hm : transcript.segments.mapM segmentToProto with
  | error error =>
    rw [hm] at h
    cases h
  | ok segments =>
    rw [hm] at h
    obtain rfl := Except.ok.inj h
    exact ⟨rfl, List.map_eq_of_mapM (fun _ _ ↦ text_of_segmentToProto) hm⟩

/-- A full window has a duration. -/
theorem windowFull_iff {buffer : List AudioChunk} :
    windowFull buffer = true ↔
      ∃ duration, calculateDuration buffer = .ok duration ∧ windowSeconds ≤ duration := by
  unfold windowFull
  cases calculateDuration buffer <;> simp

variable {interp : Interpolation} {engine : STTEngine} {buffer : List AudioChunk}
  {msg : Proto.SttAudioChunkMsg}

/-! ### The answer to a window -/

/-- A window is answered when it is transcribed with times that fit. -/
theorem exists_answerWindow_iff {eventType : Proto.TranscriptEventType} :
    (∃ event, answerWindow interp engine buffer eventType = .ok event) ↔
      (∃ transcript, transcribeWindow interp engine buffer = .ok transcript) ∧
        (windowTranscript interp engine buffer).InRange := by
  unfold answerWindow windowTranscript
  cases transcribeWindow interp engine buffer with
  | error error => simp [bind, Except.bind]
  | ok transcript =>
    show (∃ event, transcriptToEvent transcript eventType = .ok event) ↔ _
    simp [exists_transcriptToEvent_iff, Except.toOption]

/-- The event is made of the window's transcript. -/
theorem of_answerWindow {eventType : Proto.TranscriptEventType} {event : Proto.TranscriptEvent}
    (h : answerWindow interp engine buffer eventType = .ok event) :
    event.type = eventType ∧ event.segments.map (·.text) =
      (windowTranscript interp engine buffer).segments.map (·.text) := by
  unfold answerWindow at h
  cases ht : transcribeWindow interp engine buffer with
  | error error =>
    rw [ht] at h
    cases h
  | ok transcript =>
    rw [ht] at h
    rw [windowTranscript, ht]
    exact of_transcriptToEvent h

/-- The end marker is answered when the last window is, and can be measured. -/
theorem answerLast_eq (interp : Interpolation) (engine : STTEngine) (window : List AudioChunk) :
    answerLast interp engine window =
      if Measurable window then answerWindow interp engine window .finalEvent
      else .error (.other "division by zero") := by
  unfold answerLast
  by_cases hm : Measurable window
  · obtain ⟨duration, hd⟩ := hm.calculateDuration
    rw [hd, if_pos hm]
    rfl
  · rw [calculateDuration_of_not_measurable hm, if_neg hm]
    rfl

/-! ### One message -/

/-- A chunk that fills the window has it answered. -/
theorem receive_of_full (hmsg : msg.endOfUtterance = false)
    (hfull : windowFull (buffer ++ [chunkFromProto msg]) = true) :
    receive interp engine buffer ⟨msg, false⟩ =
      match answerWindow interp engine (buffer ++ [chunkFromProto msg]) .partialEvent with
      | .ok event => .continued (some event) []
      | .error error => .raised error := by
  obtain ⟨duration, hd, hle⟩ := windowFull_iff.mp hfull
  cases ha : answerWindow interp engine (buffer ++ [chunkFromProto msg]) .partialEvent <;>
    simp [receive, hd, hle, hmsg, ha]

/-- Any other chunk waits in the buffer. -/
theorem receive_of_not_full (hmsg : msg.endOfUtterance = false)
    (hm : Measurable (buffer ++ [chunkFromProto msg]))
    (hfull : windowFull (buffer ++ [chunkFromProto msg]) = false) :
    receive interp engine buffer ⟨msg, false⟩ =
      .continued none (buffer ++ [chunkFromProto msg]) := by
  obtain ⟨duration, hd⟩ := hm.calculateDuration
  have hlt : ¬ windowSeconds ≤ duration := by
    intro hle
    rw [windowFull_iff.mpr ⟨duration, hd, hle⟩] at hfull
    cases hfull
  simp [receive, hd, hlt, hmsg]

/-- A chunk after which no duration can be computed ends the call. -/
theorem receive_of_not_measurable (hm : ¬ Measurable (buffer ++ [chunkFromProto msg])) :
    receive interp engine buffer ⟨msg, false⟩ = .raised (.other "division by zero") := by
  simp [receive, calculateDuration_of_not_measurable hm]

/-- The end marker closes the last window. -/
theorem receive_marker (hmsg : msg.endOfUtterance = true) :
    receive interp engine buffer ⟨msg, false⟩ =
      match answerLast interp engine (buffer ++ [chunkFromProto msg]) with
      | .ok event => .returned (some event)
      | .error error => .raised error := by
  cases hd : calculateDuration (buffer ++ [chunkFromProto msg]) with
  | error error => simp [receive, answerLast, hd, bind, Except.bind]
  | ok duration =>
    cases ha : answerWindow interp engine (buffer ++ [chunkFromProto msg]) .finalEvent <;>
      simp [receive, answerLast, hd, ha, hmsg, bind, Except.bind]

/-- A window that cannot be measured never fills. -/
theorem windowFull_of_not_measurable (hm : ¬ Measurable buffer) : windowFull buffer = false := by
  simp [windowFull, calculateDuration_of_not_measurable hm]

/-! ### The utterance -/

/-- The loop over the chunks and the end marker, from any buffer on. -/
theorem receiveAll_utterance {chunks : List Proto.SttAudioChunkMsg}
    {marker : Proto.SttAudioChunkMsg} (hchunks : ∀ c ∈ chunks, c.endOfUtterance = false)
    (hmarker : marker.endOfUtterance = true) (buffer : List AudioChunk) :
    (receiveAll interp engine buffer (received (chunks ++ [marker]))).1 ++
        ((receiveAll interp engine buffer (received (chunks ++ [marker]))).2.map
          fun error ↦ errorEvent error.code error.message).toList =
      utteranceEvents interp engine
        ((cut windowFull buffer (chunks.map chunkFromProto)).2 ++ [chunkFromProto marker])
        (cut windowFull buffer (chunks.map chunkFromProto)).1 := by
  induction chunks generalizing buffer with
  | nil =>
    show (receiveAll interp engine buffer [⟨marker, false⟩]).1 ++ _ = _
    rw [List.map_nil, cut_nil, utteranceEvents, List.nil_append, received, List.map_singleton,
      receiveAll, receive_marker hmarker]
    cases answerLast interp engine (buffer ++ [chunkFromProto marker]) <;> rfl
  | cons c chunks ih =>
    obtain ⟨hc, hcs⟩ := List.forall_mem_cons.mp hchunks
    have hcons : received (c :: chunks ++ [marker]) =
        ⟨c, false⟩ :: received (chunks ++ [marker]) := rfl
    rw [List.map_cons, hcons, receiveAll]
    by_cases hm : Measurable (buffer ++ [chunkFromProto c])
    · cases hfull : windowFull (buffer ++ [chunkFromProto c]) with
      | true =>
        rw [cut_cons_of_full hfull, receive_of_full hc hfull, utteranceEvents]
        cases answerWindow interp engine (buffer ++ [chunkFromProto c]) .partialEvent with
        | ok event => simp [← ih hcs]
        | error error => rfl
      | false =>
        rw [cut_cons_of_not_full hfull, receive_of_not_full hc hm hfull, ← ih hcs]
        rfl
    · -- no window fills any more, and the last one cannot be measured either
      have hne : buffer ++ [chunkFromProto c] ≠ [] := by simp
      have hnever : ∀ xs, ¬ Measurable (buffer ++ [chunkFromProto c] ++ xs) := fun xs ↦
        mt (measurable_append hne).mp hm
      have hfull := windowFull_of_not_measurable hm
      rw [cut_cons_of_not_full hfull,
        cut_of_never_full fun xs ↦ windowFull_of_not_measurable (hnever xs), utteranceEvents,
        answerLast_eq, List.append_assoc (buffer ++ _), if_neg (hnever _),
        receive_of_not_measurable hm]
      rfl

/-- A whole utterance: what its windows and its end marker are answered with. -/
theorem streamTranscribe_utterance {chunks : List Proto.SttAudioChunkMsg}
    {marker : Proto.SttAudioChunkMsg} (hchunks : ∀ c ∈ chunks, c.endOfUtterance = false)
    (hmarker : marker.endOfUtterance = true) :
    streamTranscribe interp (.ok engine) (received (chunks ++ [marker])) =
      utteranceEvents interp engine (lastWindow chunks marker) (filledWindows chunks) :=
  receiveAll_utterance hchunks hmarker []

/-- When all windows are answered, the events are their answers. -/
theorem utteranceEvents_of_answered {last : List AudioChunk} {windows : List (List AudioChunk)}
    (hwindows : ∀ w ∈ windows, ∃ event, answerWindow interp engine w .partialEvent = .ok event)
    {event : Proto.TranscriptEvent} (hlast : answerLast interp engine last = .ok event) :
    ∃ partials, utteranceEvents interp engine last windows = partials ++ [event] ∧
      ∀ e ∈ partials, e.type = .partialEvent := by
  induction windows with
  | nil => exact ⟨[], by simp [utteranceEvents, hlast], by simp⟩
  | cons w windows ih =>
    obtain ⟨⟨first, hw⟩, hws⟩ := List.forall_mem_cons.mp hwindows
    obtain ⟨partials, hall, htypes⟩ := ih hws
    exact ⟨first :: partials, by simp [utteranceEvents, hw, hall],
      List.forall_mem_cons.mpr ⟨(of_answerWindow hw).1, htypes⟩⟩

/-- Otherwise an error event ends them. -/
theorem utteranceEvents_of_not_answered {last : List AudioChunk}
    {windows : List (List AudioChunk)}
    (h : ¬ ((∀ w ∈ windows, ∃ event, answerWindow interp engine w .partialEvent = .ok event) ∧
      ∃ event, answerLast interp engine last = .ok event)) :
    ∃ (partials : List Proto.TranscriptEvent) (error : STTError),
      utteranceEvents interp engine last windows =
          partials ++ [errorEvent error.code error.message] ∧
        ∀ e ∈ partials, e.type = .partialEvent := by
  induction windows with
  | nil =>
    cases hl : answerLast interp engine last with
    | ok event => exact absurd ⟨by simp, event, hl⟩ h
    | error error => exact ⟨[], error, by simp [utteranceEvents, hl], by simp⟩
  | cons w windows ih =>
    cases hw : answerWindow interp engine w .partialEvent with
    | error error => exact ⟨[], error, by simp [utteranceEvents, hw], by simp⟩
    | ok first =>
      obtain ⟨partials, error, hall, htypes⟩ := ih fun hn ↦
        h ⟨List.forall_mem_cons.mpr ⟨⟨first, hw⟩, hn.1⟩, hn.2⟩
      exact ⟨first :: partials, error, by simp [utteranceEvents, hw, hall],
        List.forall_mem_cons.mpr ⟨(of_answerWindow hw).1, htypes⟩⟩

end BibiCore.Stt
