import BibiCore.Stt.Finals
import BibiCore.Stt.Windows

/-!
# How the audio is cut into messages

`WhisperCppEngine` joins the chunks of a window before it decodes them, so that a sample may be
split between two of its messages. `StreamTranscribe` closes its windows between messages wherever
five seconds are reached, and a window of an odd number of bytes cannot be decoded.
-/

namespace BibiCore.Stt

open Windowing WhisperCpp

/-- The float32 samples of 16-bit PCM. -/
def decode (bytes : List UInt8) : List ℚ :=
  (int16sOfBytes bytes).map fun s ↦ (s.toInt : ℚ) / 32768

/-- The samples on which the native model is called for a window, if it is called. -/
def samplesFor (interp : Interpolation) (model : Model) (window : List AudioChunk) :
    Except STTError (List ℚ) := do
  let prepared ← prepareAudio interp (WhisperCpp.engine model) window
  convertAudio prepared

/-- Everything `StreamTranscribe` hands to the native model, concatenated over its windows. -/
def handed (interp : Interpolation) (model : Model) (windows : List (List Proto.SttAudioChunkMsg)) :
    List ℚ :=
  windows.flatMap fun window ↦ (samplesFor interp model (windowChunks window)).toOption.getD []

/-- The messages carry the bytes as 16 kHz mono 16-bit PCM: the last one that is not empty, and
none before it, ends the utterance. -/
structure Carries (bytes : List UInt8) (before : List Proto.SttAudioChunkMsg)
    (last : Proto.SttAudioChunkMsg) (after : List Proto.SttAudioChunkMsg) : Prop where
  format : ∀ msg ∈ before ++ last :: after, (chunkFromProto msg).format = requiredFormat
  bytes : (before ++ last :: after).flatMap (·.data) = bytes
  unmarked : ∀ msg ∈ before, msg.endOfUtterance = false
  marked : last.endOfUtterance = true
  last : last.data ≠ []
  after : ∀ msg ∈ after, msg.data = []

/-- The sizes of the windows that `StreamTranscribe` closes, with `pending` bytes in the buffer and
messages of these sizes to come: each window that reaches five seconds, 160000 bytes, and the
rest. -/
def windowSizes (pending : Nat) : List Nat → List Nat
  | [] => [pending]
  | size :: sizes =>
    if 160000 ≤ pending + size then (pending + size) :: windowSizes 0 sizes
    else windowSizes (pending + size) sizes

/-- Every window has an even number of bytes. -/
def WindowsEven (pending : Nat) (sizes : List Nat) : Prop :=
  ∀ size ∈ windowSizes pending sizes, size % 2 = 0

instance (pending : Nat) (sizes : List Nat) : Decidable (WindowsEven pending sizes) :=
  inferInstanceAs (Decidable (∀ _ ∈ _, _))

/-! ### Even windows -/

/-- Without further messages the pending bytes are to be even. -/
@[simp] theorem windowsEven_nil {pending : Nat} : WindowsEven pending [] ↔ pending % 2 = 0 := by
  simp [WindowsEven, windowSizes]

/-- A message that completes a window. -/
theorem windowsEven_cons_of_full {pending size : Nat} {sizes : List Nat}
    (h : 160000 ≤ pending + size) : WindowsEven pending (size :: sizes) ↔
      (pending + size) % 2 = 0 ∧ WindowsEven 0 sizes := by
  simp [WindowsEven, windowSizes, h]

/-- Any other message. -/
theorem windowsEven_cons_of_not_full {pending size : Nat} {sizes : List Nat}
    (h : ¬ 160000 ≤ pending + size) :
    WindowsEven pending (size :: sizes) ↔ WindowsEven (pending + size) sizes := by
  simp [WindowsEven, windowSizes, h]

/-- The last message completes one window at any rate. -/
theorem windowsEven_singleton {pending size : Nat} :
    WindowsEven pending [size] ↔ (pending + size) % 2 = 0 := by
  by_cases h : 160000 ≤ pending + size
  · simp [windowsEven_cons_of_full h]
  · simp [windowsEven_cons_of_not_full h]

/-! ### Decoding -/

private theorem length_decode (bytes : List UInt8) : (decode bytes).length = bytes.length / 2 := by
  rw [decode, List.length_map, length_int16sOfBytes]

/-- Behind whole samples, bytes are decoded as they are alone. -/
theorem decode_append {bytes : List UInt8} (heven : bytes.length % 2 = 0) (more : List UInt8) :
    decode (bytes ++ more) = decode bytes ++ decode more := by
  rw [decode, int16sOfBytes_append heven, List.map_append]
  rfl

/-- `np.frombuffer` decodes an even number of bytes. -/
theorem pcmToFloat32_of_even {pcm : List UInt8} (heven : pcm.length % 2 = 0) :
    pcmToFloat32 pcm = .ok (decode pcm) := by
  rw [pcmToFloat32, frombuffer, if_pos heven]
  rfl

/-- It refuses an odd one. -/
theorem pcmToFloat32_of_odd {pcm : List UInt8} (hodd : pcm.length % 2 ≠ 0) :
    pcmToFloat32 pcm = .error (.other "buffer size must be a multiple of element size") := by
  rw [pcmToFloat32, frombuffer, if_neg hodd]
  rfl

/-! ### One window -/

/-- The bytes of a window. -/
def windowBytes (window : List Proto.SttAudioChunkMsg) : List UInt8 := window.flatMap (·.data)

/-- Every message is 16 kHz mono 16-bit PCM. -/
def Formatted (window : List Proto.SttAudioChunkMsg) : Prop :=
  ∀ msg ∈ window, (chunkFromProto msg).format = requiredFormat

variable {interp : Interpolation} {model : Model} {call : Nat}
  {window pending : List Proto.SttAudioChunkMsg} {msg : Proto.SttAudioChunkMsg}

private theorem flatMap_windowChunks (window : List Proto.SttAudioChunkMsg) :
    (windowChunks window).flatMap (·.data) = windowBytes window := by
  rw [windowChunks, List.flatMap_map]
  rfl

/-- The bytes of two windows in a row. -/
@[simp] theorem windowBytes_append (window window' : List Proto.SttAudioChunkMsg) :
    windowBytes (window ++ window') = windowBytes window ++ windowBytes window' :=
  List.flatMap_append

/-- The bytes of a window of one message. -/
@[simp] theorem windowBytes_singleton : windowBytes [msg] = msg.data := by simp [windowBytes]

private theorem formats_windowChunks (hf : Formatted window) :
    ∀ chunk ∈ windowChunks window, chunk.format = requiredFormat := by
  intro chunk hc
  obtain ⟨msg, hm, rfl⟩ := List.mem_map.mp hc
  exact hf msg hm

private theorem positive_of_formatted (hf : Formatted window) :
    ∀ msg ∈ window, PositiveFormat msg := by
  intro msg hm
  have h := hf msg hm
  simp only [AudioChunk.format, chunkFromProto, requiredFormat, AudioFormatSpec.mk.injEq] at h
  unfold PositiveFormat
  omega

/-- A window is transcribed by one call of the model on its samples. -/
theorem transcribeWindow_eq (window : List AudioChunk) :
    transcribeWindow interp (WhisperCpp.engine model) window =
      (samplesFor interp model window).bind fun samples ↦ (model samples).map toTranscript := by
  unfold transcribeWindow samplesFor
  cases prepareAudio interp (WhisperCpp.engine model) window with
  | error error => rfl
  | ok prepared =>
    show WhisperCpp.transcribe model prepared = (convertAudio prepared).bind _
    cases hs : convertAudio prepared with
    | error error =>
      rw [WhisperCpp.transcribe, hs]
      rfl
    | ok samples => exact transcribe_of_samples hs

private theorem samplesFor_of_formatted (hf : Formatted window) (hne : windowBytes window ≠ []) :
    samplesFor interp model (windowChunks window) = pcmToFloat32 (windowBytes window) := by
  have hformats := formats_windowChunks hf
  have hprepared : prepareAudio interp (WhisperCpp.engine model) (windowChunks window) =
      .ok (windowChunks window) := convertChunks_of_format hformats
  have hconvert := convertAudio_of_format hformats
  rw [flatMap_windowChunks, if_neg hne] at hconvert
  rw [samplesFor, hprepared]
  exact hconvert

/-- An even number of bytes reaches the model, decoded. -/
theorem samplesFor_of_even (hf : Formatted window) (hne : windowBytes window ≠ [])
    (heven : (windowBytes window).length % 2 = 0) :
    samplesFor interp model (windowChunks window) = .ok (decode (windowBytes window)) := by
  rw [samplesFor_of_formatted hf hne, pcmToFloat32_of_even heven]

/-- An odd number of bytes does not reach it. -/
theorem samplesFor_of_odd (hf : Formatted window) (hodd : (windowBytes window).length % 2 ≠ 0) :
    samplesFor interp model (windowChunks window) =
      .error (.other "buffer size must be a multiple of element size") := by
  have hne : windowBytes window ≠ [] := by
    intro h
    simp [h] at hodd
  rw [samplesFor_of_formatted hf hne, pcmToFloat32_of_odd hodd]

/-- Five seconds are 160000 bytes. -/
theorem reachesWindow_iff (hf : Formatted window) :
    reachesWindow window = true ↔ 160000 ≤ (windowBytes window).length := by
  rw [reachesWindow, windowFull_of_format (formats_windowChunks hf), ← length_flatMap_data,
    flatMap_windowChunks]

/-- A window is handed over when it has five seconds or ends the utterance. -/
theorem handsOver_iff (hf : Formatted window) : handsOver window = true ↔
    160000 ≤ (windowBytes window).length ∨ endsUtterance window = true := by
  rw [handsOver_eq (measurable_of_positive (positive_of_formatted hf)), Bool.or_eq_true,
    reachesWindow_iff hf]

/-- With a model that answers, the call stops with a window that ends the utterance, has an odd
number of bytes or is transcribed with times that do not fit. -/
theorem stops_iff (hmodel : ∀ samples, ∃ segments, model samples = .ok segments)
    (hf : Formatted window) (hne : windowBytes window ≠ []) :
    Stops interp (fun _ ↦ WhisperCpp.engine model) call window ↔
      endsUtterance window = true ∨ ¬ ((windowBytes window).length % 2 = 0 ∧
        (windowTranscript interp (WhisperCpp.engine model) (windowChunks window)).InRange) := by
  have htranscribed : (∃ t, transcribeWindow interp (WhisperCpp.engine model)
      (windowChunks window) = .ok t) ↔ (windowBytes window).length % 2 = 0 := by
    rw [transcribeWindow_eq]
    by_cases heven : (windowBytes window).length % 2 = 0
    · obtain ⟨segments, hm⟩ := hmodel (decode (windowBytes window))
      rw [samplesFor_of_even hf hne heven]
      refine iff_of_true ⟨toTranscript segments, ?_⟩ heven
      show (model (decode (windowBytes window))).map toTranscript = _
      rw [hm]
      rfl
    · rw [samplesFor_of_odd hf heven]
      simp [heven, Except.bind]
  have hraises (answer : Except STTError Proto.TranscriptEvent) :
      (∃ error, answer = .error error) ↔ ¬ ∃ event, answer = .ok event := by
    cases answer <;> simp
  rw [Stops, hraises, windowAnswer, exists_answerWindow_iff, htranscribed]

/-! ### All windows -/

/-- The call of `StreamTranscribe` with the whisper engine. -/
def whisperTranscription (interp : Interpolation) (model : Model) (call : Nat)
    (pending msgs : List Proto.SttAudioChunkMsg) : Transcription :=
  transcription interp (fun _ ↦ WhisperCpp.engine model) call pending msgs

/-- Without windows nothing is handed over. -/
@[simp] theorem handed_nil : handed interp model [] = [] := rfl

/-- An even window hands its samples over before the later windows theirs. -/
theorem handed_cons_of_even {windows : List (List Proto.SttAudioChunkMsg)} (hf : Formatted window)
    (hne : windowBytes window ≠ []) (heven : (windowBytes window).length % 2 = 0) :
    handed interp model (window :: windows) =
      decode (windowBytes window) ++ handed interp model windows := by
  rw [handed, List.flatMap_cons, samplesFor_of_even hf hne heven]
  rfl

/-- An odd window hands nothing over. -/
theorem handed_singleton_of_odd (hf : Formatted window)
    (hodd : (windowBytes window).length % 2 ≠ 0) : handed interp model [window] = [] := by
  rw [handed, List.flatMap_cons, samplesFor_of_odd hf hodd]
  rfl

/-- The times of the transcripts of the windows that fill up fit, with `pending` in the buffer and
these messages to come. -/
def FilledInRange (interp : Interpolation) (model : Model)
    (pending before : List Proto.SttAudioChunkMsg) : Prop :=
  ∀ w ∈ (cut windowFull (windowChunks pending) (before.map chunkFromProto)).1,
    (windowTranscript interp (WhisperCpp.engine model) w).InRange

private theorem filledInRange_cons_of_full {before : List Proto.SttAudioChunkMsg}
    (h : reachesWindow (pending ++ [msg]) = true) :
    FilledInRange interp model pending (msg :: before) ↔
      (windowTranscript interp (WhisperCpp.engine model)
          (windowChunks (pending ++ [msg]))).InRange ∧ FilledInRange interp model [] before := by
  rw [reachesWindow, windowChunks_concat] at h
  rw [windowChunks_concat, FilledInRange, List.map_cons, cut_cons_of_full h, List.forall_mem_cons]
  rfl

private theorem filledInRange_cons_of_not_full {before : List Proto.SttAudioChunkMsg}
    (h : reachesWindow (pending ++ [msg]) = false) :
    FilledInRange interp model pending (msg :: before) ↔
      FilledInRange interp model (pending ++ [msg]) before := by
  rw [reachesWindow, windowChunks_concat] at h
  rw [FilledInRange, List.map_cons, cut_cons_of_not_full h, FilledInRange, windowChunks_concat]

/-- What a call hands over: the decoding of its bytes under this condition, and otherwise less than
it. -/
def HandsOverAll (condition : Prop) (samples : List ℚ) (bytes : List UInt8) : Prop :=
  (condition → samples = decode bytes) ∧ (¬ condition → samples.length * 2 < bytes.length)

private theorem HandsOverAll.append {condition : Prop} {samples : List ℚ}
    {bytes more : List UInt8} (heven : bytes.length % 2 = 0)
    (h : HandsOverAll condition samples more) :
    HandsOverAll condition (decode bytes ++ samples) (bytes ++ more) := by
  refine ⟨fun hc ↦ ?_, fun hn ↦ ?_⟩
  · rw [decode_append heven, h.1 hc]
  · have hlt := h.2 hn
    rw [List.length_append, List.length_append, length_decode]
    omega

private theorem handsOverAll_last (hmodel : ∀ samples, ∃ segments, model samples = .ok segments)
    (hf : Formatted (pending ++ [msg])) (hmarked : msg.endOfUtterance = true) (hne : msg.data ≠ [])
    (after : List Proto.SttAudioChunkMsg) :
    HandsOverAll (WindowsEven (windowBytes pending).length [msg.data.length])
      (handed interp model (whisperTranscription interp model call pending (msg :: after)).windows)
      (windowBytes (pending ++ [msg])) := by
  have hm := measurable_of_positive (positive_of_formatted hf)
  have hh : handsOver (pending ++ [msg]) = true := (handsOver_iff hf).mpr (.inr (by simp [hmarked]))
  have hbytes : windowBytes (pending ++ [msg]) ≠ [] := by simp [hne]
  have hs : Stops interp (fun _ ↦ WhisperCpp.engine model) call (pending ++ [msg]) :=
    (stops_iff hmodel hf hbytes).mpr (.inl (by simp [hmarked]))
  have hlen : (windowBytes (pending ++ [msg])).length =
      (windowBytes pending).length + msg.data.length := by simp
  rw [whisperTranscription, transcription_cons_of_stops hm hh hs, HandsOverAll,
    windowsEven_singleton, ← hlen]
  refine ⟨fun heven ↦ ?_, fun hodd ↦ ?_⟩
  · rw [handed_cons_of_even hf hbytes heven, handed_nil, List.append_nil]
  · rw [handed_singleton_of_odd hf hodd, List.length_nil]
    omega

private theorem handsOverAll_of_stopped {condition : Prop} (hcondition : ¬ condition)
    (hf : Formatted window) (hne : windowBytes window ≠ []) {more : List UInt8}
    (hmore : more ≠ []) :
    HandsOverAll condition (handed interp model [window]) (windowBytes window ++ more) := by
  have hpos : 0 < more.length := List.length_pos_iff.mpr hmore
  refine ⟨fun hc ↦ absurd hc hcondition, fun _ ↦ ?_⟩
  by_cases heven : (windowBytes window).length % 2 = 0
  · rw [handed_cons_of_even hf hne heven, handed_nil, List.append_nil, length_decode,
      List.length_append]
    omega
  · rw [handed_singleton_of_odd hf heven, List.length_append, List.length_nil]
    omega

private theorem handsOverAll_of_full (hmodel : ∀ samples, ∃ segments, model samples = .ok segments)
    (hf : Formatted (pending ++ [msg])) (hunmarked : msg.endOfUtterance = false)
    (hfull : 160000 ≤ (windowBytes (pending ++ [msg])).length) {condition : Prop}
    {msgs : List Proto.SttAudioChunkMsg} {more : List UInt8} (hmore : more ≠ [])
    (hlater : ∀ call, HandsOverAll condition
      (handed interp model (whisperTranscription interp model call [] msgs).windows) more) :
    HandsOverAll
      (((windowBytes (pending ++ [msg])).length % 2 = 0 ∧
        (windowTranscript interp (WhisperCpp.engine model)
          (windowChunks (pending ++ [msg]))).InRange) ∧ condition)
      (handed interp model (whisperTranscription interp model call pending (msg :: msgs)).windows)
      (windowBytes (pending ++ [msg]) ++ more) := by
  have hm := measurable_of_positive (positive_of_formatted hf)
  have hh := (handsOver_iff hf).mpr (.inl hfull)
  have hbytes : windowBytes (pending ++ [msg]) ≠ [] := by
    intro hnil
    rw [hnil, List.length_nil] at hfull
    omega
  have hstops := @stops_iff interp model call _ hmodel hf hbytes
  rw [endsUtterance_concat, hunmarked] at hstops
  by_cases hgo : (windowBytes (pending ++ [msg])).length % 2 = 0 ∧
      (windowTranscript interp (WhisperCpp.engine model) (windowChunks (pending ++ [msg]))).InRange
  · have hs : ¬ Stops interp (fun _ ↦ WhisperCpp.engine model) call (pending ++ [msg]) := by
      rw [hstops]
      exact not_or_intro (by decide) (not_not_intro hgo)
    rw [whisperTranscription, transcription_cons_of_not_stops hm hh hs,
      handed_cons_of_even hf hbytes hgo.1, and_iff_right hgo]
    exact (hlater (call + 1)).append hgo.1
  · have hs : Stops interp (fun _ ↦ WhisperCpp.engine model) call (pending ++ [msg]) :=
      hstops.mpr (.inr hgo)
    rw [whisperTranscription, transcription_cons_of_stops hm hh hs]
    exact handsOverAll_of_stopped (fun h ↦ hgo h.1) hf hbytes hmore

private theorem handsOverAll_from (hmodel : ∀ samples, ∃ segments, model samples = .ok segments)
    {before : List Proto.SttAudioChunkMsg} (hf : Formatted (pending ++ before ++ [msg]))
    (hunmarked : ∀ m ∈ before, m.endOfUtterance = false) (hmarked : msg.endOfUtterance = true)
    (hne : msg.data ≠ []) (after : List Proto.SttAudioChunkMsg) :
    HandsOverAll
      (WindowsEven (windowBytes pending).length ((before ++ [msg]).map (·.data.length)) ∧
        FilledInRange interp model pending before)
      (handed interp model
        (whisperTranscription interp model call pending (before ++ msg :: after)).windows)
      (windowBytes (pending ++ before ++ [msg])) := by
  induction before generalizing pending call with
  | nil =>
    have hnone : FilledInRange interp model pending [] := fun _ hw ↦ (List.not_mem_nil hw).elim
    rw [List.append_nil] at hf ⊢
    rw [and_iff_left hnone]
    exact handsOverAll_last hmodel hf hmarked hne after
  | cons m before ih =>
    obtain ⟨hum, hun⟩ := List.forall_mem_cons.mp hunmarked
    have hassoc : pending ++ m :: before ++ [msg] = pending ++ [m] ++ before ++ [msg] := by simp
    rw [hassoc] at hf ⊢
    have hfw : Formatted (pending ++ [m]) := fun x hx ↦ hf x (by
      rw [List.append_assoc]
      exact List.mem_append_left _ hx)
    have hlen : (windowBytes (pending ++ [m])).length =
        (windowBytes pending).length + m.data.length := by simp
    have hcons : ((m :: before) ++ [msg]).map (·.data.length) =
        m.data.length :: (before ++ [msg]).map (·.data.length) := rfl
    have hreaches := reachesWindow_iff hfw
    rw [hcons, List.cons_append]
    by_cases hfull : 160000 ≤ (windowBytes (pending ++ [m])).length
    · have hfr : Formatted ([] ++ before ++ [msg]) := fun x hx ↦ hf x (by
        rw [List.append_assoc]
        exact List.mem_append_right _ hx)
      have hsplit : windowBytes (pending ++ [m] ++ before ++ [msg]) =
          windowBytes (pending ++ [m]) ++ windowBytes ([] ++ before ++ [msg]) := by
        simp only [windowBytes_append, List.append_assoc, List.nil_append]
      rw [windowsEven_cons_of_full (hlen ▸ hfull), ← hlen, hsplit,
        filledInRange_cons_of_full (hreaches.mpr hfull), and_and_and_comm]
      exact handsOverAll_of_full hmodel hfw hum hfull (by simp [hne]) fun call ↦ ih hfr hun
    · have hm := measurable_of_positive (positive_of_formatted hfw)
      have hh : handsOver (pending ++ [m]) = false := by
        rw [← Bool.not_eq_true, handsOver_iff hfw, endsUtterance_concat, hum]
        simpa using hfull
      rw [windowsEven_cons_of_not_full (hlen ▸ hfull), ← hlen, whisperTranscription,
        transcription_cons_of_waiting hm hh,
        filledInRange_cons_of_not_full (by rwa [← Bool.not_eq_true, hreaches])]
      exact ih hf hun

private theorem handsOverAll_of_carries {bytes : List UInt8}
    {before after : List Proto.SttAudioChunkMsg} {last : Proto.SttAudioChunkMsg}
    (hmodel : ∀ samples, ∃ segments, model samples = .ok segments)
    (h : Carries bytes before last after) :
    HandsOverAll (WindowsEven 0 ((before ++ [last]).map (·.data.length)) ∧
        FilledInRange interp model [] before)
      (handed interp model
        (whisperTranscription interp model 0 [] (before ++ last :: after)).windows) bytes := by
  have hf : Formatted ([] ++ before ++ [last]) := fun msg hm ↦ h.format msg (by
    rcases List.mem_append.mp hm with hm | hm
    · exact List.mem_append_left _ hm
    · exact List.mem_append_right _ (List.mem_singleton.mp hm ▸ List.mem_cons_self))
  have hbytes : windowBytes ([] ++ before ++ [last]) = bytes := by
    have hafter : windowBytes after = [] := by simpa [windowBytes] using h.after
    have hall : windowBytes (before ++ [last] ++ after) = bytes := by
      rw [List.append_assoc]
      exact h.bytes
    rw [windowBytes_append, hafter, List.append_nil] at hall
    exact hall
  have hrun := @handsOverAll_from interp model 0 [] last hmodel before hf h.unmarked h.marked
    h.last after
  rw [hbytes] at hrun
  exact hrun

/-- For 16 kHz mono 16-bit PCM of whole samples in any messages, and a native model that answers:
the samples handed to the model over all windows of `StreamTranscribe` are the decoding of the
whole audio if and only if every window it closes has an even number of bytes, and the times that
the model gives for each window but the last fit the event's fields. -/
theorem handed_eq_decode_iff (interp : Interpolation) (model : Model)
    (hmodel : ∀ samples, ∃ segments, model samples = .ok segments) (bytes : List UInt8)
    (before : List Proto.SttAudioChunkMsg) (last : Proto.SttAudioChunkMsg)
    (after : List Proto.SttAudioChunkMsg) (h : Carries bytes before last after)
    (heven : bytes.length % 2 = 0) :
    handed interp model
        (whisperTranscription interp model 0 [] (before ++ last :: after)).windows =
      decode bytes ↔ WindowsEven 0 ((before ++ [last]).map (·.data.length)) ∧
        ∀ w ∈ filledWindows before,
          (windowTranscript interp (WhisperCpp.engine model) w).InRange := by
  have hrun := @handsOverAll_of_carries interp model bytes before after last hmodel h
  refine ⟨fun hall ↦ ?_, hrun.1⟩
  by_contra hnot
  have hlt := hrun.2 hnot
  rw [hall, length_decode] at hlt
  omega

/-- A message of the utterance with this audio. -/
def audioMessage (data : List UInt8) : Proto.SttAudioChunkMsg := ⟨data, 16000, 1, 2, false⟩

/-- Audio in two messages, the second of one byte. -/
theorem carries_split (data : List UInt8) (byte : UInt8) :
    Carries (data ++ [byte]) [audioMessage data] (endMarker [byte]) [] where
  format := by simp [audioMessage, endMarker, chunkFromProto, AudioChunk.format, requiredFormat]
  bytes := by simp [audioMessage, endMarker]
  unmarked := by simp [audioMessage]
  marked := rfl
  last := by simp [endMarker]
  after := by simp

/-- One sample in two messages of one byte: the window joins them. -/
theorem handed_eq_decode_iff_split : decode [0, 64] = [1 / 2] ∧
    handed plainSamples noteModel
        (whisperTranscription plainSamples noteModel 0 []
          ([audioMessage [0]] ++ endMarker [64] :: [])).windows = decode [0, 64] :=
  ⟨by decide +kernel, (handed_eq_decode_iff plainSamples noteModel (fun _ ↦ ⟨_, rfl⟩) [0, 64]
    [audioMessage [0]] (endMarker [64]) [] (carries_split [0] 64) (by decide)).mpr
    ⟨by decide, fun w _ ↦ noteModel_inRange w⟩⟩

/-- Five seconds and the first byte of another sample. -/
def oddSeconds : List UInt8 := List.replicate 160001 0

private theorem length_oddSeconds : oddSeconds.length = 160001 := List.length_replicate

/-- The second byte comes in the next message: the first window cannot be decoded, and the model
is handed nothing of the utterance. -/
theorem not_handed_eq_decode :
    Carries (oddSeconds ++ [0]) [audioMessage oddSeconds] (endMarker [0]) [] ∧
    (oddSeconds ++ [0]).length % 2 = 0 ∧
    handed plainSamples noteModel (whisperTranscription plainSamples noteModel 0 []
        ([audioMessage oddSeconds] ++ endMarker [0] :: [])).windows ≠
      decode (oddSeconds ++ [0]) := by
  have hlen : (oddSeconds ++ [0]).length = 160002 := by
    rw [List.length_append, length_oddSeconds]
    rfl
  have hsizes : ([audioMessage oddSeconds] ++ [endMarker [0]]).map (·.data.length) =
      [160001, 1] := congrArg (· :: [1]) length_oddSeconds
  have hodd : ¬ WindowsEven 0 (([audioMessage oddSeconds] ++ [endMarker [0]]).map
      (·.data.length)) := by
    rw [hsizes]
    decide
  refine ⟨carries_split oddSeconds 0, by rw [hlen], fun hall ↦ ?_⟩
  have hlt := (@handsOverAll_of_carries plainSamples noteModel _ _ _ _
    (fun _ ↦ ⟨_, rfl⟩) (carries_split oddSeconds 0)).2 fun h ↦ hodd h.1
  rw [hall, length_decode, hlen] at hlt
  omega

end BibiCore.Stt
