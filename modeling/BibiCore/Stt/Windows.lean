import BibiCore.Stt.Servicer

/-!
# The windows of a stream

`StreamTranscribe`, `stt/grpc_servicer.py:26`, with a record of the messages it reads and of the
windows it has transcribed. The engine is one of a sequence, one for each call of `transcribe`, so
that it may answer the same window differently at different times.
-/

namespace BibiCore.Stt

open Windowing

/-- The chunks of a window of messages. -/
def windowChunks (window : List Proto.SttAudioChunkMsg) : List AudioChunk :=
  window.map chunkFromProto

/-- The window reaches `WINDOW_SECONDS`. -/
def reachesWindow (window : List Proto.SttAudioChunkMsg) : Bool := windowFull (windowChunks window)

/-- The window is closed by `end_of_utterance`. -/
def endsUtterance (window : List Proto.SttAudioChunkMsg) : Bool :=
  window.getLast?.any (·.endOfUtterance)

/-- The condition under which the body of the loop has the buffer transcribed. -/
def handsOver (window : List Proto.SttAudioChunkMsg) : Bool :=
  match calculateDuration (windowChunks window) with
  | .ok duration => decide (windowSeconds ≤ duration) || endsUtterance window
  | .error _ => false

/-- A call of `StreamTranscribe`: the messages it has read, the windows it has handed over to
`prepare_audio` and `engine.transcribe`, and the events it has yielded. -/
structure Transcription where
  read : List Proto.SttAudioChunkMsg
  windows : List (List Proto.SttAudioChunkMsg)
  events : List Proto.TranscriptEvent
  deriving DecidableEq

section

variable (interp : Interpolation) (engines : Nat → STTEngine)

/-- The `async for` over messages, `call` windows after the first and with `pending` in the
buffer, up to the event that an exception is turned into. -/
def transcription (call : Nat) (pending : List Proto.SttAudioChunkMsg) :
    List Proto.SttAudioChunkMsg → Transcription
  | [] => ⟨[], [], []⟩
  | msg :: msgs =>
    let window := pending ++ [msg]
    let windows := if handsOver window then [window] else []
    match receive interp (engines call) (windowChunks pending) ⟨msg, false⟩ with
    | .returned event => ⟨[msg], windows, event.toList⟩
    | .raised error => ⟨[msg], windows, [errorEvent error.code error.message]⟩
    | .continued event _ =>
      let later := transcription (call + windows.length)
        (if handsOver window then [] else window) msgs
      ⟨msg :: later.read, windows ++ later.windows, event.toList ++ later.events⟩

/-- The type of the event that answers a window. -/
def windowType (window : List Proto.SttAudioChunkMsg) : Proto.TranscriptEventType :=
  if endsUtterance window then .finalEvent else .partialEvent

/-- What window number `call` comes to: `prepare_audio`, the engine or the making of the event may
raise. -/
def windowAnswer (call : Nat) (window : List Proto.SttAudioChunkMsg) :
    Except STTError Proto.TranscriptEvent :=
  answerWindow interp (engines call) (windowChunks window) (windowType window)

/-- The event that answers window number `call`. -/
def windowEvent (call : Nat) (window : List Proto.SttAudioChunkMsg) : Proto.TranscriptEvent :=
  match windowAnswer interp engines call window with
  | .ok event => event
  | .error error => errorEvent error.code error.message

/-- The call is over with window number `call`: it ends the utterance, or something raises on
it. -/
def Stops (call : Nat) (window : List Proto.SttAudioChunkMsg) : Prop :=
  endsUtterance window = true ∨ ∃ error, windowAnswer interp engines call window = .error error

/-- What a call that is not cancelled makes of the messages: it reads an initial part of them and
hands over consecutive nonempty windows, which leave out only what comes after the last one. Every
window ends the utterance or reaches the threshold, and does so with its last chunk. There is one
event for each window, and the first window to stop the call is the last thing it reads. -/
structure Transcribes (msgs : List Proto.SttAudioChunkMsg) (t : Transcription) : Prop where
  read : t.read <+: msgs
  windows : ∃ rest, t.windows.flatten ++ rest = t.read ∧
    ∀ p, p <+: rest → reachesWindow p = false ∧ endsUtterance p = false
  nonempty : ∀ w ∈ t.windows, w ≠ []
  reaches : ∀ w ∈ t.windows, (endsUtterance w = true ∨ reachesWindow w = true) ∧
    ∀ p, p <+: w → p ≠ w → reachesWindow p = false ∧ endsUtterance p = false
  events : t.events = t.windows.mapIdx (windowEvent interp engines)
  stopped : ∀ (i : Nat) (w : List Proto.SttAudioChunkMsg), t.windows[i]? = some w →
    Stops interp engines i w → i + 1 = t.windows.length ∧ t.read = t.windows.flatten
  finished : (∀ (i : Nat) (w : List Proto.SttAudioChunkMsg), t.windows[i]? = some w →
    ¬ Stops interp engines i w) → t.read = msgs

end

variable {interp : Interpolation} {engines : Nat → STTEngine} {call : Nat}
  {pending msgs : List Proto.SttAudioChunkMsg} {msg : Proto.SttAudioChunkMsg}

/-! ### One message -/

/-- No messages make no chunks. -/
@[simp] theorem windowChunks_nil : windowChunks [] = [] := rfl

/-- Each message makes one chunk. -/
theorem windowChunks_concat : windowChunks (pending ++ [msg]) =
    windowChunks pending ++ [chunkFromProto msg] := by
  simp [windowChunks]

/-- The last message of a window tells whether it ends the utterance. -/
@[simp] theorem endsUtterance_concat : endsUtterance (pending ++ [msg]) = msg.endOfUtterance := by
  simp [endsUtterance]

/-- An empty buffer is not handed over. -/
theorem handsOver_nil : handsOver [] = false := by decide +kernel

/-- Where a duration can be computed, a window is handed over when it is long enough or ends the
utterance. -/
theorem handsOver_eq {window : List Proto.SttAudioChunkMsg}
    (hm : Measurable (windowChunks window)) :
    handsOver window = (reachesWindow window || endsUtterance window) := by
  obtain ⟨duration, hd⟩ := hm.calculateDuration
  simp [handsOver, reachesWindow, windowFull, hd]

/-- The body of the loop hands the window over, or adds the message to it. -/
theorem receive_eq (hm : Measurable (windowChunks (pending ++ [msg]))) :
    receive interp (engines call) (windowChunks pending) ⟨msg, false⟩ =
      if handsOver (pending ++ [msg]) then
        match windowAnswer interp engines call (pending ++ [msg]) with
        | .error error => .raised error
        | .ok event =>
          if msg.endOfUtterance then .returned (some event) else .continued (some event) []
      else .continued none (windowChunks (pending ++ [msg])) := by
  obtain ⟨duration, hd⟩ := hm.calculateDuration
  rw [windowChunks_concat] at hd
  cases he : msg.endOfUtterance with
  | true =>
    cases ha : answerWindow interp (engines call) (windowChunks pending ++ [chunkFromProto msg])
      .finalEvent <;>
      simp [receive, windowAnswer, windowType, handsOver, windowChunks_concat, hd, he, ha]
  | false =>
    cases ha : answerWindow interp (engines call) (windowChunks pending ++ [chunkFromProto msg])
      .partialEvent <;> by_cases hle : windowSeconds ≤ duration <;>
      simp [receive, windowAnswer, windowType, handsOver, windowChunks_concat, hd, hle, he, ha]

/-- A message that completes no window waits in the buffer. -/
theorem transcription_cons_of_waiting (hm : Measurable (windowChunks (pending ++ [msg])))
    (hh : handsOver (pending ++ [msg]) = false) :
    transcription interp engines call pending (msg :: msgs) =
      { transcription interp engines call (pending ++ [msg]) msgs with
        read := msg :: (transcription interp engines call (pending ++ [msg]) msgs).read } := by
  rw [transcription, receive_eq hm]
  simp [hh]

/-- A window that stops the call is the last thing it reads. -/
theorem transcription_cons_of_stops (hm : Measurable (windowChunks (pending ++ [msg])))
    (hh : handsOver (pending ++ [msg]) = true)
    (hs : Stops interp engines call (pending ++ [msg])) :
    transcription interp engines call pending (msg :: msgs) =
      ⟨[msg], [pending ++ [msg]], [windowEvent interp engines call (pending ++ [msg])]⟩ := by
  rw [transcription, receive_eq hm]
  cases ha : windowAnswer interp engines call (pending ++ [msg]) with
  | error error => simp [hh, ha, windowEvent]
  | ok event =>
    have hend : msg.endOfUtterance = true := by simpa [Stops, ha] using hs
    simp [hh, ha, hend, windowEvent]

/-- After any other window the call goes on with an empty buffer. -/
theorem transcription_cons_of_not_stops (hm : Measurable (windowChunks (pending ++ [msg])))
    (hh : handsOver (pending ++ [msg]) = true)
    (hs : ¬ Stops interp engines call (pending ++ [msg])) :
    transcription interp engines call pending (msg :: msgs) =
      ⟨msg :: (transcription interp engines (call + 1) [] msgs).read,
        (pending ++ [msg]) :: (transcription interp engines (call + 1) [] msgs).windows,
        windowEvent interp engines call (pending ++ [msg]) ::
          (transcription interp engines (call + 1) [] msgs).events⟩ := by
  rw [transcription, receive_eq hm]
  cases ha : windowAnswer interp engines call (pending ++ [msg]) with
  | error error => exact absurd (.inr ⟨error, ha⟩) hs
  | ok event =>
    have hend : msg.endOfUtterance = false := by simpa [Stops, ha] using hs
    simp [hh, ha, hend, windowEvent]

/-! ### All messages -/

/-- The message has a format in which a duration can be computed. -/
def PositiveFormat (msg : Proto.SttAudioChunkMsg) : Prop :=
  0 < msg.sampleRate ∧ 0 < msg.channels ∧ 0 < msg.sampleWidth

instance (msg : Proto.SttAudioChunkMsg) : Decidable (PositiveFormat msg) :=
  inferInstanceAs (Decidable (_ ∧ _ ∧ _))

/-- Chunks with positive formats have a duration. -/
theorem measurable_of_positive {window : List Proto.SttAudioChunkMsg}
    (hw : ∀ m ∈ window, PositiveFormat m) : Measurable (windowChunks window) := by
  intro first hfirst
  obtain ⟨m, hm, rfl⟩ := List.mem_map.mp (List.mem_of_mem_head? hfirst)
  obtain ⟨hr, hc, hs⟩ := hw m hm
  exact (Int.mul_pos (Int.mul_pos hr hc) hs).ne'

/-- The call follows the cutting of its messages, as far as it goes. -/
structure Follows (interp : Interpolation) (engines : Nat → STTEngine) (call : Nat)
    (pending msgs : List Proto.SttAudioChunkMsg) (t : Transcription) : Prop where
  windows : t.windows <+: (cut handsOver pending msgs).1
  events : t.events = t.windows.mapIdx fun i ↦ windowEvent interp engines (call + i)
  read : t.read <+: msgs
  stopped : ∀ (i : Nat) (w : List Proto.SttAudioChunkMsg), t.windows[i]? = some w →
    Stops interp engines (call + i) w →
      i + 1 = t.windows.length ∧ pending ++ t.read = t.windows.flatten
  finished : (∀ (i : Nat) (w : List Proto.SttAudioChunkMsg), t.windows[i]? = some w →
    ¬ Stops interp engines (call + i) w) →
      t.windows = (cut handsOver pending msgs).1 ∧ t.read = msgs

namespace Follows

variable {t : Transcription}

/-- The first message waits. -/
theorem waiting (h : Follows interp engines call (pending ++ [msg]) msgs t)
    (hh : handsOver (pending ++ [msg]) = false) :
    Follows interp engines call pending (msg :: msgs) { t with read := msg :: t.read } where
  windows := by
    rw [cut_cons_of_not_full hh]
    exact h.windows
  events := h.events
  read := (List.prefix_cons_inj msg).mpr h.read
  stopped := by
    intro i w hw hs
    obtain ⟨hi, hr⟩ := h.stopped i w hw hs
    refine ⟨hi, ?_⟩
    rw [← hr, List.append_assoc]
    rfl
  finished := by
    intro hs
    obtain ⟨hw, hr⟩ := h.finished hs
    rw [cut_cons_of_not_full hh]
    exact ⟨hw, congrArg (msg :: ·) hr⟩

/-- The first message completes the window that stops the call. -/
theorem stops (hh : handsOver (pending ++ [msg]) = true)
    (hs : Stops interp engines call (pending ++ [msg])) :
    Follows interp engines call pending (msg :: msgs)
      ⟨[msg], [pending ++ [msg]], [windowEvent interp engines call (pending ++ [msg])]⟩ where
  windows := by
    rw [cut_cons_of_full hh]
    exact (List.prefix_cons_inj _).mpr List.nil_prefix
  events := rfl
  read := (List.prefix_cons_inj msg).mpr List.nil_prefix
  stopped := by
    intro i w hw _
    have hi : i < 1 := (List.getElem?_eq_some_iff.mp hw).1
    exact ⟨by simp only [List.length_singleton]; omega, by simp⟩
  finished := by
    intro hn
    exact absurd hs (hn 0 _ rfl)

/-- The first message completes a window after which the call goes on. -/
theorem goes_on (h : Follows interp engines (call + 1) [] msgs t)
    (hh : handsOver (pending ++ [msg]) = true)
    (hs : ¬ Stops interp engines call (pending ++ [msg])) :
    Follows interp engines call pending (msg :: msgs)
      ⟨msg :: t.read, (pending ++ [msg]) :: t.windows,
        windowEvent interp engines call (pending ++ [msg]) :: t.events⟩ where
  windows := by
    rw [cut_cons_of_full hh]
    exact (List.prefix_cons_inj _).mpr h.windows
  events := by
    rw [List.mapIdx_cons, h.events]
    simp only [Nat.add_zero, Nat.add_assoc, Nat.add_comm 1]
  read := (List.prefix_cons_inj msg).mpr h.read
  stopped := by
    intro i w hw hstop
    cases i with
    | zero =>
      obtain rfl : pending ++ [msg] = w := Option.some.inj hw
      exact absurd hstop hs
    | succ i =>
      rw [show call + (i + 1) = call + 1 + i by omega] at hstop
      obtain ⟨hi, hr⟩ := h.stopped i w hw hstop
      refine ⟨by simp only [List.length_cons]; omega, ?_⟩
      rw [List.flatten_cons, ← hr]
      simp
  finished := by
    intro hn
    obtain ⟨hw, hr⟩ := h.finished fun i w hw ↦ by
      rw [show call + 1 + i = call + (i + 1) by omega]
      exact hn (i + 1) w hw
    rw [cut_cons_of_full hh]
    exact ⟨congrArg (_ :: ·) hw, congrArg (msg :: ·) hr⟩

end Follows

/-- The loop makes one of the three moves with every message. -/
theorem transcription_follows (hp : ∀ m ∈ pending ++ msgs, PositiveFormat m) :
    Follows interp engines call pending msgs
      (transcription interp engines call pending msgs) := by
  induction msgs generalizing call pending with
  | nil => constructor <;> simp [transcription]
  | cons msg msgs ih =>
    have hconcat : pending ++ msg :: msgs = pending ++ [msg] ++ msgs := by simp
    rw [hconcat] at hp
    have hm : Measurable (windowChunks (pending ++ [msg])) :=
      measurable_of_positive fun m hmem ↦ hp m (List.mem_append_left _ hmem)
    cases hh : handsOver (pending ++ [msg]) with
    | false =>
      rw [transcription_cons_of_waiting hm hh]
      exact (ih hp).waiting hh
    | true =>
      by_cases hs : Stops interp engines call (pending ++ [msg])
      · rw [transcription_cons_of_stops hm hh hs]
        exact .stops hh hs
      · rw [transcription_cons_of_not_stops hm hh hs]
        exact (ih fun m hmem ↦ hp m (List.mem_append_right _ hmem)).goes_on hh hs

/-- With one engine throughout, these are the events of `StreamTranscribe`. -/
theorem streamTranscribe_eq_events (engine : STTEngine) :
    streamTranscribe interp (.ok engine) (received msgs) =
      (transcription interp (fun _ ↦ engine) 0 [] msgs).events := by
  suffices key : ∀ call pending, (receiveAll interp engine (windowChunks pending)
      (received msgs)).1 ++ ((receiveAll interp engine (windowChunks pending)
      (received msgs)).2.map fun error ↦ errorEvent error.code error.message).toList =
      (transcription interp (fun _ ↦ engine) call pending msgs).events from key 0 []
  induction msgs with
  | nil => exact fun _ _ ↦ rfl
  | cons msg msgs ih =>
    intro call pending
    have hcons : received (msg :: msgs) = ⟨msg, false⟩ :: received msgs := rfl
    rw [hcons, receiveAll, transcription]
    by_cases hm : Measurable (windowChunks (pending ++ [msg]))
    · rw [@receive_eq interp (fun _ ↦ engine) call pending msg hm]
      cases hh : handsOver (pending ++ [msg]) with
      | false =>
        have hlater := ih call (pending ++ [msg])
        simpa using hlater
      | true =>
        have hlater := ih (call + 1) []
        cases windowAnswer interp (fun _ ↦ engine) call (pending ++ [msg]) with
        | error error => simp
        | ok event =>
          cases he : msg.endOfUtterance with
          | true => simp
          | false => simpa using hlater
    · rw [windowChunks_concat] at hm
      rw [receive_of_not_measurable hm]
      rfl

private theorem not_reaches_of_not_handsOver {window : List Proto.SttAudioChunkMsg}
    (hw : ∀ m ∈ window, PositiveFormat m) (hh : handsOver window = false) :
    reachesWindow window = false ∧ endsUtterance window = false := by
  rw [handsOver_eq (measurable_of_positive hw)] at hh
  exact Bool.or_eq_false_iff.mp hh

/-- Messages with positive formats are transcribed window by window. -/
theorem transcribes_of_positive (hp : ∀ m ∈ msgs, PositiveFormat m) :
    Transcribes interp engines msgs (transcription interp engines 0 [] msgs) := by
  have h : Follows interp engines 0 [] msgs (transcription interp engines 0 [] msgs) :=
    transcription_follows hp
  generalize transcription interp engines 0 [] msgs = t at h
  have hnil : ∀ q, q <+: [] → handsOver q = false := by
    intro q hq
    rw [List.prefix_nil.mp hq]
    exact handsOver_nil
  have hcut := h.windows.subset
  have hpos {w : List Proto.SttAudioChunkMsg} (hw : w ∈ t.windows) :
      ∀ m ∈ w, PositiveFormat m := fun m hm ↦ hp m (mem_of_mem_cut (hcut hw) hm)
  refine ⟨h.read, ?_, fun w hw ↦ ?_, fun w hw ↦ ⟨?_, fun p hpw hne ↦ ?_⟩, ?_, ?_, ?_⟩
  · by_cases hs : ∃ i w, t.windows[i]? = some w ∧ Stops interp engines i w
    · obtain ⟨i, w, hw, hs⟩ := hs
      obtain ⟨-, hr⟩ := h.stopped i w hw (by rwa [Nat.zero_add])
      refine ⟨[], by rw [List.append_nil, ← hr]; rfl, fun p hpw ↦ ?_⟩
      have hpnil := hnil p hpw
      rw [List.prefix_nil.mp hpw] at hpnil ⊢
      exact not_reaches_of_not_handsOver (by simp) hpnil
    · obtain ⟨hw, hr⟩ := h.finished fun i w hw hstop ↦
        hs ⟨i, w, hw, by rwa [Nat.zero_add] at hstop⟩
      refine ⟨(cut handsOver [] msgs).2, ?_, fun p hpr ↦ ?_⟩
      · rw [hw, hr]
        exact flatten_cut [] msgs
      · have hfull := not_full_of_prefix_rest hnil hpr
        refine not_reaches_of_not_handsOver (fun m hm ↦ ?_) hfull
        exact hp m (mem_of_mem_rest (hpr.subset hm))
  · rintro rfl
    have hfull := full_of_mem_cut (hcut hw)
    rw [hnil [] List.prefix_rfl] at hfull
    cases hfull
  · have hfull := full_of_mem_cut (hcut hw)
    rw [handsOver_eq (measurable_of_positive (hpos hw)), Bool.or_eq_true] at hfull
    exact hfull.symm
  · have hfull := not_full_of_mem_cut hnil (hcut hw) hpw hne
    exact not_reaches_of_not_handsOver (fun m hm ↦ hpos hw m (hpw.subset hm)) hfull
  · simpa only [Nat.zero_add] using h.events
  · intro i w hw hs
    exact h.stopped i w hw (by rwa [Nat.zero_add])
  · intro hs
    exact (h.finished fun i w hw ↦ by rw [Nat.zero_add]; exact hs i w hw).2

/-- The windows and the events of a call that is not cancelled, for every sequence of messages in
positive formats and every engine, even one that changes from window to window. -/
theorem transcription_transcribes (interp : Interpolation) (engines : Nat → STTEngine)
    (msgs : List Proto.SttAudioChunkMsg) (hp : ∀ m ∈ msgs, PositiveFormat m) :
    Transcribes interp engines msgs (transcription interp engines 0 [] msgs) ∧
      ∀ engine, (∀ n, engines n = engine) →
        streamTranscribe interp (.ok engine) (received msgs) =
          (transcription interp engines 0 [] msgs).events := by
  refine ⟨transcribes_of_positive hp, fun engine he ↦ ?_⟩
  rw [streamTranscribe_eq_events, show engines = fun _ ↦ engine from funext he]

/-- An engine that hears the same word in every window. -/
def wordEngine : STTEngine := ⟨none, fun _ ↦ .ok ⟨[⟨0, 5000, "word", none⟩], none⟩⟩

/-- Five seconds at one byte a second, one more, and the end of the utterance. -/
def slowMessages : List Proto.SttAudioChunkMsg :=
  [⟨[0, 0, 0, 0, 0], 1, 1, 1, false⟩, ⟨[0], 1, 1, 1, false⟩, ⟨[0], 1, 1, 1, true⟩]

/-- The call on these messages. -/
def slowTranscription : Transcription :=
  transcription (fun samples _ _ ↦ samples) (fun _ ↦ wordEngine) 0 [] slowMessages

/-- Two windows, the second of which the marker closes. -/
theorem transcription_transcribes_slow :
    Transcribes (fun samples _ _ ↦ samples) (fun _ ↦ wordEngine) slowMessages slowTranscription ∧
      slowTranscription.windows = [slowMessages.take 1, slowMessages.drop 1] ∧
      slowTranscription.events.map (·.type) = [.partialEvent, .finalEvent] :=
  ⟨(transcription_transcribes _ (fun _ ↦ wordEngine) slowMessages (by decide)).1,
    by decide +kernel, by decide +kernel⟩

end BibiCore.Stt
