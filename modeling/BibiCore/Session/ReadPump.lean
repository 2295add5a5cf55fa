import BibiCore.Session.State

/-!
# `readPump` and the handlers it calls

`session.go:144`–`356` and `527`. Only `readPump` writes `sttStream`, `audioFormat`, `voice` and
`currentTurn`, so its own loads of the first two are local to it.
-/

namespace BibiCore.Session

open BibiCore.Gateway

/-- What makes `readPump` take a step: the peer's next frame or the end of the connection, the
outcome of `OpenStream`, the case of a select, or nothing but its own next statement. -/
inductive ReadAction where
  | frame (f : ClientFrame)
  | readError
  | openOk
  | openError
  | select (b : World.Branch)
  | next
  deriving DecidableEq

/-- `setAudioFormat`, `session.go:261`: a field that is not positive keeps its default. -/
def setAudioFormat (msg : AudioFormatInfo) : AudioFormatInfo where
  sampleRate := if msg.sampleRate > 0 then msg.sampleRate else defaultAudioFormat.sampleRate
  channels := if msg.channels > 0 then msg.channels else defaultAudioFormat.channels
  sampleWidth := if msg.sampleWidth > 0 then msg.sampleWidth else defaultAudioFormat.sampleWidth

/-- The stream `OpenStream` returns, before its goroutine is started. -/
def SttCall.opened (turn : Nat) : SttCall where
  stream := .opened
  forwarder := .unstarted
  startTurn := turn
  passed := []
  sent := []
  closeSends := []
  closeCalled := false

/-- `Stream.Close` on an stt stream. -/
def SttCall.close (c : SttCall) : SttCall :=
  { c with stream := c.stream.close, closeCalled := true }

/-- `Stream.Close` on an llm stream by the start of turn `turn`. -/
def LlmCall.close (turn : Nat) (c : LlmCall) : LlmCall :=
  { c with stream := c.stream.close, closedBy := some turn }

/-- `Stream.Close` on a tts stream by the start of turn `turn`. -/
def TtsCall.close (turn : Nat) (c : TtsCall) : TtsCall :=
  { c with stream := c.stream.close, closedBy := some turn }

namespace World

/-- `handleAudioChunk`, `session.go:185`, up to its select. -/
def handleAudioChunk (w : World) (data : List UInt8) : World :=
  match w.sttStream with
  | none => { w with
      reader := .report "no_active_stream" "send \x7b\"type\":\"start\"\x7d before audio" }
  | some i => { w with reader := .offer ⟨data, w.getAudioFormat, false, false, i⟩ }

/-- `endUtterance`, `session.go:527`, up to its select. -/
def endUtterance (w : World) : World :=
  match w.sttStream with
  | none => w
  | some i => { w with reader := .finish ⟨[], w.getAudioFormat, true, true, i⟩ }

/-- `handleControlMessage`, `session.go:238`, up to the first shared step of the handler it
picks. -/
def handleControlMessage (w : World) : ControlRequest → World
  | .malformed => { w with reader := .report "bad_request" "malformed control message" }
  | .start format => { w with audioFormat := some (setAudioFormat format), reader := .addTurn }
  | .endUtterance => w.endUtterance
  | .setVoice voice => { w with voice := some voice }
  | .other type => { w with
      reader := .report "unknown_message_type"
        ("unrecognized control message type: " ++ type) }

/-- One step of `readPump`. -/
def readPump (w : World) (a : ReadAction) : Option World :=
  match w.reader, a with
  | .idle, .frame (.binary data) => some (w.handleAudioChunk data)
  | .idle, .frame (.text request) => some (w.handleControlMessage request)
  | .idle, .readError => some { w with reader := .returned }
  | .report code message, .select b =>
    (w.sendError .readPump code message b).map fun w ↦ { w with reader := .idle }
  | .offer frame, .next =>
    match w.audioQueue.send? frame with
    | some q => some { w with audioQueue := q, reader := .idle }
    | none => some { w with reader := .idle }
  -- beginNewTurn
  | .addTurn, .next =>
    some { w with currentTurn := w.currentTurn + 1, reader := .swap (w.currentTurn + 1) }
  -- interruptCurrentTurn
  | .swap turn, .next =>
    if w.locked then none
    else some { w with
      activeLLMStream := none
      activeTTSStream := none
      reader := .closeLLM turn w.activeLLMStream w.activeTTSStream }
  | .closeLLM turn (some llm) tts, .next =>
    some { w with llm := w.llm.modify llm (LlmCall.close turn), reader := .closeTTS turn tts true }
  | .closeLLM turn none tts, .next => some { w with reader := .closeTTS turn tts false }
  | .closeTTS turn (some tts) _, .next =>
    some { w with tts := w.tts.modify tts (TtsCall.close turn), reader := .drain turn true }
  | .closeTTS turn none interrupted, .next => some { w with reader := .drain turn interrupted }
  | .drain turn interrupted, .next =>
    match w.ttsQueue.recv? with
    | some (job, q) =>
      some { w with
        ttsQueue := q, drained := w.drained ++ [(turn, job)], reader := .drain turn true }
    | none => some { w with reader := if interrupted then .notify turn else .closeOld turn }
  | .notify turn, .select b =>
    (w.sendJSON .readPump (.interrupted turn) b).map fun w ↦ { w with reader := .closeOld turn }
  -- startStream
  | .closeOld turn, .next =>
    match w.sttStream with
    | some old => some { w with stt := w.stt.modify old SttCall.close, reader := .opening turn }
    | none => some { w with reader := .opening turn }
  | .opening turn, .openOk =>
    some { w with stt := w.stt ++ [SttCall.opened turn], reader := .store w.stt.length }
  | .opening _, .openError => some { w with reader := .openFailed }
  | .openFailed, .select b =>
    (w.sendError .readPump "stt_unavailable" "could not start transcription" b).map
      fun w ↦ { w with reader := .storeNil }
  | .storeNil, .next => some { w with sttStream := none, reader := .idle }
  | .store stt, .next =>
    some { w with
      sttStream := some stt
      stt := w.stt.modify stt fun c ↦ { c with forwarder := .starting }
      reader := .idle }
  | .finish frame, .select .put =>
    match w.audioQueue.send? frame with
    | some q => some { w with audioQueue := q, reader := .idle }
    | none => none
  | .finish _, .select .done => if w.cancelled then some { w with reader := .idle } else none
  -- Run: readPump returned
  | .returned, .next => some { w with cancelled := true, reader := .done }
  | _, _ => none

/-! ### What a step of `readPump` can do -/

/-- Every step `readPump` can take, with the conditions under which it is taken. -/
inductive ReadStep (w : World) : ReadAction → World → Prop
  | noStream (data : List UInt8) (hr : w.reader = .idle) (hs : w.sttStream = none) :
      ReadStep w (.frame (.binary data)) { w with
        reader := .report "no_active_stream" "send \x7b\"type\":\"start\"\x7d before audio" }
  | audio (data : List UInt8) (i : Nat) (hr : w.reader = .idle) (hs : w.sttStream = some i) :
      ReadStep w (.frame (.binary data))
        { w with reader := .offer ⟨data, w.getAudioFormat, false, false, i⟩ }
  | malformed (hr : w.reader = .idle) : ReadStep w (.frame (.text .malformed))
      { w with reader := .report "bad_request" "malformed control message" }
  | other (type : String) (hr : w.reader = .idle) : ReadStep w (.frame (.text (.other type)))
      { w with
        reader := .report "unknown_message_type"
          ("unrecognized control message type: " ++ type) }
  | start (format : AudioFormatInfo) (hr : w.reader = .idle) :
      ReadStep w (.frame (.text (.start format)))
        { w with audioFormat := some (setAudioFormat format), reader := .addTurn }
  | setVoice (voice : String) (hr : w.reader = .idle) :
      ReadStep w (.frame (.text (.setVoice voice))) { w with voice := some voice }
  | noUtterance (hr : w.reader = .idle) (hs : w.sttStream = none) :
      ReadStep w (.frame (.text .endUtterance)) w
  | endUtterance (i : Nat) (hr : w.reader = .idle) (hs : w.sttStream = some i) :
      ReadStep w (.frame (.text .endUtterance))
        { w with reader := .finish ⟨[], w.getAudioFormat, true, true, i⟩ }
  | readError (hr : w.reader = .idle) : ReadStep w .readError { w with reader := .returned }
  | report (code message : String) (b : Branch) (v : World)
      (hr : w.reader = .report code message)
      (hv : w.sendError .readPump code message b = some v) :
      ReadStep w (.select b) { v with reader := .idle }
  | enqueue (frame : AudioFrame) (q : Chan AudioFrame 64) (hr : w.reader = .offer frame)
      (hq : w.audioQueue.send? frame = some q) :
      ReadStep w .next { w with audioQueue := q, reader := .idle }
  | dropFrame (frame : AudioFrame) (hr : w.reader = .offer frame) :
      ReadStep w .next { w with reader := .idle }
  | addTurn (hr : w.reader = .addTurn) : ReadStep w .next
      { w with currentTurn := w.currentTurn + 1, reader := .swap (w.currentTurn + 1) }
  | swap (turn : Nat) (hr : w.reader = .swap turn) (hl : w.locked = false) :
      ReadStep w .next { w with
        activeLLMStream := none
        activeTTSStream := none
        reader := .closeLLM turn w.activeLLMStream w.activeTTSStream }
  | closeLLM (turn j : Nat) (tts : Option Nat) (hr : w.reader = .closeLLM turn (some j) tts) :
      ReadStep w .next { w with
        llm := w.llm.modify j (LlmCall.close turn), reader := .closeTTS turn tts true }
  | noLLM (turn : Nat) (tts : Option Nat) (hr : w.reader = .closeLLM turn none tts) :
      ReadStep w .next { w with reader := .closeTTS turn tts false }
  | closeTTS (turn k : Nat) (b : Bool) (hr : w.reader = .closeTTS turn (some k) b) :
      ReadStep w .next { w with
        tts := w.tts.modify k (TtsCall.close turn), reader := .drain turn true }
  | noTTS (turn : Nat) (b : Bool) (hr : w.reader = .closeTTS turn none b) :
      ReadStep w .next { w with reader := .drain turn b }
  | drainJob (turn : Nat) (b : Bool) (job : TtsJob) (q : Chan TtsJob 32)
      (hr : w.reader = .drain turn b) (hq : w.ttsQueue.items = job :: q.items) :
      ReadStep w .next { w with
        ttsQueue := q, drained := w.drained ++ [(turn, job)], reader := .drain turn true }
  | interrupted (turn : Nat) (hr : w.reader = .drain turn true) (hq : w.ttsQueue.items = []) :
      ReadStep w .next { w with reader := .notify turn }
  | notInterrupted (turn : Nat) (hr : w.reader = .drain turn false) (hq : w.ttsQueue.items = []) :
      ReadStep w .next { w with reader := .closeOld turn }
  | notify (turn : Nat) (b : Branch) (v : World) (hr : w.reader = .notify turn)
      (hv : w.sendJSON .readPump (.interrupted turn) b = some v) :
      ReadStep w (.select b) { v with reader := .closeOld turn }
  | closeOld (turn i : Nat) (hr : w.reader = .closeOld turn) (hs : w.sttStream = some i) :
      ReadStep w .next
        { w with stt := w.stt.modify i SttCall.close, reader := .opening turn }
  | noOld (turn : Nat) (hr : w.reader = .closeOld turn) (hs : w.sttStream = none) :
      ReadStep w .next { w with reader := .opening turn }
  | opened (turn : Nat) (hr : w.reader = .opening turn) : ReadStep w .openOk
      { w with stt := w.stt ++ [SttCall.opened turn], reader := .store w.stt.length }
  | openError (turn : Nat) (hr : w.reader = .opening turn) :
      ReadStep w .openError { w with reader := .openFailed }
  | openFailed (b : Branch) (v : World) (hr : w.reader = .openFailed)
      (hv : w.sendError .readPump "stt_unavailable" "could not start transcription" b = some v) :
      ReadStep w (.select b) { v with reader := .storeNil }
  | storeNil (hr : w.reader = .storeNil) :
      ReadStep w .next { w with sttStream := none, reader := .idle }
  | store (i : Nat) (hr : w.reader = .store i) : ReadStep w .next { w with
      sttStream := some i
      stt := w.stt.modify i fun c ↦ { c with forwarder := .starting }
      reader := .idle }
  | enqueueFinish (frame : AudioFrame) (q : Chan AudioFrame 64) (hr : w.reader = .finish frame)
      (hq : w.audioQueue.send? frame = some q) :
      ReadStep w (.select .put) { w with audioQueue := q, reader := .idle }
  | finishDone (frame : AudioFrame) (hr : w.reader = .finish frame) (hc : w.cancelled = true) :
      ReadStep w (.select .done) { w with reader := .idle }
  | returned (hr : w.reader = .returned) :
      ReadStep w .next { w with cancelled := true, reader := .done }

private theorem handleAudioChunk_readStep {w : World} (data : List UInt8)
    (hr : w.reader = .idle) : ReadStep w (.frame (.binary data)) (w.handleAudioChunk data) := by
  unfold handleAudioChunk
  split
  · next hs => exact .noStream data hr hs
  · next i hs => exact .audio data i hr hs

private theorem handleControlMessage_readStep {w : World} (request : ControlRequest)
    (hr : w.reader = .idle) :
    ReadStep w (.frame (.text request)) (w.handleControlMessage request) := by
  cases request with
  | malformed => exact .malformed hr
  | start format => exact .start format hr
  | setVoice voice => exact .setVoice voice hr
  | other type => exact .other type hr
  | endUtterance =>
    simp only [handleControlMessage, endUtterance]
    split
    · next hs => exact .noUtterance hr hs
    · next i hs => exact .endUtterance i hr hs

/-- `readPump` does nothing else. -/
theorem readStep_of_readPump {w w' : World} {a : ReadAction} (h : w.readPump a = some w') :
    ReadStep w a w' := by
  unfold readPump at h
  split at h
  · next data hr =>
    cases h
    exact handleAudioChunk_readStep data hr
  · next request hr =>
    cases h
    exact handleControlMessage_readStep request hr
  · next hr =>
    cases h
    exact .readError hr
  · next code message b hr =>
    obtain ⟨v, hv, rfl⟩ := Option.map_eq_some_iff.mp h
    exact .report code message b v hr hv
  · next frame hr =>
    split at h <;> cases h
    · next q hq => exact .enqueue frame q hr hq
    · exact .dropFrame frame hr
  · next hr =>
    cases h
    exact .addTurn hr
  · next turn hr =>
    split at h <;> cases h
    next hl => exact .swap turn hr (Bool.eq_false_iff.mpr hl)
  · next turn j tts hr =>
    cases h
    exact .closeLLM turn j tts hr
  · next turn tts hr =>
    cases h
    exact .noLLM turn tts hr
  · next turn k b hr =>
    cases h
    exact .closeTTS turn k b hr
  · next turn b hr =>
    cases h
    exact .noTTS turn b hr
  · next turn b hr =>
    split at h <;> cases h
    · next job q hq => exact .drainJob turn b job q hr (Chan.recv?_eq_some.mp hq)
    · next hq =>
      have hempty := Chan.recv?_eq_none.mp hq
      cases b with
      | true => exact .interrupted turn hr hempty
      | false => exact .notInterrupted turn hr hempty
  · next turn b hr =>
    obtain ⟨v, hv, rfl⟩ := Option.map_eq_some_iff.mp h
    exact .notify turn b v hr hv
  · next turn hr =>
    split at h <;> cases h
    · next i hs => exact .closeOld turn i hr hs
    · next hs => exact .noOld turn hr hs
  · next turn hr =>
    cases h
    exact .opened turn hr
  · next turn hr =>
    cases h
    exact .openError turn hr
  · next b hr =>
    obtain ⟨v, hv, rfl⟩ := Option.map_eq_some_iff.mp h
    exact .openFailed b v hr hv
  · next hr =>
    cases h
    exact .storeNil hr
  · next i hr =>
    cases h
    exact .store i hr
  · next frame hr =>
    split at h <;> cases h
    next q hq => exact .enqueueFinish frame q hr hq
  · next frame hr =>
    split at h <;> cases h
    next hc => exact .finishDone frame hr hc
  · next hr =>
    cases h
    exact .returned hr
  · cases h

end World
end BibiCore.Session
