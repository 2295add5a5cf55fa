import BibiCore.Gateway.ClientStream
import BibiCore.Proto

/-!
# The three clients' events

The event types the gateway's client packages hand to the session, how `recvPump` maps a
received message to one, and the send side of the stt stream.
-/

namespace BibiCore.Gateway

open BibiCore.Proto (TtsAudioChunkMsg)

/-- `TranscriptEvent`, `internal/stt/client.go:68`: each event type carries the fields its
mapping fills. -/
inductive TranscriptEvent where
  | partialEvent (text : String)
  | finalEvent (text : String)
  | error (code message : String)
  deriving DecidableEq

/-- `joinSegments`, `internal/stt/client.go:204`. -/
def joinSegments (event : Proto.TranscriptEvent) : String :=
  event.segments.foldl (fun text seg ↦ text ++ seg.text) ""

/-- `mapTranscriptEvent`, `internal/stt/client.go:193`. -/
def mapTranscriptEvent (e : Proto.TranscriptEvent) : TranscriptEvent :=
  match e.type with
  | .finalEvent => .finalEvent (joinSegments e)
  | .errorEvent => .error e.errorCode e.errorMessage
  | .partialEvent => .partialEvent (joinSegments e)

/-- `ChatEvent`, `internal/llm/client.go:72`. -/
inductive ChatEvent where
  | chunk (text : String)
  | done
  | error (code message : String)
  deriving DecidableEq

/-- The text of a chunk. -/
def ChatEvent.text? : ChatEvent → Option String
  | .chunk text => some text
  | _ => none

/-- `mapChatEvent`, `internal/llm/client.go:184`. -/
def mapChatEvent (e : Proto.ChatEvent) : ChatEvent :=
  match e.type with
  | .done => .done
  | .error => .error e.errorCode e.errorMessage
  | .chunk => .chunk e.text

/-- The PCM format of an audio chunk or of a session's microphone. -/
structure AudioFormatInfo where
  sampleRate : Int
  channels : Int
  sampleWidth : Int
  deriving DecidableEq

/-- `AudioChunk`, `internal/tts/client.go:63`. -/
inductive AudioChunk where
  | audio (data : List UInt8) (format : AudioFormatInfo)
  | error (code message : String)
  deriving DecidableEq

/-- The mapping inlined in the tts client's `recvPump`, `internal/tts/client.go:148`. -/
def mapAudioChunk (msg : TtsAudioChunkMsg) : AudioChunk :=
  .audio msg.data ⟨msg.sampleRate, msg.channels, msg.sampleWidth⟩

/-- `recvPump` of the stt client. -/
def sttPump : PumpSpec Proto.TranscriptEvent TranscriptEvent where
  mapEvent := mapTranscriptEvent
  errorEvent := .error
  streamErrorCode := "stt_stream_error"
  timeoutCode := "stt_timeout"
  timeoutMessage := "stt service did not respond in time"

/-- `recvPump` of the llm client. -/
def llmPump : PumpSpec Proto.ChatEvent ChatEvent where
  mapEvent := mapChatEvent
  errorEvent := .error
  streamErrorCode := "llm_stream_error"
  timeoutCode := "llm_timeout"
  timeoutMessage := "llm service did not respond in time"

/-- `recvPump` of the tts client. -/
def ttsPump : PumpSpec TtsAudioChunkMsg AudioChunk where
  mapEvent := mapAudioChunk
  errorEvent := .error
  streamErrorCode := "tts_stream_error"
  timeoutCode := "tts_timeout"
  timeoutMessage := "tts service did not respond in time"

abbrev SttStream := Stream Proto.TranscriptEvent TranscriptEvent
abbrev LlmStream := Stream Proto.ChatEvent ChatEvent
abbrev TtsStream := Stream TtsAudioChunkMsg AudioChunk

/-- `Stream.CloseSend`, `internal/stt/client.go:214`: the flag of `Close` is set, the context
stays. -/
def SttStream.closeSend (s : SttStream) : SttStream := { s with closed := true }

/-- Only a `DONE` message maps to the done event. -/
theorem mapChatEvent_eq_done {e : Proto.ChatEvent} : mapChatEvent e = .done ↔ e.type = .done := by
  unfold mapChatEvent
  cases e.type <;> simp

/-- The generation is over by itself: `recvPump` has left its loop, or the backend has sent
`DONE`. -/
def LlmStream.Ended (s : LlmStream) : Prop :=
  s.pumpReturned = true ∨ ∃ m ∈ s.received, m.type = .done

instance (s : LlmStream) : Decidable (LlmStream.Ended s) := inferInstanceAs (Decidable (_ ∨ _))

/-- `recvPump` does not revive a generation. -/
theorem LlmStream.Ended.recvPump {spec : PumpSpec Proto.ChatEvent ChatEvent} {parentDone : Bool}
    {s t : LlmStream} {a : PumpAction Proto.ChatEvent} (hs : LlmStream.Ended s)
    (h : Stream.recvPump spec parentDone s a = some t) : LlmStream.Ended t := by
  rcases hs with hs | ⟨m, hm, hd⟩
  · left
    unfold Stream.pumpReturned at *
    cases Stream.pumpStep_of_recvPump h with
    | message _ hp | eof hp | error _ hp | timeout hp | callOver hp | put _ _ hp
    | closedByCaller _ hp | report _ hp | errorSent _ _ _ hp | errorDropped _ _ hp =>
      simp [hp] at hs
    | contextDone | close => rfl
  · exact .inr ⟨m, (Stream.recvPump_received h).subset hm, hd⟩

end BibiCore.Gateway
