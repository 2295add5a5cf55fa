import BibiCore.Base.Rounding

/-!
# Wire messages

The protobuf messages the gateway and the three services exchange, `proto/stt.proto`,
`proto/llm.proto` and `proto/tts.proto`, less the health messages. Python's message classes check
an `int32` field when a message is made.
-/

namespace BibiCore.Proto

open Rounding

/-- The values of an `int32` field. -/
def FitsInt32 (value : Int) : Prop := -2 ^ 31 ≤ value ∧ value < 2 ^ 31

instance (value : Int) : Decidable (FitsInt32 value) := inferInstanceAs (Decidable (_ ∧ _))

/-- What an `int32` field makes of an integer: any other one raises `ValueError`. -/
def int32 {ε : Type} (valueError : String → ε) (value : Int) : Except ε Int :=
  if FitsInt32 value then .ok value else .error (valueError s!"Value out of range: {value}")

/-- `stt.AudioChunkMsg`; the `int32` format fields are integers. -/
structure SttAudioChunkMsg where
  data : List UInt8
  sampleRate : Int
  channels : Int
  sampleWidth : Int
  endOfUtterance : Bool
  deriving DecidableEq

/-- `stt.TranscriptSegmentMsg`; the score is a `float`. -/
structure TranscriptSegmentMsg where
  startMs : Int
  endMs : Int
  text : String
  score : Option FloatValue
  deriving DecidableEq

/-- `stt.TranscriptEvent.EventType`. -/
inductive TranscriptEventType where
  | partialEvent
  | finalEvent
  | errorEvent
  deriving DecidableEq

/-- `stt.TranscriptEvent`; the error fields are empty unless the type is `ERROR`. -/
structure TranscriptEvent where
  type : TranscriptEventType
  segments : List TranscriptSegmentMsg
  lang : Option String
  errorCode : String
  errorMessage : String
  deriving DecidableEq

/-- `llm.ChatMessage`. -/
structure ChatMessage where
  role : String
  content : String
  deriving DecidableEq

/-- `llm.ChatRequest`. -/
structure ChatRequest where
  prompt : String
  conversationHistory : List ChatMessage
  deriving DecidableEq

/-- `llm.ChatEvent.EventType`. -/
inductive ChatEventType where
  | chunk
  | done
  | error
  deriving DecidableEq

/-- `llm.ChatEvent`. -/
structure ChatEvent where
  type : ChatEventType
  text : String
  errorCode : String
  errorMessage : String
  deriving DecidableEq

/-- `tts.AudioChunkMsg`. -/
structure TtsAudioChunkMsg where
  data : List UInt8
  sampleRate : Int
  channels : Int
  sampleWidth : Int
  deriving DecidableEq

end BibiCore.Proto
