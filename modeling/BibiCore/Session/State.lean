import BibiCore.Gateway.Clients

/-!
# A gateway session and its goroutines

`internal/ws/session.go`. A `World` is one `Session` with every goroutine that runs on it and
every client stream it has opened. Each goroutine has a program counter naming its next
statement that touches shared state; what lies between two such statements is local and is
part of the first. A section under `s.mu` is one step: it blocks nowhere and what it touches
is touched under the same lock only. The one exception is the section in which
`synthesizeAndSend` re-checks the turn, which is not guarded by the lock: it is two steps, and
no other section runs in between.

Fields marked as history record what has happened for the statements about runs. No step
reads them.
-/

namespace BibiCore.Session

open BibiCore.Gateway
open BibiCore.Proto (ChatMessage)

/-- `defaultAudioFormat`, `session.go:67`. -/
def defaultAudioFormat : AudioFormatInfo := ⟨16000, 1, 2⟩

/-- A client's text frame after `json.Unmarshal`, `session.go:238`: the control types the
session knows, any other type, or a frame that does not parse. -/
inductive ControlRequest where
  | start (format : AudioFormatInfo)
  | endUtterance
  | setVoice (voice : String)
  | other (type : String)
  | malformed
  deriving DecidableEq

/-- One frame `ReadMessage` returns. -/
inductive ClientFrame where
  | binary (data : List UInt8)
  | text (request : ControlRequest)
  deriving DecidableEq

/-- An outgoing `ControlMessage`, `session.go:27`: the constructor is its `Type`, the arguments
are the fields the session sets for that type. -/
inductive ControlMessage where
  | partialTranscript (text : String) (turn : Nat)
  | finalTranscript (text : String) (turn : Nat)
  | llmChunk (text : String) (turn : Nat)
  | audioFormat (format : AudioFormatInfo) (turn : Nat)
  | interrupted (turn : Nat)
  | error (code message : String)
  deriving DecidableEq

/-- `outboundMessage`, `session.go:45`: a text or a binary frame. -/
inductive OutboundMessage where
  | text (msg : ControlMessage)
  | binary (data : List UInt8)
  deriving DecidableEq

/-- The goroutine that puts a message on `s.send`; `ttsWorker` counts by the stream its
`synthesizeAndSend` opened, that is by job, once it has one, and by the job's turn before. -/
inductive Origin where
  | readPump
  | audioSendWorker
  | forwardTranscripts (stt : Nat)
  | forwardLLMEvents (llm : Nat)
  | ttsWorker (turn : Nat)
  | synthesizeAndSend (tts : Nat)
  deriving DecidableEq

/-- An element of `s.send`; the origin is history. -/
structure Put where
  message : OutboundMessage
  origin : Origin
  deriving DecidableEq

/-- `ttsJob`, `session.go:53`; `llm`, the stream whose chunk it is, is history. -/
structure TtsJob where
  turn : Nat
  text : String
  llm : Nat
  deriving DecidableEq

/-- `audioFrame`, `session.go:72`; `enqueuedFor`, the stream `sttStream` held when the frame was
put on `audioQueue`, is history. -/
structure AudioFrame where
  data : List UInt8
  format : AudioFormatInfo
  endOfUtterance : Bool
  closeSend : Bool
  enqueuedFor : Nat
  deriving DecidableEq

/-- Where `readPump` and the handlers it calls are; `turn` is the local `newTurn`. -/
inductive ReadPc where
  /-- in `ReadMessage` -/
  | idle
  /-- about to `sendError`, then back to `ReadMessage` -/
  | report (code message : String)
  /-- in the non-blocking select of `handleAudioChunk` -/
  | offer (frame : AudioFrame)
  /-- `beginNewTurn`: `currentTurn.Add(1)` is next -/
  | addTurn
  /-- `interruptCurrentTurn`: the lock section is next -/
  | swap (turn : Nat)
  /-- about to close the swapped-out llm stream, if any -/
  | closeLLM (turn : Nat) (llm tts : Option Nat)
  /-- about to close the swapped-out tts stream, if any -/
  | closeTTS (turn : Nat) (tts : Option Nat) (interrupted : Bool)
  /-- in the drain loop -/
  | drain (turn : Nat) (interrupted : Bool)
  /-- about to send `interrupted` -/
  | notify (turn : Nat)
  /-- `startStream`: the old stream is closed next -/
  | closeOld (turn : Nat)
  /-- in `OpenStream` -/
  | opening (turn : Nat)
  /-- `OpenStream` failed: the error is sent next -/
  | openFailed
  /-- about to `sttStream.Store(nil)` -/
  | storeNil
  /-- about to `sttStream.Store(stream)` -/
  | store (stt : Nat)
  /-- in the blocking select of `endUtterance` -/
  | finish (frame : AudioFrame)
  /-- `readPump` returned; `s.cancel()` is next -/
  | returned
  | done
  deriving DecidableEq

/-- Where `audioSendWorker` is. -/
inductive AudioPc where
  /-- in its select -/
  | idle
  /-- dequeued a frame; `sttStream.Load()` is next -/
  | got (frame : AudioFrame)
  /-- called `SendAudio`; its closed check is next -/
  | check (frame : AudioFrame) (stt : Nat)
  /-- in the gRPC `Send` -/
  | sending (frame : AudioFrame) (stt : Nat)
  /-- about to report a failed send -/
  | report (message : String)
  /-- about to call `CloseSend` -/
  | closeSend (frame : AudioFrame) (stt : Nat)
  | done
  deriving DecidableEq

/-- Where one `forwardTranscripts` goroutine is; `turn` is its local. -/
inductive TranscriptsPc where
  /-- `startStream` has not reached its `go` statement -/
  | unstarted
  /-- the turn load is next -/
  | starting
  /-- at the head of `range stream.Events` -/
  | ranging (turn : Nat)
  /-- took an event; the turn check is next -/
  | check (turn : Nat) (event : TranscriptEvent)
  /-- the check passed; the message is sent next -/
  | forward (turn : Nat) (event : TranscriptEvent)
  /-- `startLLMChat`: the turn check is next -/
  | chatCheck (turn : Nat) (prompt : String)
  /-- `startLLMChat`: the history snapshot is next -/
  | chatSnapshot (turn : Nat) (prompt : String)
  /-- `startLLMChat`: in `StartChat` -/
  | chatOpening (turn : Nat) (prompt : String) (history : List ChatMessage)
  /-- `startLLMChat`: `StartChat` failed, the error is sent next -/
  | chatFailed (turn : Nat)
  /-- `startLLMChat`: the lock section that publishes the stream is next -/
  | chatPublish (turn : Nat) (llm : Nat)
  | done
  deriving DecidableEq

/-- Where one `forwardLLMEvents` goroutine is. -/
inductive LlmEventsPc where
  /-- `startLLMChat` has not reached its `go` statement -/
  | unstarted
  /-- at the head of `range stream.Events` -/
  | ranging
  /-- took an event; the turn check is next -/
  | check (event : ChatEvent)
  /-- the check passed -/
  | handle (event : ChatEvent)
  | done
  deriving DecidableEq

/-- Where `synthesizeAndSend` is once `Synthesize` has returned its stream; `formatSent` is the
local flag. -/
inductive JobPc where
  /-- the lock is taken and the turn re-checked next -/
  | publish
  /-- the re-check passed, the lock is held: the pointer is stored next -/
  | store
  /-- the re-check failed: the stream is closed next -/
  | closeStale
  /-- at the head of `range stream.Events` -/
  | ranging (formatSent : Bool)
  /-- took a chunk; the turn check is next -/
  | check (formatSent : Bool) (chunk : AudioChunk)
  /-- an error event is sent next -/
  | report (code message : String)
  /-- `llm_chunk` is sent next -/
  | sendText (data : List UInt8) (format : AudioFormatInfo)
  /-- `audio_format` is sent next -/
  | sendFormat (data : List UInt8) (format : AudioFormatInfo)
  /-- in the blocking select that sends the binary frame -/
  | sendAudio (data : List UInt8)
  /-- the lock section that clears the pointer is next -/
  | clear
  deriving DecidableEq

/-- Where `ttsWorker` is. -/
inductive TtsPc where
  /-- in its select -/
  | idle
  /-- took a job; the turn check is next -/
  | got (job : TtsJob)
  /-- `synthesizeAndSend`: the voice load is next -/
  | synthesize (job : TtsJob)
  /-- in `Synthesize` -/
  | opening (job : TtsJob) (voice : String)
  /-- `Synthesize` failed: the error is sent next -/
  | openFailed (job : TtsJob)
  /-- `synthesizeAndSend` has stream `tts` -/
  | job (tts : Nat) (pc : JobPc)
  | done
  deriving DecidableEq

/-- One stt stream the session opened, with its `forwardTranscripts` goroutine. -/
structure SttCall where
  stream : SttStream
  forwarder : TranscriptsPc
  /-- history: the turn whose start opened the stream -/
  startTurn : Nat
  /-- history: the frames `SendAudio` was called with on this stream -/
  passed : List AudioFrame
  /-- history: the frames whose `Send` succeeded -/
  sent : List AudioFrame
  /-- history: the frames after which `CloseSend` was called -/
  closeSends : List AudioFrame
  /-- history: `Close` was called -/
  closeCalled : Bool
  deriving DecidableEq

/-- One llm stream the session opened, with its `forwardLLMEvents` goroutine and that
goroutine's locals. -/
structure LlmCall where
  stream : LlmStream
  forwarder : LlmEventsPc
  turn : Nat
  prompt : String
  fullResponse : String
  /-- history: the context sent with the prompt -/
  context : List ChatMessage
  /-- history: the stt stream whose transcript started the chat -/
  opener : Nat
  /-- history: the chunks offered to `ttsQueue`, with the number of jobs then waiting -/
  offered : List (String × Nat)
  /-- history: the goroutine has processed `Done` or an error, or has left its loop -/
  settled : Bool
  /-- history: the turn whose start closed the stream -/
  closedBy : Option Nat
  deriving DecidableEq

/-- One tts stream `synthesizeAndSend` opened. -/
structure TtsCall where
  stream : TtsStream
  job : TtsJob
  voice : String
  /-- history: the turn that was current when the stream passed the re-check -/
  checked : Option Nat
  /-- history: the stream was stored in `activeTTSStream` -/
  published : Bool
  /-- history: `synthesizeAndSend` closed the stream itself -/
  abandoned : Bool
  /-- history: the turn whose start closed the stream -/
  closedBy : Option Nat
  deriving DecidableEq

/-- The `Session`, `session.go:79`. Streams are named by their position in the lists of calls;
turns and the other counters are unbounded. -/
structure World where
  send : Chan Put 32
  sttStream : Option Nat
  ttsQueue : Chan TtsJob 32
  audioQueue : Chan AudioFrame 64
  voice : Option String
  audioFormat : Option AudioFormatInfo
  currentTurn : Nat
  activeLLMStream : Option Nat
  activeTTSStream : Option Nat
  history : List ChatMessage
  /-- `s.ctx` is done -/
  cancelled : Bool
  reader : ReadPc
  audioWorker : AudioPc
  ttsWorker : TtsPc
  /-- `writePump` is in its loop -/
  writing : Bool
  stt : List SttCall
  llm : List LlmCall
  tts : List TtsCall
  /-- history: what `writePump` has taken off `send` -/
  written : List Put
  /-- history: what `sendJSON` dropped, with the number of messages then waiting -/
  dropped : List (ControlMessage × Nat)
  /-- history: the jobs `ttsWorker` has taken off `ttsQueue` -/
  taken : List TtsJob
  /-- history: the jobs drained off `ttsQueue`, with the turn whose start drained them -/
  drained : List (Nat × TtsJob)
  /-- history: the llm streams whose `Done` extended `history`, in order -/
  answered : List Nat
  deriving DecidableEq

namespace World

/-- `NewSession` and `Run`, with every goroutine at its first statement. -/
def new : World where
  send := .empty
  sttStream := none
  ttsQueue := .empty
  audioQueue := .empty
  voice := none
  audioFormat := none
  currentTurn := 0
  activeLLMStream := none
  activeTTSStream := none
  history := []
  cancelled := false
  reader := .idle
  audioWorker := .idle
  ttsWorker := .idle
  writing := true
  stt := []
  llm := []
  tts := []
  written := []
  dropped := []
  taken := []
  drained := []
  answered := []

/-- Everything put on `s.send` so far, in order. -/
def puts (w : World) : List Put := w.written ++ w.send.items

/-- `getAudioFormat`, `session.go:275`. -/
def getAudioFormat (w : World) : AudioFormatInfo := w.audioFormat.getD defaultAudioFormat

/-- `getVoice`, `session.go:284`. -/
def getVoice (w : World) : String := w.voice.getD ""

/-- `synthesizeAndSend` holds `s.mu`, so that no other goroutine can take it. -/
def locked (w : World) : Bool :=
  match w.ttsWorker with
  | .job _ .store => true
  | _ => false

/-- Which case of a `select` ran. -/
inductive Branch where
  | put
  | done
  | dropped
  deriving DecidableEq

/-- `sendJSON`, `session.go:547`: put the message when there is room, or see the context done;
drop it when neither is possible. -/
def sendJSON (w : World) (origin : Origin) (msg : ControlMessage) : Branch → Option World
  | .put =>
    match w.send.send? ⟨.text msg, origin⟩ with
    | some c => some { w with send := c }
    | none => none
  | .done => if w.cancelled then some w else none
  | .dropped =>
    if w.send.Full ∧ w.cancelled = false then
      some { w with dropped := w.dropped ++ [(msg, w.send.items.length)] }
    else none

/-- `sendError`, `session.go:561`. -/
def sendError (w : World) (origin : Origin) (code message : String) : Branch → Option World :=
  w.sendJSON origin (.error code message)

end World
end BibiCore.Session
