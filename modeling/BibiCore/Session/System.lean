import BibiCore.Base.TransitionSystem
import BibiCore.Session.ReadPump
import BibiCore.Session.AudioSendWorker
import BibiCore.Session.Transcripts
import BibiCore.Session.LlmEvents
import BibiCore.Session.TtsWorker

/-!
# The session as one transition system

Every interleaving of a session's goroutines, its clients' `recvPump`s, `writePump` and the
outside world is a list of actions of one system.
-/

namespace BibiCore.Session

open BibiCore.Gateway
open BibiCore.Proto (TtsAudioChunkMsg)

/-- One atomic step of one of the goroutines. -/
inductive Action where
  | readPump (a : ReadAction)
  | audioSendWorker (a : AudioAction)
  | forwardTranscripts (i : Nat) (a : TranscriptsAction)
  | forwardLLMEvents (j : Nat) (a : LlmEventsAction)
  | ttsWorker (a : TtsAction)
  | sttRecvPump (i : Nat) (a : PumpAction Proto.TranscriptEvent)
  | llmRecvPump (j : Nat) (a : PumpAction Proto.ChatEvent)
  | ttsRecvPump (k : Nat) (a : PumpAction TtsAudioChunkMsg)
  /-- `writePump` takes a message off `s.send` -/
  | write
  /-- `writePump` returns: a write or a ping failed, or the context is done -/
  | stopWriting
  deriving DecidableEq

namespace World

/-- One step of the `recvPump` of stt stream `i`. -/
def sttRecvPump (w : World) (i : Nat) (a : PumpAction Proto.TranscriptEvent) : Option World :=
  match w.stt[i]? with
  | some c =>
    (c.stream.recvPump Gateway.sttPump w.cancelled a).map
      fun s ↦ { w with stt := w.stt.modify i fun c ↦ { c with stream := s } }
  | none => none

/-- One step of the `recvPump` of llm stream `j`. -/
def llmRecvPump (w : World) (j : Nat) (a : PumpAction Proto.ChatEvent) : Option World :=
  match w.llm[j]? with
  | some c =>
    (c.stream.recvPump Gateway.llmPump w.cancelled a).map
      fun s ↦ { w with llm := w.llm.modify j fun c ↦ { c with stream := s } }
  | none => none

/-- One step of the `recvPump` of tts stream `k`. -/
def ttsRecvPump (w : World) (k : Nat) (a : PumpAction TtsAudioChunkMsg) : Option World :=
  match w.tts[k]? with
  | some c =>
    (c.stream.recvPump Gateway.ttsPump w.cancelled a).map
      fun s ↦ { w with tts := w.tts.modify k fun c ↦ { c with stream := s } }
  | none => none

/-- `writePump`, `session.go:565`, takes the oldest message off `s.send`. -/
def write (w : World) : Option World :=
  if w.writing then
    match w.send.recv? with
    | some (p, q) => some { w with send := q, written := w.written ++ [p] }
    | none => none
  else none

/-- One step of the session. -/
def step (w : World) : Action → Option World
  | .readPump a => w.readPump a
  | .audioSendWorker a => w.audioSendWorker a
  | .forwardTranscripts i a => w.forwardTranscripts i a
  | .forwardLLMEvents j a => w.forwardLLMEvents j a
  | .ttsWorker a => w.ttsWorkerStep a
  | .sttRecvPump i a => w.sttRecvPump i a
  | .llmRecvPump j a => w.llmRecvPump j a
  | .ttsRecvPump k a => w.ttsRecvPump k a
  | .write => w.write
  | .stopWriting => if w.writing then some { w with writing := false } else none

end World

/-- A session from `NewSession` on. -/
def system : TransitionSystem World Action where
  init := .new
  step := World.step

/-- The steps of `readPump` for one `start` that finds nothing to interrupt, no other goroutine
running in between. -/
def startActions : List Action :=
  .readPump (.frame (.text (.start defaultAudioFormat))) ::
    List.replicate 6 (.readPump .next) ++ [.readPump .openOk, .readPump .next]

/-- The same for a `start` that finds an llm stream to close; `b` is what becomes of its
`interrupted` message. -/
def bargeInActions (b : World.Branch) : List Action :=
  .readPump (.frame (.text (.start defaultAudioFormat))) ::
    List.replicate 5 (.readPump .next) ++
    [.readPump (.select b), .readPump .next, .readPump .openOk, .readPump .next]

/-- The client sends `n` frames that do not parse, each answered with an error. -/
def malformedActions (n : Nat) : List Action :=
  (List.replicate n
    [.readPump (.frame (.text .malformed)), .readPump (.select .put)]).flatten

/-- The steps by which a final transcript arrives on stt stream `i`, whose `forwardTranscripts`
has not been scheduled yet, and starts a chat, up to its publication. -/
def finalActions (i : Nat) (text : String) : List Action :=
  [.sttRecvPump i (.message ⟨.finalEvent, [⟨0, 0, text, none⟩], none, "", ""⟩),
    .sttRecvPump i .next] ++
    List.replicate 3 (.forwardTranscripts i .next) ++
    [.forwardTranscripts i (.select .put), .forwardTranscripts i .next,
      .forwardTranscripts i .next, .forwardTranscripts i .startOk]

/-- The client ends its utterance: the marker is sent on the stored stream, which is half-closed
after it. -/
def endUtteranceActions : List Action :=
  [.readPump (.frame (.text .endUtterance)), .readPump (.select .put), .audioSendWorker .dequeue,
    .audioSendWorker .next, .audioSendWorker .next, .audioSendWorker .sendOk,
    .audioSendWorker .next]

/-- A chunk of text arrives on llm stream `j` and is offered to `ttsQueue`. -/
def chunkActions (j : Nat) (text : String) : List Action :=
  [.llmRecvPump j (.message ⟨.chunk, text, "", ""⟩), .llmRecvPump j .next] ++
    List.replicate 3 (.forwardLLMEvents j .next)

/-- `ttsWorker` takes up a job, and the first audio chunk on its stream `k` is about to be sent
with its text. -/
def speakActions (k : Nat) (chunk : TtsAudioChunkMsg) : List Action :=
  [.ttsWorker .dequeue, .ttsWorker .next, .ttsWorker .next, .ttsWorker .startOk, .ttsWorker .next,
    .ttsWorker .next, .ttsRecvPump k (.message chunk), .ttsRecvPump k .next, .ttsWorker .next,
    .ttsWorker .next]

end BibiCore.Session
