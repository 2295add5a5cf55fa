import BibiCore.Session.State

/-!
# `audioSendWorker`

`session.go:201`: the only goroutine that calls `SendAudio` and `CloseSend`. The stream is loaded
after the frame has been dequeued.
-/

namespace BibiCore.Session

open BibiCore.Gateway

/-- What makes `audioSendWorker` take a step: the queue or the context in its select, the
outcome of the gRPC `Send`, the case of a `sendError`, or nothing but its own next statement. -/
inductive AudioAction where
  | dequeue
  | quit
  | sendOk
  | sendError (message : String)
  | select (b : World.Branch)
  | next
  deriving DecidableEq

/-- The closed flag of a call; a stream that does not exist is never asked. -/
def sttClosed (calls : List SttCall) (i : Nat) : Bool :=
  match calls[i]? with
  | some c => c.stream.closed
  | none => false

namespace SttCall

/-- `SendAudio` is called with a frame. -/
def pass (frame : AudioFrame) (c : SttCall) : SttCall := { c with passed := c.passed ++ [frame] }

/-- The gRPC `Send` of a frame succeeds. -/
def accept (frame : AudioFrame) (c : SttCall) : SttCall := { c with sent := c.sent ++ [frame] }

/-- `CloseSend` is called after a frame. -/
def closeSend (frame : AudioFrame) (c : SttCall) : SttCall :=
  { c with stream := SttStream.closeSend c.stream, closeSends := c.closeSends ++ [frame] }

end SttCall

namespace World

/-- One step of `audioSendWorker`. -/
def audioSendWorker (w : World) (a : AudioAction) : Option World :=
  match w.audioWorker, a with
  | .idle, .quit => if w.cancelled then some { w with audioWorker := .done } else none
  | .idle, .dequeue =>
    match w.audioQueue.recv? with
    | some (frame, q) => some { w with audioQueue := q, audioWorker := .got frame }
    | none => none
  | .got frame, .next =>
    match w.sttStream with
    | none => some { w with audioWorker := .idle }
    | some stt => some { w with
        stt := w.stt.modify stt (SttCall.pass frame), audioWorker := .check frame stt }
  -- SendAudio: ErrStreamClosed is benign and only logged
  | .check frame stt, .next =>
    some { w with audioWorker := if sttClosed w.stt stt then .idle else .sending frame stt }
  | .sending frame stt, .sendOk =>
    some { w with
      stt := w.stt.modify stt (SttCall.accept frame)
      audioWorker := if frame.closeSend then .closeSend frame stt else .idle }
  | .sending _ stt, .sendError message =>
    some { w with
      audioWorker :=
        if sttClosed w.stt stt ∨ w.sttStream ≠ some stt then .idle else .report message }
  | .report message, .select b =>
    (w.sendError .audioSendWorker "stt_send_failed" message b).map
      fun w ↦ { w with audioWorker := .idle }
  | .closeSend frame stt, .next =>
    some { w with
      stt := w.stt.modify stt (SttCall.closeSend frame), audioWorker := .idle }
  | _, _ => none

/-! ### What a step of `audioSendWorker` can do -/

/-- Every step `audioSendWorker` can take, with the conditions under which it is taken. -/
inductive AudioStep (w : World) : AudioAction → World → Prop
  | quit (hp : w.audioWorker = .idle) (hc : w.cancelled = true) :
      AudioStep w .quit { w with audioWorker := .done }
  | dequeue (frame : AudioFrame) (q : Chan AudioFrame 64) (hp : w.audioWorker = .idle)
      (hq : w.audioQueue.items = frame :: q.items) :
      AudioStep w .dequeue { w with audioQueue := q, audioWorker := .got frame }
  | noStream (frame : AudioFrame) (hp : w.audioWorker = .got frame) (hs : w.sttStream = none) :
      AudioStep w .next { w with audioWorker := .idle }
  | pass (frame : AudioFrame) (i : Nat) (hp : w.audioWorker = .got frame)
      (hs : w.sttStream = some i) : AudioStep w .next { w with
        stt := w.stt.modify i (SttCall.pass frame), audioWorker := .check frame i }
  | check (frame : AudioFrame) (i : Nat) (hp : w.audioWorker = .check frame i) :
      AudioStep w .next
        { w with audioWorker := if sttClosed w.stt i then .idle else .sending frame i }
  | sendOk (frame : AudioFrame) (i : Nat) (hp : w.audioWorker = .sending frame i) :
      AudioStep w .sendOk { w with
        stt := w.stt.modify i (SttCall.accept frame)
        audioWorker := if frame.closeSend then .closeSend frame i else .idle }
  | sendError (frame : AudioFrame) (i : Nat) (message : String)
      (hp : w.audioWorker = .sending frame i) : AudioStep w (.sendError message) { w with
        audioWorker :=
          if sttClosed w.stt i ∨ w.sttStream ≠ some i then .idle else .report message }
  | report (message : String) (b : Branch) (v : World) (hp : w.audioWorker = .report message)
      (hv : w.sendError .audioSendWorker "stt_send_failed" message b = some v) :
      AudioStep w (.select b) { v with audioWorker := .idle }
  | closeSend (frame : AudioFrame) (i : Nat) (hp : w.audioWorker = .closeSend frame i) :
      AudioStep w .next { w with
        stt := w.stt.modify i (SttCall.closeSend frame), audioWorker := .idle }

/-- `audioSendWorker` does nothing else. -/
theorem audioStep_of_audioSendWorker {w w' : World} {a : AudioAction}
    (h : w.audioSendWorker a = some w') : AudioStep w a w' := by
  unfold audioSendWorker at h
  split at h
  · next hp =>
    split at h <;> cases h
    next hc => exact .quit hp hc
  · next hp =>
    split at h <;> cases h
    next frame q hq => exact .dequeue frame q hp (Chan.recv?_eq_some.mp hq)
  · next frame hp =>
    split at h <;> cases h
    · next hs => exact .noStream frame hp hs
    · next i hs => exact .pass frame i hp hs
  · next frame i hp =>
    cases h
    exact .check frame i hp
  · next frame i hp =>
    cases h
    exact .sendOk frame i hp
  · next frame i message hp =>
    cases h
    exact .sendError frame i message hp
  · next message b hp =>
    obtain ⟨v, hv, rfl⟩ := Option.map_eq_some_iff.mp h
    exact .report message b v hp hv
  · next frame i hp =>
    cases h
    exact .closeSend frame i hp
  · cases h

end World
end BibiCore.Session
