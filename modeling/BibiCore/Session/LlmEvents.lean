import BibiCore.Session.State

/-!
# `forwardLLMEvents`

`session.go:404`: one goroutine for each llm stream. It offers every chunk to `ttsQueue` without
blocking and, on `Done`, clears `activeLLMStream` and extends the history.
-/

namespace BibiCore.Session

open BibiCore.Gateway
open BibiCore.Proto (ChatMessage)

/-- What makes a `forwardLLMEvents` goroutine take a step: the case of a `sendError`, or nothing
but its own next statement. -/
inductive LlmEventsAction where
  | select (b : World.Branch)
  | next
  deriving DecidableEq

namespace LlmCall

/-- The goroutine is back at the head of its loop, with the event processed. -/
def settle (c : LlmCall) : LlmCall := { c with forwarder := .ranging, settled := true }

/-- The goroutine returns. -/
def finish (c : LlmCall) : LlmCall := { c with forwarder := .done, settled := true }

/-- A chunk is added to the response and offered to `ttsQueue`, where `waiting` jobs are. -/
def offer (text : String) (waiting : Nat) (c : LlmCall) : LlmCall :=
  { c with
    forwarder := .ranging
    fullResponse := c.fullResponse ++ text
    offered := c.offered ++ [(text, waiting)] }

/-- The two messages a completed turn adds to the history. -/
def exchange (c : LlmCall) : List ChatMessage := [⟨"user", c.prompt⟩, ⟨"assistant", c.fullResponse⟩]

end LlmCall

namespace World

/-- One step of the `forwardLLMEvents` goroutine of llm stream `j`, whose call is `c`. -/
def llmEventsStep (w : World) (j : Nat) (c : LlmCall) (a : LlmEventsAction) : Option World :=
  match c.forwarder, a with
  | .ranging, .next =>
    match c.stream.next? with
    | some (event, s) =>
      some { w with
        llm := w.llm.modify j fun c ↦ { c with stream := s, forwarder := .check event } }
    | none =>
      if c.stream.rangeOver then some { w with llm := w.llm.modify j LlmCall.finish } else none
  | .check event, .next =>
    if w.currentTurn ≠ c.turn then some { w with llm := w.llm.modify j LlmCall.finish }
    else some { w with llm := w.llm.modify j fun c ↦ { c with forwarder := .handle event } }
  | .handle (.chunk text), .next =>
    let offer := LlmCall.offer text w.ttsQueue.items.length
    match w.ttsQueue.send? ⟨c.turn, text, j⟩ with
    | some q => some { w with ttsQueue := q, llm := w.llm.modify j offer }
    | none => some { w with llm := w.llm.modify j offer }
  | .handle .done, .next =>
    if w.locked then none
    else some { w with
      activeLLMStream := none
      history := w.history ++ c.exchange
      answered := w.answered ++ [j]
      llm := w.llm.modify j LlmCall.settle }
  | .handle (.error code message), .select b =>
    (w.sendError (.forwardLLMEvents j) code message b).map
      fun w ↦ { w with llm := w.llm.modify j LlmCall.settle }
  | _, _ => none

/-- One step of the `forwardLLMEvents` goroutine of llm stream `j`. -/
def forwardLLMEvents (w : World) (j : Nat) (a : LlmEventsAction) : Option World :=
  match w.llm[j]? with
  | some c => w.llmEventsStep j c a
  | none => none

/-! ### What a step of `forwardLLMEvents` can do -/

/-- Every step the `forwardLLMEvents` goroutine of llm stream `j`, whose call is `c`, can take,
with the conditions under which it is taken. -/
inductive LlmEventsStep (w : World) (j : Nat) (c : LlmCall) : LlmEventsAction → World → Prop
  | take (event : ChatEvent) (s : LlmStream) (hp : c.forwarder = .ranging)
      (hs : c.stream.next? = some (event, s)) : LlmEventsStep w j c .next
      { w with llm := w.llm.modify j fun c ↦ { c with stream := s, forwarder := .check event } }
  | rangeOver (hp : c.forwarder = .ranging) (ho : c.stream.rangeOver) :
      LlmEventsStep w j c .next { w with llm := w.llm.modify j LlmCall.finish }
  | stale (event : ChatEvent) (hp : c.forwarder = .check event) (ht : w.currentTurn ≠ c.turn) :
      LlmEventsStep w j c .next { w with llm := w.llm.modify j LlmCall.finish }
  | pass (event : ChatEvent) (hp : c.forwarder = .check event) (ht : w.currentTurn = c.turn) :
      LlmEventsStep w j c .next
        { w with llm := w.llm.modify j fun c ↦ { c with forwarder := .handle event } }
  | enqueue (text : String) (q : Chan TtsJob 32) (hp : c.forwarder = .handle (.chunk text))
      (hq : w.ttsQueue.send? ⟨c.turn, text, j⟩ = some q) : LlmEventsStep w j c .next
      { w with
        ttsQueue := q, llm := w.llm.modify j (LlmCall.offer text w.ttsQueue.items.length) }
  | dropChunk (text : String) (hp : c.forwarder = .handle (.chunk text))
      (hq : w.ttsQueue.Full) : LlmEventsStep w j c .next
      { w with llm := w.llm.modify j (LlmCall.offer text w.ttsQueue.items.length) }
  | complete (hp : c.forwarder = .handle .done) (hl : w.locked = false) :
      LlmEventsStep w j c .next { w with
        activeLLMStream := none
        history := w.history ++ c.exchange
        answered := w.answered ++ [j]
        llm := w.llm.modify j LlmCall.settle }
  | report (code message : String) (b : Branch) (v : World)
      (hp : c.forwarder = .handle (.error code message))
      (hv : w.sendError (.forwardLLMEvents j) code message b = some v) :
      LlmEventsStep w j c (.select b) { v with llm := v.llm.modify j LlmCall.settle }

/-- `forwardLLMEvents` does nothing else. -/
theorem llmEventsStep_of_forwardLLMEvents {w w' : World} {j : Nat} {a : LlmEventsAction}
    (h : w.forwardLLMEvents j a = some w') :
    ∃ c, w.llm[j]? = some c ∧ LlmEventsStep w j c a w' := by
  unfold forwardLLMEvents at h
  split at h
  · next c hc =>
    refine ⟨c, hc, ?_⟩
    unfold llmEventsStep at h
    split at h
    · next hp =>
      split at h
      · next event s hs =>
        cases h
        exact .take event s hp hs
      · split at h <;> cases h
        next ho => exact .rangeOver hp ho
    · next event hp =>
      split at h <;> cases h
      · next ht => exact .stale event hp ht
      · next ht => exact .pass event hp (not_not.mp ht)
    · next text hp =>
      split at h <;> cases h
      · next q hq => exact .enqueue text q hp hq
      · next hq => exact .dropChunk text hp (Chan.send?_eq_none.mp hq)
    · next hp =>
      split at h <;> cases h
      next hl => exact .complete hp (Bool.eq_false_iff.mpr hl)
    · next code message b hp =>
      obtain ⟨v, hv, rfl⟩ := Option.map_eq_some_iff.mp h
      exact .report code message b v hp hv
    · cases h
  · cases h

end World
end BibiCore.Session
