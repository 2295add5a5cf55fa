import BibiCore.Session.State

/-!
# `forwardTranscripts` and `startLLMChat`

`session.go:358` and `378`: one goroutine for each stt stream. It loads its turn when it is
first scheduled, and starts an llm chat for every final transcript it forwards.
-/

namespace BibiCore.Session

open BibiCore.Gateway
open BibiCore.Proto (ChatMessage)

/-- What makes a `forwardTranscripts` goroutine take a step: the outcome of `StartChat`, the
case of a `sendJSON`, or nothing but its own next statement. -/
inductive TranscriptsAction where
  | startOk
  | startError
  | select (b : World.Branch)
  | next
  deriving DecidableEq

/-- The stream `StartChat` returns, before its goroutine is started. -/
def LlmCall.opened (opener turn : Nat) (prompt : String) (context : List ChatMessage) :
    LlmCall where
  stream := .opened
  forwarder := .unstarted
  turn := turn
  prompt := prompt
  fullResponse := ""
  context := context
  opener := opener
  offered := []
  settled := false
  closedBy := none

/-- The goroutine moves on. -/
def SttCall.goto (pc : TranscriptsPc) (c : SttCall) : SttCall := { c with forwarder := pc }

namespace World

/-- Goroutine `i` moves on. -/
def gotoTranscripts (w : World) (i : Nat) (pc : TranscriptsPc) : World :=
  { w with stt := w.stt.modify i (SttCall.goto pc) }

/-- The message `forwardTranscripts` sends for an event of its turn, `session.go:366`. -/
def transcriptMessage (turn : Nat) : TranscriptEvent → ControlMessage
  | .partialEvent text => .partialTranscript text turn
  | .finalEvent text => .finalTranscript text turn
  | .error code message => .error code message

/-- Where the goroutine is after it has sent that message: a final transcript starts a chat. -/
def afterTranscript (turn : Nat) : TranscriptEvent → TranscriptsPc
  | .partialEvent _ => .ranging turn
  | .finalEvent text => .chatCheck turn text
  | .error _ _ => .ranging turn

/-- One step of the `forwardTranscripts` goroutine of stt stream `i`, whose call is `c`. -/
def transcriptsStep (w : World) (i : Nat) (c : SttCall) (a : TranscriptsAction) : Option World :=
  match c.forwarder, a with
  | .starting, .next => some (w.gotoTranscripts i (.ranging w.currentTurn))
  | .ranging turn, .next =>
    match c.stream.next? with
    | some (event, s) =>
      some { w with
        stt := w.stt.modify i fun c ↦ { c with stream := s, forwarder := .check turn event } }
    | none => if c.stream.rangeOver then some (w.gotoTranscripts i .done) else none
  | .check turn event, .next =>
    some (w.gotoTranscripts i
      (if w.currentTurn ≠ turn then .ranging turn else .forward turn event))
  | .forward turn event, .select b =>
    (w.sendJSON (.forwardTranscripts i) (transcriptMessage turn event) b).map
      fun w ↦ w.gotoTranscripts i (afterTranscript turn event)
  -- startLLMChat
  | .chatCheck turn prompt, .next =>
    some (w.gotoTranscripts i
      (if w.currentTurn ≠ turn then .ranging turn else .chatSnapshot turn prompt))
  | .chatSnapshot turn prompt, .next =>
    if w.locked then none
    else some (w.gotoTranscripts i (.chatOpening turn prompt w.history))
  | .chatOpening turn prompt history, .startOk =>
    some ({ w with llm := w.llm ++ [LlmCall.opened i turn prompt history] }.gotoTranscripts i
      (.chatPublish turn w.llm.length))
  | .chatOpening turn _ _, .startError => some (w.gotoTranscripts i (.chatFailed turn))
  | .chatFailed turn, .select b =>
    (w.sendError (.forwardTranscripts i) "llm_unavailable" "could not start chat response" b).map
      fun w ↦ w.gotoTranscripts i (.ranging turn)
  | .chatPublish turn llm, .next =>
    if w.locked then none
    else some ({ w with
      activeLLMStream := some llm
      llm := w.llm.modify llm fun l ↦ { l with forwarder := .ranging } }.gotoTranscripts i
        (.ranging turn))
  | _, _ => none

/-- One step of the `forwardTranscripts` goroutine of stt stream `i`. -/
def forwardTranscripts (w : World) (i : Nat) (a : TranscriptsAction) : Option World :=
  match w.stt[i]? with
  | some c => w.transcriptsStep i c a
  | none => none

/-! ### What a step of `forwardTranscripts` can do -/

/-- Every step the `forwardTranscripts` goroutine of stt stream `i`, whose call is `c`, can take,
with the conditions under which it is taken. -/
inductive TranscriptsStep (w : World) (i : Nat) (c : SttCall) : TranscriptsAction → World → Prop
  | load (hp : c.forwarder = .starting) :
      TranscriptsStep w i c .next (w.gotoTranscripts i (.ranging w.currentTurn))
  | take (turn : Nat) (event : TranscriptEvent) (s : SttStream) (hp : c.forwarder = .ranging turn)
      (hs : c.stream.next? = some (event, s)) : TranscriptsStep w i c .next
      { w with
        stt := w.stt.modify i fun c ↦ { c with stream := s, forwarder := .check turn event } }
  | rangeOver (turn : Nat) (hp : c.forwarder = .ranging turn) (ho : c.stream.rangeOver) :
      TranscriptsStep w i c .next (w.gotoTranscripts i .done)
  | stale (turn : Nat) (event : TranscriptEvent) (hp : c.forwarder = .check turn event)
      (ht : w.currentTurn ≠ turn) :
      TranscriptsStep w i c .next (w.gotoTranscripts i (.ranging turn))
  | pass (turn : Nat) (event : TranscriptEvent) (hp : c.forwarder = .check turn event)
      (ht : w.currentTurn = turn) :
      TranscriptsStep w i c .next (w.gotoTranscripts i (.forward turn event))
  | forward (turn : Nat) (event : TranscriptEvent) (b : Branch) (v : World)
      (hp : c.forwarder = .forward turn event)
      (hv : w.sendJSON (.forwardTranscripts i) (transcriptMessage turn event) b = some v) :
      TranscriptsStep w i c (.select b) (v.gotoTranscripts i (afterTranscript turn event))
  | chatStale (turn : Nat) (prompt : String) (hp : c.forwarder = .chatCheck turn prompt)
      (ht : w.currentTurn ≠ turn) :
      TranscriptsStep w i c .next (w.gotoTranscripts i (.ranging turn))
  | chatPass (turn : Nat) (prompt : String) (hp : c.forwarder = .chatCheck turn prompt)
      (ht : w.currentTurn = turn) :
      TranscriptsStep w i c .next (w.gotoTranscripts i (.chatSnapshot turn prompt))
  | snapshot (turn : Nat) (prompt : String) (hp : c.forwarder = .chatSnapshot turn prompt)
      (hl : w.locked = false) :
      TranscriptsStep w i c .next (w.gotoTranscripts i (.chatOpening turn prompt w.history))
  | startChat (turn : Nat) (prompt : String) (history : List ChatMessage)
      (hp : c.forwarder = .chatOpening turn prompt history) : TranscriptsStep w i c .startOk
      ({ w with llm := w.llm ++ [LlmCall.opened i turn prompt history] }.gotoTranscripts i
        (.chatPublish turn w.llm.length))
  | startError (turn : Nat) (prompt : String) (history : List ChatMessage)
      (hp : c.forwarder = .chatOpening turn prompt history) :
      TranscriptsStep w i c .startError (w.gotoTranscripts i (.chatFailed turn))
  | chatFailed (turn : Nat) (b : Branch) (v : World) (hp : c.forwarder = .chatFailed turn)
      (hv : w.sendError (.forwardTranscripts i) "llm_unavailable" "could not start chat response"
        b = some v) :
      TranscriptsStep w i c (.select b) (v.gotoTranscripts i (.ranging turn))
  | publish (turn j : Nat) (hp : c.forwarder = .chatPublish turn j) (hl : w.locked = false) :
      TranscriptsStep w i c .next ({ w with
        activeLLMStream := some j
        llm := w.llm.modify j fun l ↦ { l with forwarder := .ranging } }.gotoTranscripts i
          (.ranging turn))

/-- `forwardTranscripts` does nothing else. -/
theorem transcriptsStep_of_forwardTranscripts {w w' : World} {i : Nat} {a : TranscriptsAction}
    (h : w.forwardTranscripts i a = some w') :
    ∃ c, w.stt[i]? = some c ∧ TranscriptsStep w i c a w' := by
  unfold forwardTranscripts at h
  split at h
  · next c hc =>
    refine ⟨c, hc, ?_⟩
    unfold transcriptsStep at h
    split at h
    · next hp =>
      cases h
      exact .load hp
    · next turn hp =>
      split at h
      · next event s hs =>
        cases h
        exact .take turn event s hp hs
      · split at h <;> cases h
        next ho => exact .rangeOver turn hp ho
    · next turn event hp =>
      cases h
      split
      · next ht => exact .stale turn event hp ht
      · next ht => exact .pass turn event hp (not_not.mp ht)
    · next turn event b hp =>
      obtain ⟨v, hv, rfl⟩ := Option.map_eq_some_iff.mp h
      exact .forward turn event b v hp hv
    · next turn prompt hp =>
      cases h
      split
      · next ht => exact .chatStale turn prompt hp ht
      · next ht => exact .chatPass turn prompt hp (not_not.mp ht)
    · next turn prompt hp =>
      split at h <;> cases h
      next hl => exact .snapshot turn prompt hp (Bool.eq_false_iff.mpr hl)
    · next turn prompt history hp =>
      cases h
      exact .startChat turn prompt history hp
    · next turn prompt history hp =>
      cases h
      exact .startError turn prompt history hp
    · next turn b hp =>
      obtain ⟨v, hv, rfl⟩ := Option.map_eq_some_iff.mp h
      exact .chatFailed turn b v hp hv
    · next turn j hp =>
      split at h <;> cases h
      next hl => exact .publish turn j hp (Bool.eq_false_iff.mpr hl)
    · cases h
  · cases h

end World
end BibiCore.Session
