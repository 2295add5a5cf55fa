import BibiCore.Base.TransitionSystem
import BibiCore.Base.ListUpdate
import BibiCore.Session.State

/-!
# The transcript of the assistant page

`site/assistant.html:423`–`557`, with the handlers that call it: the turns the page shows, and the
variables that point into them. A control message opens, fills and closes turns; a frame of audio
sets a timer that reveals the sentence it belongs to. The timers fire in any order, and the page
keeps its transcript over a closed connection.
-/

namespace BibiCore.Site

open BibiCore.Session

/-- An `assistant-sentence`, with its classes; `id` tells the elements apart. -/
structure Sentence where
  id : Nat
  html : String
  pending : Bool
  speaking : Bool
  deriving DecidableEq

/-- A turn of the user, provisional until it is committed; `turn` tells the elements apart. -/
structure Said where
  turn : Nat
  text : String
  provisional : Bool
  deriving DecidableEq

/-- A turn of the assistant, with its cursor and the mark of having been stopped. -/
structure Answer where
  turn : Nat
  sentences : List Sentence
  cursor : Bool
  stopped : Bool
  deriving DecidableEq

/-- A child of `el.turns`. -/
inductive Block where
  | hr
  | you (said : Said)
  | bibi (answer : Answer)
  deriving DecidableEq

namespace Block

/-- The turn of the user a block is. -/
@[simp] def you? : Block → Option Said
  | .you s => some s
  | .hr | .bibi _ => none

/-- The turn of the assistant a block is. -/
@[simp] def bibi? : Block → Option Answer
  | .bibi a => some a
  | .hr | .you _ => none

/-- The number of the turn a block is. -/
@[simp] def turn? : Block → Option Nat
  | .hr => none
  | .you s => some s.turn
  | .bibi a => some a.turn

/-- Changes the user's part of a turn. -/
@[simp] def onYou (turn : Nat) (f : Said → Said) : Block → Block
  | .you s => .you (if s.turn = turn then f s else s)
  | .hr => .hr
  | .bibi a => .bibi a

/-- Changes the assistant's part of a turn. -/
@[simp] def onBibi (turn : Nat) (f : Answer → Answer) : Block → Block
  | .bibi a => .bibi (if a.turn = turn then f a else a)
  | .hr => .hr
  | .you s => .you s

end Block

/-- Changes one of the sentences of an answer. -/
def Answer.onSentence (id : Nat) (f : Sentence → Sentence) (a : Answer) : Answer :=
  { a with sentences := a.sentences.map fun s ↦ if s.id = id then f s else s }

/-- One more sentence, hidden until it is spoken, with the cursor behind it. -/
def Answer.addSentence (id : Nat) (html : String) (a : Answer) : Answer :=
  { a with sentences := a.sentences ++ [⟨id, html, true, false⟩], cursor := true }

/-- The cursor goes, and the mark comes when the answer was stopped. -/
def Answer.close (markStopped : Bool) (a : Answer) : Answer :=
  { a with cursor := false, stopped := a.stopped || markStopped }

/-- Changes a sentence, wherever it is. -/
@[simp] def Block.onSentence (id : Nat) (f : Sentence → Sentence) : Block → Block
  | .bibi a => .bibi (a.onSentence id f)
  | .hr => .hr
  | .you s => .you s

/-- The variables of the page. `partialWrap` and `assistantWrap` stand for the turns they hold, with
`partialBody`, `assistantSentencesEl` and `assistantCursorEl` beside them; `sentenceCount` counts
the sentences created, and the timers are those that have not fired. -/
structure Transcript where
  emptyHint : Bool
  turns : List Block
  turnCount : Nat
  partialWrap : Option Nat
  assistantWrap : Option Nat
  assistantOpen : Bool
  settleTimer : Bool
  pendingSentenceForAudio : Option Nat
  currentSpeakingEl : Option Nat
  sentenceHighlightTimers : List Nat
  sentenceCount : Nat
  deriving DecidableEq

/-- What happens to the transcript: a control message, a frame of audio that becomes a source, a
timer, and `ws.onclose`. -/
inductive TranscriptEvent where
  | message (message : ControlMessage)
  | audioFrame
  | highlight (k : Nat)
  | settle
  | close
  deriving DecidableEq

namespace Transcript

/-- The page as it loads. -/
def new : Transcript where
  emptyHint := true
  turns := []
  turnCount := 0
  partialWrap := none
  assistantWrap := none
  assistantOpen := false
  settleTimer := false
  pendingSentenceForAudio := none
  currentSpeakingEl := none
  sentenceHighlightTimers := []
  sentenceCount := 0

/-- `beginTurn`. -/
def beginTurn (t : Transcript) : Transcript :=
  { t with
    emptyHint := false
    turns := if 0 < t.turnCount then t.turns ++ [.hr] else t.turns
    turnCount := t.turnCount + 1 }

/-- `ensurePartial`. -/
def ensurePartial (t : Transcript) : Transcript :=
  match t.partialWrap with
  | some _ => t
  | none =>
    let t := t.beginTurn
    { t with
      partialWrap := some t.turnCount
      turns := t.turns ++ [.you ⟨t.turnCount, "", true⟩] }

/-- `updatePartial`. -/
def updatePartial (text : String) (t : Transcript) : Transcript :=
  let t := t.ensurePartial
  match t.partialWrap with
  | some turn => { t with turns := t.turns.map (.onYou turn ({ · with text := text })) }
  | none => t

/-- `commitPartial`. -/
def commitPartial (text : String) (t : Transcript) : Transcript :=
  let t := t.ensurePartial
  match t.partialWrap with
  | some turn =>
    { t with
      turns := t.turns.map (.onYou turn ({ · with text := text, provisional := false }))
      partialWrap := none }
  | none => t

/-- `currentSpeakingEl.classList.remove('speaking')`, when there is one. -/
def stopSpeaking (t : Transcript) : Transcript :=
  match t.currentSpeakingEl with
  | some id => { t with turns := t.turns.map (.onSentence id ({ · with speaking := false })) }
  | none => t

/-- `clearSentenceHighlighting`. -/
def clearSentenceHighlighting (t : Transcript) : Transcript :=
  { t.stopSpeaking with
    sentenceHighlightTimers := []
    currentSpeakingEl := none
    pendingSentenceForAudio := none }

/-- `highlightSentence`. -/
def highlightSentence (id : Nat) (t : Transcript) : Transcript :=
  let t := t.stopSpeaking
  { t with
    turns := t.turns.map (.onSentence id ({ · with pending := false, speaking := true }))
    currentSpeakingEl := some id }

/-- `openAssistantTurn`. -/
def openAssistantTurn (t : Transcript) : Transcript :=
  let t := t.beginTurn.clearSentenceHighlighting
  { t with
    assistantWrap := some t.turnCount
    turns := t.turns ++ [.bibi ⟨t.turnCount, [], true, false⟩]
    assistantOpen := true }

/-- Changes the turn in `assistantWrap`. -/
def onAssistant (f : Answer → Answer) (t : Transcript) : Transcript :=
  match t.assistantWrap with
  | some turn => { t with turns := t.turns.map (.onBibi turn f) }
  | none => t

/-- `appendAssistantChunk` in an open turn. Where `renderMarkdown` throws, nothing happens. -/
def appendSentence (renderMarkdown : String → Option String) (text : String) (t : Transcript) :
    Transcript :=
  match t.assistantWrap, renderMarkdown text with
  | some _, some html =>
    { t.onAssistant (.addSentence t.sentenceCount html) with
      pendingSentenceForAudio := some t.sentenceCount
      sentenceCount := t.sentenceCount + 1
      settleTimer := true }
  | _, _ => t

/-- `appendAssistantChunk`. -/
def appendAssistantChunk (renderMarkdown : String → Option String) (text : String)
    (t : Transcript) : Transcript :=
  (if t.assistantOpen then t else t.openAssistantTurn).appendSentence renderMarkdown text

/-- The callback of `settleTimer`. -/
def settle (t : Transcript) : Transcript := t.onAssistant ({ · with cursor := false })

/-- `closeAssistantTurn`. -/
def closeAssistantTurn (markStopped : Bool) (t : Transcript) : Transcript :=
  if t.assistantOpen then
    let t := { t with settleTimer := false }.clearSentenceHighlighting
    { t.onAssistant (.close markStopped) with
      assistantWrap := none
      assistantOpen := false }
  else t

/-- `partialWrap.remove()`, when there is one. -/
def removePartial (t : Transcript) : Transcript :=
  match t.partialWrap with
  | some turn =>
    { t with
      turns := t.turns.filter fun b ↦ b.you?.all (·.turn ≠ turn)
      partialWrap := none }
  | none => t

/-- `resetInFlightState`, less the playback. -/
def resetInFlightState (t : Transcript) : Transcript := t.removePartial.closeAssistantTurn true

/-- `handleControlMessage`, as far as it touches the transcript. -/
def handleControlMessage (renderMarkdown : String → Option String) (t : Transcript) :
    ControlMessage → Transcript
  | .partialTranscript text _ => t.updatePartial text
  | .finalTranscript text _ => (t.closeAssistantTurn false).commitPartial text
  | .llmChunk text _ => t.appendAssistantChunk renderMarkdown text
  | .interrupted _ => t.closeAssistantTurn true
  | .audioFormat _ _ | .error _ _ => t

/-- The part of `handleAudioFrame` that is about the sentence the frame belongs to. -/
def handleAudioFrame (t : Transcript) : Transcript :=
  match t.pendingSentenceForAudio with
  | some id =>
    { t with
      pendingSentenceForAudio := none
      sentenceHighlightTimers := t.sentenceHighlightTimers ++ [id] }
  | none => t

/-- One event. A timer fires once; the `k`-th of the highlighting ones may be the first. -/
def step (renderMarkdown : String → Option String) (t : Transcript) :
    TranscriptEvent → Option Transcript
  | .message message => some (t.handleControlMessage renderMarkdown message)
  | .audioFrame => some t.handleAudioFrame
  | .highlight k =>
    t.sentenceHighlightTimers[k]?.map fun id ↦
      { t with sentenceHighlightTimers := t.sentenceHighlightTimers.eraseIdx k }.highlightSentence
        id
  | .settle => if t.settleTimer then some { t with settleTimer := false }.settle else none
  | .close => some t.resetInFlightState

/-- The transcript from the load of the page on. `renderMarkdown` is given the text of a message,
empty when it has none, and may throw. -/
def system (renderMarkdown : String → Option String) :
    TransitionSystem Transcript TranscriptEvent where
  init := new
  step := step renderMarkdown

/-- What the user has said, in the order shown. -/
def said (t : Transcript) : List Said := t.turns.filterMap Block.you?

/-- What the assistant has answered, in the order shown. -/
def answers (t : Transcript) : List Answer := t.turns.filterMap Block.bibi?

/-- The sentences of all answers, in the order shown. -/
def sentences (t : Transcript) : List Sentence := t.answers.flatMap Answer.sentences

/-- The turns of the user that are no longer provisional. -/
def committed (t : Transcript) : List Said := t.said.filter (!·.provisional)

/-- The answers that have been closed. -/
def closed (t : Transcript) : List Answer := t.answers.filter (t.assistantWrap ≠ some ·.turn)

end Transcript

/-- The text a message commits. -/
def TranscriptEvent.finals : TranscriptEvent → List String
  | .message (.finalTranscript text _) => [text]
  | _ => []

/-- The text a message adds to an answer. -/
def TranscriptEvent.chunks : TranscriptEvent → List String
  | .message (.llmChunk text _) => [text]
  | _ => []

/-! ### Changing one part of the transcript -/

namespace Block

variable (bs : List Block) (n : Nat)

/-- A change of the user's block of a turn. -/
theorem you_onYou (f : Said → Said) :
    (bs.map (onYou n f)).filterMap you? =
      (bs.filterMap you?).map fun s ↦ if s.turn = n then f s else s := by
  rw [List.filterMap_map, List.map_filterMap]
  exact List.filterMap_congr fun b _ ↦ by cases b <;> rfl

/-- A change of the answer of a turn. -/
theorem bibi_onBibi (f : Answer → Answer) :
    (bs.map (onBibi n f)).filterMap bibi? =
      (bs.filterMap bibi?).map fun a ↦ if a.turn = n then f a else a := by
  rw [List.filterMap_map, List.map_filterMap]
  exact List.filterMap_congr fun b _ ↦ by cases b <;> rfl

/-- A change of one sentence, among the answers. -/
theorem bibi_onSentence (f : Sentence → Sentence) :
    (bs.map (onSentence n f)).filterMap bibi? =
      (bs.filterMap bibi?).map (Answer.onSentence n f) := by
  rw [List.filterMap_map, List.map_filterMap]
  exact List.filterMap_congr fun b _ ↦ by cases b <;> rfl

/-- A change of a user's block leaves the answers. -/
@[simp] theorem bibi_onYou (f : Said → Said) :
    (bs.map (onYou n f)).filterMap bibi? = bs.filterMap bibi? := by
  rw [List.filterMap_map]
  exact List.filterMap_congr fun b _ ↦ by cases b <;> rfl

/-- A change of an answer leaves the user's blocks. -/
@[simp] theorem you_onBibi (f : Answer → Answer) :
    (bs.map (onBibi n f)).filterMap you? = bs.filterMap you? := by
  rw [List.filterMap_map]
  exact List.filterMap_congr fun b _ ↦ by cases b <;> rfl

/-- A change of a sentence leaves the user's blocks. -/
@[simp] theorem you_onSentence (f : Sentence → Sentence) :
    (bs.map (onSentence n f)).filterMap you? = bs.filterMap you? := by
  rw [List.filterMap_map]
  exact List.filterMap_congr fun b _ ↦ by cases b <;> rfl

/-- A change of a user's block leaves the turns where it leaves its own. -/
theorem turn_onYou {f : Said → Said} (hf : ∀ s, (f s).turn = s.turn) :
    (bs.map (onYou n f)).filterMap turn? = bs.filterMap turn? := by
  rw [List.filterMap_map]
  refine List.filterMap_congr fun b _ ↦ ?_
  cases b with
  | you s => by_cases h : s.turn = n <;> simp [h, hf]
  | hr | bibi => rfl

/-- A change of an answer leaves the turns where it leaves its own. -/
theorem turn_onBibi {f : Answer → Answer} (hf : ∀ a, (f a).turn = a.turn) :
    (bs.map (onBibi n f)).filterMap turn? = bs.filterMap turn? := by
  rw [List.filterMap_map]
  refine List.filterMap_congr fun b _ ↦ ?_
  cases b with
  | bibi a => by_cases h : a.turn = n <;> simp [h, hf]
  | hr | you => rfl

/-- A change of a sentence leaves the turns. -/
@[simp] theorem turn_onSentence (f : Sentence → Sentence) :
    (bs.map (onSentence n f)).filterMap turn? = bs.filterMap turn? := by
  rw [List.filterMap_map]
  exact List.filterMap_congr fun b _ ↦ by cases b <;> rfl

end Block

/-- A sentence of another answer. -/
theorem Answer.onSentence_of_ne {id : Nat} {a : Answer} (f : Sentence → Sentence)
    (h : ∀ s ∈ a.sentences, s.id ≠ id) : a.onSentence id f = a := by
  rw [onSentence, List.map_ite_of_not f h]

end BibiCore.Site
