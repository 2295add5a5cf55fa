import BibiCore.Session.History
import BibiCore.Session.Interrupts
import BibiCore.Session.Speech
import BibiCore.Site.Assistant

/-!
# A page and its gateway session

One connection of the assistant page over a WebSocket that loses and reorders nothing. The frames
of the page wait in `uplink` until `readPump` reads them; those of the session are what `writePump`
has taken off `s.send`, of which the page has handled a prefix.
-/

namespace BibiCore.Site

open BibiCore.Session

/-- The frame is a `start`. -/
def isStart : ClientFrame → Bool
  | .text (.start _) => true
  | _ => false

/-- The message is an `interrupted`. -/
def isInterrupted (p : Put) : Bool :=
  match p.message with
  | .text (.interrupted _) => true
  | _ => false

/-- The frame an action reads off the WebSocket. -/
def reads : Action → Option ClientFrame
  | .readPump (.frame f) => some f
  | _ => none

/-- The turn whose start `readPump` has handled with the action. -/
def handling (w : World) (a : Action) : Option Nat :=
  match w.reader, a with
  | .store _, .readPump .next | .storeNil, .readPump .next => some w.currentTurn
  | _, _ => none

/-- A `start` as the page sent it: the sources then in `activeSources`, by their frames, and the
number of frames the page had handled. -/
structure Start where
  sources : List Nat
  received : Nat
  deriving DecidableEq

/-- The two ends of a connection. -/
structure Conversation where
  gateway : World
  page : Page
  uplink : List ClientFrame
  /-- history: the starts the page has sent; the gateway makes a turn of each, in order -/
  starts : List Start
  /-- history: the turns whose start has been handled, with the number of frames then enqueued -/
  handled : List (Nat × Nat)
  deriving DecidableEq

/-- A step of the session, of the page, or the page's next frame. -/
inductive Move where
  | gateway (a : Action)
  | page (e : PageEvent)
  | receive
  deriving DecidableEq

namespace Conversation

/-- Both ends when `onopen` has run, which sends the `voice` selected. -/
def opened (voice : String) : Conversation :=
  ⟨.new, .opened, Page.opened.sendVoiceSelection voice, [], []⟩

/-- What an action leaves of the uplink. -/
def uplinkAfter (c : Conversation) (a : Action) : Option (List ClientFrame) :=
  match reads a, c.uplink with
  | none, fs => some fs
  | some f, g :: fs => if f = g then some fs else none
  | some _, [] => none

/-- The start of the page, as the frames it has just sent contain one. -/
def startsIn (c : Conversation) (frames : List ClientFrame) : List Start :=
  (frames.filter isStart).map fun _ ↦ ⟨c.page.playback.playing, c.page.received⟩

/-- One step of the conversation. -/
def step (createBuffer : Int → Nat → Int → Bool) (c : Conversation) : Move → Option Conversation
  | .gateway a =>
    match c.uplinkAfter a, c.gateway.step a with
    | some fs, some w => some { c with
        gateway := w
        uplink := fs
        handled := c.handled ++ (handling c.gateway a).toList.map fun n ↦ (n, w.puts.length) }
    | _, _ => none
  | .page e =>
    (c.page.handle e).map fun (p, frames) ↦ { c with
      page := p, uplink := c.uplink ++ frames, starts := c.starts ++ c.startsIn frames }
  | .receive =>
    match c.gateway.written[c.page.received]? with
    | some p => (c.page.onmessage createBuffer p.message).map fun q ↦ { c with page := q }
    | none => none

/-- A conversation from `onopen` on; `createBuffer` is that of the page's audio context. -/
def system (createBuffer : Int → Nat → Int → Bool) (voice : String) :
    TransitionSystem Conversation Move where
  init := .opened voice
  step := step createBuffer

/-- What a move can do to the conversation. -/
inductive Moved (createBuffer : Int → Nat → Int → Bool) (c c' : Conversation) (m : Move) : Prop
  | gateway (a : Action) (fs : List ClientFrame) (w : World) (hm : m = .gateway a)
      (hf : c.uplinkAfter a = some fs) (hw : Session.system.step c.gateway a = some w)
      (h : c' = { c with
        gateway := w
        uplink := fs
        handled := c.handled ++ (handling c.gateway a).toList.map fun n ↦ (n, w.puts.length) })
  | page (e : PageEvent) (p : Page) (frames : List ClientFrame) (hm : m = .page e)
      (hp : c.page.handle e = some (p, frames))
      (h : c' = { c with
        page := p, uplink := c.uplink ++ frames, starts := c.starts ++ c.startsIn frames })
  | receive (p : Put) (q : Page) (hm : m = .receive)
      (hp : c.gateway.written[c.page.received]? = some p)
      (hq : c.page.onmessage createBuffer p.message = some q) (h : c' = { c with page := q })

/-- What a step of the conversation can do. -/
theorem step_moved {createBuffer : Int → Nat → Int → Bool} {voice : String} {c c' : Conversation}
    {m : Move} (h : (system createBuffer voice).step c m = some c') :
    Moved createBuffer c c' m := by
  cases m with
  | gateway a =>
    simp only [system, step] at h
    split at h
    · next fs w hf hw =>
      cases h
      exact .gateway a fs w rfl hf hw rfl
    · cases h
  | page e =>
    obtain ⟨⟨p, frames⟩, hp, rfl⟩ := Option.map_eq_some_iff.mp h
    exact .page e p frames rfl hp rfl
  | receive =>
    simp only [system, step] at h
    split at h
    · next p hp =>
      obtain ⟨q, hq, rfl⟩ := Option.map_eq_some_iff.mp h
      exact .receive p q rfl hp hq rfl
    · cases h

/-- An action leaves what it does not read. -/
theorem countP_uplink {c : Conversation} {a : Action} {fs : List ClientFrame}
    (h : c.uplinkAfter a = some fs) :
    c.uplink.countP isStart = (reads a).toList.countP isStart + fs.countP isStart := by
  unfold uplinkAfter at h
  split at h
  · next hr =>
    cases h
    simp [hr]
  · next f g fs' hr hu =>
    split at h <;> cases h
    next hfg =>
      subst hfg
      rw [hr, hu, Option.toList_some, List.countP_cons, List.countP_singleton, Nat.add_comm]
  · cases h

/-- The session of a conversation is a session. -/
theorem gateway_reachable {createBuffer : Int → Nat → Int → Bool} {voice : String}
    {c : Conversation} (hr : (system createBuffer voice).Reachable c) :
    Session.system.Reachable c.gateway := by
  refine hr.invariant (I := fun c ↦ Session.system.Reachable c.gateway) ?_
    fun c m c' _ hw h ↦ ?_
  · exact .init
  · cases step_moved h with
    | gateway a fs w _ _ hs h =>
      subst h
      exact hw.next hs
    | page _ _ _ _ _ h | receive _ _ _ _ _ h =>
      subst h
      exact hw

end Conversation

/-! ### The session's side -/

section

variable {w w' : World} {a : Action}

/-- The starts `readPump` has read. -/
def startsRead (w : World) : Nat := w.currentTurn + if w.reader = .addTurn then 1 else 0

private theorem readPump_addTurn {b : ReadAction} (h : w.readPump b = some w')
    (hr : w'.reader = .addTurn) : ∃ format, b = .frame (.text (.start format)) := by
  cases World.readStep_of_readPump h with
  | start format => exact ⟨format, rfl⟩
  | setVoice _ hidle | noUtterance hidle => cases hidle.symm.trans hr
  | _ => cases hr

/-- Every start read becomes a turn. -/
theorem step_startsRead (h : Session.system.step w a = some w') :
    startsRead w' = startsRead w + (reads a).toList.countP isStart := by
  cases step_startStep h with
  | addTurn ha hr ht hr' =>
    subst ha
    simp [startsRead, hr, hr', ht, reads]
  | keep ht =>
    by_cases ha : ∃ b, a = .readPump b
    · obtain ⟨b, rfl⟩ := ha
      replace h : w.readPump b = some w' := h
      have hleft : w.reader ≠ .addTurn := by
        intro hr
        unfold World.readPump at h
        simp only [hr] at h
        cases b <;> cases h
        simp at ht
      by_cases hstart : ∃ format, b = .frame (.text (.start format))
      · obtain ⟨format, rfl⟩ := hstart
        have hr' : w'.reader = .addTurn := by
          cases World.readStep_of_readPump h
          rfl
        simp [startsRead, hleft, hr', ht, reads, isStart]
      · have hr' : w'.reader ≠ .addTurn := fun hr ↦ hstart (readPump_addTurn h hr)
        have hnone : (reads (.readPump b)).toList.countP isStart = 0 := by
          cases b with
          | frame f =>
            cases f with
            | binary => rfl
            | text request =>
              cases request with
              | start format => exact absurd ⟨format, rfl⟩ hstart
              | _ => rfl
          | _ => rfl
        simp [startsRead, hleft, hr', ht, hnone]
    · have hr := (step_sameInterrupts h fun b hb ↦ ha ⟨b, hb⟩).reader
      have hnone : reads a = none := by
        unfold reads
        split
        · exact absurd ⟨_, rfl⟩ ha
        · rfl
      simp [startsRead, hr, ht, hnone]

/-- What was enqueued stays enqueued. -/
theorem step_puts (h : Session.system.step w a = some w') : w.puts <+: w'.puts := by
  by_cases ha : ∃ b, a = .ttsWorker b
  · obtain ⟨b, rfl⟩ := ha
    exact (step_sameInterrupts h (by simp)).puts
  · obtain ⟨-, new, hp, -⟩ := step_elsewhere h fun b hb ↦ ha ⟨b, hb⟩
    exact hp ▸ List.prefix_append _ _

/-- What was written stays written. -/
theorem step_written (h : Session.system.step w a = some w') :
    w.written.length ≤ w'.written.length := by
  have same {w' : World} (hw : w'.written = w.written) : w.written.length ≤ w'.written.length :=
    Nat.le_of_eq (congrArg List.length hw).symm
  cases a with
  | readPump b =>
    cases World.readPump_effect h with
    | own _ _ _ _ _ _ _ _ _ _ h | cutLLM _ _ _ _ h | cutTTS _ _ _ _ h | cutJob _ _ _ _ _ _ h =>
      subst h
      exact same rfl
    | report _ _ _ v _ hs h | notify _ _ v _ hs h =>
      obtain ⟨send, dropped, rfl, -⟩ := World.sendJSON_eq_some hs
      subst h
      exact same rfl
  | audioSendWorker b =>
    obtain ⟨send, dropped, queue, pc, i, g, rfl, -⟩ := World.audioSendWorker_footprint h
    exact same rfl
  | forwardTranscripts i b =>
    obtain ⟨c, send, dropped, active, llm, g, -, rfl, -⟩ := World.forwardTranscripts_footprint h
    exact same rfl
  | forwardLLMEvents j b =>
    obtain ⟨send, dropped, active, queue, history, answered, g, rfl, -⟩ :=
      World.forwardLLMEvents_footprint h
    exact same rfl
  | ttsWorker b =>
    obtain ⟨send, dropped, queue, taken, active, pc, tts, rfl, -⟩ :=
      World.ttsWorkerStep_footprint h
    exact same rfl
  | sttRecvPump i b =>
    obtain ⟨c, s, -, -, rfl⟩ := World.sttRecvPump_eq_some h
    exact same rfl
  | llmRecvPump j b =>
    obtain ⟨c, s, -, -, rfl⟩ := World.llmRecvPump_eq_some h
    exact same rfl
  | ttsRecvPump k b =>
    obtain ⟨c, s, -, -, rfl⟩ := World.ttsRecvPump_eq_some h
    exact same rfl
  | write =>
    simp only [Session.system, World.step, World.write] at h
    split at h
    · split at h <;> cases h
      simp
    · cases h
  | stopWriting =>
    obtain rfl := World.stopWriting_eq_some h
    exact same rfl

/-- The action that notifies enqueues the message. -/
theorem puts_of_notifying {n : Nat} (h : Session.system.step w a = some w')
    (hn : w.notifying a = some n) :
    w'.puts = w.puts ++ [⟨.text (.interrupted n), .readPump⟩] := by
  unfold World.notifying at hn
  split at hn
  · split at hn <;> cases hn
    next hr =>
      replace h : w.readPump (.select .put) = some w' := h
      unfold World.readPump at h
      simp only [hr] at h
      obtain ⟨v, hv, rfl⟩ := Option.map_eq_some_iff.mp h
      obtain ⟨send, rfl, hs⟩ := World.sendJSON_put_eq_some hv
      simp [World.puts, hs]
  · cases hn

/-- A start is handled after its interruption has returned. -/
theorem returned_of_handling {n : Nat} (hn : handling w a = some n) : w.InterruptReturned n := by
  unfold handling at hn
  split at hn <;> cases hn
  all_goals
    next hr => exact ⟨Nat.le_refl _, by simp [hr]⟩

end

end BibiCore.Site
