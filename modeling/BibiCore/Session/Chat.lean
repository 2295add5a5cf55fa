import BibiCore.Gateway.Relay
import BibiCore.Session.Footprint

/-!
# The llm side of a session

`ChatView` is what the turn, the `forwardTranscripts` goroutines, the llm streams and
`activeLLMStream` have to do with each other; `ChatStep` says once what a step of the session
can do to it. Invariants about generations are derived from `ChatStep` alone.
-/

namespace BibiCore.Session

open BibiCore.Gateway World
open BibiCore.Proto (ChatMessage)

/-- The part of a session that decides which llm streams run. -/
structure ChatView where
  turn : Nat
  active : Option Nat
  reader : ReadPc
  llm : List LlmCall
  forwarders : List TranscriptsPc

/-- Where the `forwardTranscripts` goroutines are. -/
def World.forwarders (w : World) : List TranscriptsPc := w.stt.map SttCall.forwarder

/-- The llm side of a session state. -/
def World.chat (w : World) : ChatView :=
  ⟨w.currentTurn, w.activeLLMStream, w.reader, w.llm, w.forwarders⟩

/-- The turn whose `interruptCurrentTurn` is running. -/
@[simp] def ReadPc.interrupting : ReadPc → Option Nat
  | .swap turn | .closeLLM turn _ _ | .closeTTS turn _ _ | .drain turn _ | .notify turn => some turn
  | _ => none

/-- `interruptCurrentTurn` for the start that made turn `n` current has returned. -/
def World.InterruptReturned (w : World) (n : Nat) : Prop :=
  n ≤ w.currentTurn ∧ w.reader.interrupting ≠ some n

instance (w : World) (n : Nat) : Decidable (w.InterruptReturned n) :=
  inferInstanceAs (Decidable (_ ∧ _))

/-- `readPump` is about to move the turn, to swap the stream pointers or to close an llm
stream. -/
@[simp] def ReadPc.turning : ReadPc → Bool
  | .addTurn | .swap _ | .closeLLM _ (some _) _ => true
  | _ => false

/-- A move of `readPump` that neither moves the turn nor touches a stream. -/
structure ReadPc.Quiet (pc pc' : ReadPc) : Prop where
  left : pc.turning = false
  entered : pc' = .addTurn ∨ pc'.turning = false
  interrupting : ∀ turn, pc'.interrupting = some turn → pc.interrupting = some turn
  storing : ∀ i, pc' ≠ .store i

/-- The turn a `forwardTranscripts` goroutine has loaded. -/
@[simp] def TranscriptsPc.turn? : TranscriptsPc → Option Nat
  | .ranging turn | .check turn _ | .forward turn _ | .chatCheck turn _ | .chatSnapshot turn _
  | .chatOpening turn _ _ | .chatFailed turn | .chatPublish turn _ => some turn
  | .unstarted | .starting | .done => none

/-- The turn and the stream a `startLLMChat` is about to publish. -/
@[simp] def TranscriptsPc.publishing : TranscriptsPc → Option (Nat × Nat)
  | .chatPublish turn llm => some (turn, llm)
  | _ => none

/-- The copy of the history that a `startLLMChat` has in hand. -/
@[simp] def TranscriptsPc.snapshot? : TranscriptsPc → Option (List ChatMessage)
  | .chatOpening _ _ history => some history
  | _ => none

/-- The event a `forwardLLMEvents` goroutine has in hand. -/
@[simp] def LlmEventsPc.event? : LlmEventsPc → Option ChatEvent
  | .check e | .handle e => some e
  | _ => none

namespace World

/-- The turn and the stream the action publishes in `activeLLMStream`. -/
def publishing (w : World) : Action → Option (Nat × Nat)
  | .forwardTranscripts i .next => (w.forwarders[i]?).bind TranscriptsPc.publishing
  | _ => none

/-- The stream whose `Done` the action processes, clearing `activeLLMStream`. -/
def completing (w : World) : Action → Option Nat
  | .forwardLLMEvents j .next =>
    if (w.llm[j]?).map LlmCall.forwarder = some (.handle .done) then some j else none
  | _ => none

/-- The action is the lock section of `interruptCurrentTurn`. -/
def swapping (w : World) (a : Action) : Prop :=
  a = .readPump .next ∧ ∃ turn, w.reader = .swap turn

end World

/-- What a step of `forwardLLMEvents` other than `Done` does to its call: it takes the next
event, or moves on with the event it has. -/
structure LlmCall.Advances (c d : LlmCall) : Prop where
  turn : d.turn = c.turn
  context : d.context = c.context
  published : c.forwarder ≠ .unstarted ∧ d.forwarder ≠ .unstarted
  settled : c.settled = true → d.settled = true
  stream : (d.stream = c.stream ∧ ∀ e, d.forwarder.event? = some e → c.forwarder.event? = some e) ∨
    ∃ e, c.stream.next? = some (e, d.stream) ∧ d.forwarder.event? = some e

/-- What a step can do to the llm side. -/
inductive ChatStep (w w' : World) (a : Action) : Prop
  | addTurn (hr : w.reader = .addTurn)
      (h : w'.chat =
        { w.chat with turn := w.currentTurn + 1, reader := .swap (w.currentTurn + 1) })
  | swap (turn : Nat) (ha : w.swapping a) (hr : w.reader = .swap turn)
      (h : w'.chat = { w.chat with
        active := none, reader := .closeLLM turn w.activeLLMStream w.activeTTSStream })
  | close (turn j : Nat) (tts : Option Nat) (hr : w.reader = .closeLLM turn (some j) tts)
      (h : w'.chat = { w.chat with
        llm := w.llm.modify j (LlmCall.close turn), reader := .closeTTS turn tts true })
  | opened (turn : Nat) (hr : w.reader = .opening turn)
      (h : w'.chat = { w.chat with
        forwarders := w.forwarders ++ [.unstarted], reader := .store w.forwarders.length })
  | stored (i : Nat) (hr : w.reader = .store i)
      (h : w'.chat = { w.chat with forwarders := w.forwarders.set i .starting, reader := .idle })
  | read (pc : ReadPc) (hr : w.reader.Quiet pc) (h : w'.chat = { w.chat with reader := pc })
  | startChat (i turn : Nat) (prompt : String) (history : List ChatMessage)
      (hf : w.forwarders[i]? = some (.chatOpening turn prompt history))
      (h : w'.chat = { w.chat with
        llm := w.llm ++ [LlmCall.opened i turn prompt history]
        forwarders := w.forwarders.set i (.chatPublish turn w.llm.length) })
  | publish (i turn j : Nat) (ha : w.publishing a = some (turn, j))
      (hf : w.forwarders[i]? = some (.chatPublish turn j))
      (h : w'.chat = { w.chat with
        active := some j
        llm := w.llm.modify j fun c ↦ { c with forwarder := .ranging }
        forwarders := w.forwarders.set i (.ranging turn) })
  | transcripts (i : Nat) (pc pc' : TranscriptsPc) (hf : w.forwarders[i]? = some pc)
      (hp : pc.publishing = none ∧ pc ≠ .unstarted) (hp' : pc'.publishing = none)
      (ht : ∀ t, pc'.turn? = some t → pc.turn? = some t ∨ t = w.currentTurn)
      (hs : ∀ history, pc'.snapshot? = some history → history = w.history)
      (h : w'.chat = { w.chat with forwarders := w.forwarders.set i pc' })
  | complete (j : Nat) (c : LlmCall) (ha : w.completing a = some j) (hc : w.llm[j]? = some c)
      (hd : c.forwarder = .handle .done)
      (h : w'.chat = { w.chat with active := none, llm := w.llm.modify j LlmCall.settle })
  | llmEvents (j : Nat) (c : LlmCall) (g : LlmCall → LlmCall) (hc : w.llm[j]? = some c)
      (hg : c.Advances (g c)) (h : w'.chat = { w.chat with llm := w.llm.modify j g })
  | pump (j : Nat) (c : LlmCall) (s : LlmStream) (b : PumpAction Proto.ChatEvent)
      (hc : w.llm[j]? = some c) (hs : c.stream.recvPump llmPump w.cancelled b = some s)
      (h : w'.chat =
        { w.chat with llm := w.llm.modify j fun c ↦ { c with stream := s } })
  | rest (h : w'.chat = w.chat)

/-! ### Every step is a `ChatStep` -/

private theorem readPump_chatStep {w w' : World} {a : ReadAction} (h : w.readPump a = some w') :
    ChatStep w w' (.readPump a) := by
  cases readStep_of_readPump h with
  | setVoice | noUtterance => exact .rest rfl
  | addTurn hr => exact .addTurn hr rfl
  | swap turn hr => exact .swap turn ⟨rfl, turn, hr⟩ hr rfl
  | closeLLM turn j tts hr => exact .close turn j tts hr rfl
  | opened turn hr =>
    exact .opened turn hr (by simp [World.chat, World.forwarders, SttCall.opened])
  | store i hr =>
    refine .stored i hr ?_
    simp only [World.chat, World.forwarders]
    rw [List.map_modify_of_const (v := .starting) fun _ _ ↦ rfl]
  | closeOld turn i hr =>
    have hf : (w.stt.modify i SttCall.close).map SttCall.forwarder = w.forwarders :=
      List.map_modify_of_eq fun _ _ ↦ rfl
    exact .read (.opening turn) (by constructor <;> simp [hr])
      (by simp [World.chat, World.forwarders, hf])
  | report _ _ _ _ hr hv | notify _ _ _ hr hv | openFailed _ _ hr hv =>
    obtain ⟨send, dropped, rfl, -⟩ := sendJSON_eq_some hv
    exact .read _ (by constructor <;> simp [hr]) rfl
  | noStream _ hr | audio _ _ hr | malformed hr | other _ hr | start _ hr | endUtterance _ hr
  | readError hr | enqueue _ _ hr | dropFrame _ hr | noLLM _ _ hr | closeTTS _ _ _ hr
  | noTTS _ _ hr | drainJob _ _ _ _ hr | interrupted _ hr | notInterrupted _ hr | noOld _ hr
  | openError _ hr | storeNil hr | enqueueFinish _ _ hr | finishDone _ hr | returned hr =>
    exact .read _ (by constructor <;> simp [hr]) rfl

private theorem chat_modify_stt (w : World) (i : Nat) {g : SttCall → SttCall} {pc : TranscriptsPc}
    (hg : ∀ c, (g c).forwarder = pc) :
    ({ w with stt := w.stt.modify i g } : World).chat =
      { w.chat with forwarders := w.forwarders.set i pc } := by
  simp only [World.chat, World.forwarders]
  rw [List.map_modify_of_const fun c _ ↦ hg c]

private theorem forwardTranscripts_chatStep {w w' : World} {i : Nat} {a : TranscriptsAction}
    (h : w.forwardTranscripts i a = some w') : ChatStep w w' (.forwardTranscripts i a) := by
  obtain ⟨c, hc, hstep⟩ := transcriptsStep_of_forwardTranscripts h
  have hf : w.forwarders[i]? = some c.forwarder := by simp [World.forwarders, hc]
  have hgoto (w : World) (pc : TranscriptsPc) :
      (w.gotoTranscripts i pc).chat = { w.chat with forwarders := w.forwarders.set i pc } :=
    chat_modify_stt w i fun _ ↦ rfl
  cases hstep with
  | take turn event s hp hs =>
    exact .transcripts i _ (.check turn event) hf (by simp [hp]) rfl (by simp [hp]) (by simp)
      (chat_modify_stt w i fun _ ↦ rfl)
  | forward turn event b v hp hv =>
    obtain ⟨send, dropped, rfl, -⟩ := sendJSON_eq_some hv
    have hp' : (afterTranscript turn event).publishing = none := by cases event <;> rfl
    have ht : (afterTranscript turn event).turn? = some turn := by cases event <;> rfl
    have hs : (afterTranscript turn event).snapshot? = none := by cases event <;> rfl
    exact .transcripts i _ _ hf (by simp [hp]) hp' (fun t h ↦ .inl (by rw [hp, ← h, ht]; rfl))
      (fun _ h ↦ nomatch hs ▸ h) (hgoto _ _)
  | chatFailed turn b v hp hv =>
    obtain ⟨send, dropped, rfl, -⟩ := sendJSON_eq_some hv
    exact .transcripts i _ _ hf (by simp [hp]) rfl (by simp [hp]) (by simp) (hgoto _ _)
  | startChat turn prompt history hp => exact .startChat i turn prompt history (hp ▸ hf) (hgoto _ _)
  | publish turn j hp =>
    rw [hp] at hf
    exact .publish i turn j (by simp [publishing, hf]) hf (hgoto _ _)
  | load hp | rangeOver _ hp | stale _ _ hp | pass _ _ hp | chatStale _ _ hp | chatPass _ _ hp
  | startError _ _ _ hp =>
    exact .transcripts i _ _ hf (by simp [hp]) rfl (by simp [hp]) (by simp) (hgoto w _)
  | snapshot turn prompt hp =>
    exact .transcripts i _ _ hf (by simp [hp]) rfl (by simp [hp]) (by simp) (hgoto w _)

private theorem forwardLLMEvents_chatStep {w w' : World} {j : Nat} {a : LlmEventsAction}
    (h : w.forwardLLMEvents j a = some w') : ChatStep w w' (.forwardLLMEvents j a) := by
  obtain ⟨c, hc, hstep⟩ := llmEventsStep_of_forwardLLMEvents h
  cases hstep with
  | take event s hp hs =>
    exact .llmEvents j c _ hc ⟨rfl, rfl, by simp [hp], id, .inr ⟨event, hs, rfl⟩⟩ rfl
  | rangeOver hp | stale _ hp =>
    exact .llmEvents j c _ hc ⟨rfl, rfl, by simp [hp, LlmCall.finish], fun _ ↦ rfl,
      .inl ⟨rfl, by simp [LlmCall.finish]⟩⟩ rfl
  | pass event hp =>
    exact .llmEvents j c _ hc ⟨rfl, rfl, by simp [hp], id, .inl ⟨rfl, by simp [hp]⟩⟩ rfl
  | enqueue text _ hp | dropChunk text hp =>
    exact .llmEvents j c _ hc ⟨rfl, rfl, by simp [hp, LlmCall.offer], id,
      .inl ⟨rfl, by simp [LlmCall.offer]⟩⟩ rfl
  | complete hp => exact .complete j c (by simp [completing, hc, hp]) hc hp rfl
  | report code message b v hp hv =>
    obtain ⟨send, dropped, rfl, -⟩ := sendJSON_eq_some hv
    exact .llmEvents j c _ hc ⟨rfl, rfl, by simp [hp, LlmCall.settle], fun _ ↦ rfl,
      .inl ⟨rfl, by simp [LlmCall.settle]⟩⟩ rfl

/-- Whatever the session does, its llm side makes a `ChatStep`. -/
theorem step_chatStep {w w' : World} {a : Action} (h : system.step w a = some w') :
    ChatStep w w' a := by
  cases a with
  | readPump b => exact readPump_chatStep h
  | audioSendWorker b =>
    obtain ⟨send, dropped, queue, pc, i, g, rfl, -, hg⟩ := audioSendWorker_footprint h
    refine .rest ?_
    simp only [World.chat, World.forwarders]
    rw [List.map_modify_of_eq fun c _ ↦ (hg c).2.1]
  | forwardTranscripts i b => exact forwardTranscripts_chatStep h
  | forwardLLMEvents j b => exact forwardLLMEvents_chatStep h
  | ttsWorker b =>
    obtain ⟨send, dropped, queue, taken, active, pc, tts, rfl, -⟩ := ttsWorkerStep_footprint h
    exact .rest rfl
  | sttRecvPump i b =>
    obtain ⟨c, s, -, -, rfl⟩ := sttRecvPump_eq_some h
    have hf : (w.stt.modify i fun c ↦ { c with stream := s }).map SttCall.forwarder =
        w.forwarders := List.map_modify_of_eq fun _ _ ↦ rfl
    exact .rest (by simp [World.chat, World.forwarders, hf])
  | llmRecvPump j b =>
    obtain ⟨c, s, hc, hs, rfl⟩ := llmRecvPump_eq_some h
    exact .pump j c s b hc hs rfl
  | ttsRecvPump k b =>
    obtain ⟨c, s, -, -, rfl⟩ := ttsRecvPump_eq_some h
    exact .rest rfl
  | write =>
    obtain ⟨send, written, rfl, -⟩ := write_eq_some h
    exact .rest rfl
  | stopWriting =>
    obtain rfl := stopWriting_eq_some h
    exact .rest rfl

/-- No step takes the turn back. -/
theorem ChatStep.turn_le {w w' : World} {a : Action} (h : ChatStep w w' a) :
    w.currentTurn ≤ w'.currentTurn := by
  have same (h : w'.currentTurn = w.currentTurn) : w.currentTurn ≤ w'.currentTurn :=
    Nat.le_of_eq h.symm
  cases h with
  | addTurn _ h =>
    have ht : w'.currentTurn = w.currentTurn + 1 := congrArg ChatView.turn h
    omega
  | swap _ _ _ h | close _ _ _ _ h | opened _ _ h | stored _ _ h | read _ _ h
  | startChat _ _ _ _ _ h | publish _ _ _ _ _ h | transcripts _ _ _ _ _ _ _ _ h
  | complete _ _ _ _ _ h | llmEvents _ _ _ _ _ h | pump _ _ _ _ _ _ h | rest h =>
    exact same (congrArg ChatView.turn h)

/-! ### Who refers to what -/

/-- The turns and streams the goroutines hold exist and are not ahead of the session. -/
structure ChatView.Linked (v : ChatView) : Prop where
  interrupting : ∀ n, v.reader.interrupting = some n → n = v.turn
  storing : ∀ i, v.reader = .store i → v.forwarders[i]? = some .unstarted
  forwarders : ∀ (i : Nat) (pc : TranscriptsPc) (t : Nat),
    v.forwarders[i]? = some pc → pc.turn? = some t → t ≤ v.turn
  calls : ∀ (j : Nat) (c : LlmCall), v.llm[j]? = some c → c.turn ≤ v.turn
  publishing : ∀ (i t j : Nat), v.forwarders[i]? = some (.chatPublish t j) →
    ∃ c, v.llm[j]? = some c ∧ c.turn = t
  active : ∀ j, v.active = some j → j < v.llm.length
  closing : ∀ n j tts, v.reader = .closeLLM n (some j) tts → j < v.llm.length

namespace ChatView.Linked

variable {v : ChatView}

private theorem setActive (active : Option Nat) (hv : v.Linked)
    (ha : ∀ j, active = some j → j < v.llm.length) :
    ({ v with active := active } : ChatView).Linked :=
  { hv with active := ha }

private theorem setReader {pc : ReadPc} (hv : v.Linked)
    (hi : ∀ n, pc.interrupting = some n → n = v.turn) (hs : ∀ i, pc ≠ .store i)
    (hc : ∀ n j tts, pc = .closeLLM n (some j) tts → j < v.llm.length) :
    ({ v with reader := pc } : ChatView).Linked :=
  { hv with interrupting := hi, storing := fun i h ↦ absurd h (hs i), closing := hc }

private theorem modifyCall {j : Nat} {g : LlmCall → LlmCall} (hv : v.Linked)
    (hg : ∀ c, v.llm[j]? = some c → (g c).turn = c.turn) :
    ({ v with llm := v.llm.modify j g } : ChatView).Linked := by
  refine ⟨hv.interrupting, hv.storing, hv.forwarders, fun k d hd ↦ ?_, fun i t k hf ↦ ?_, ?_, ?_⟩
  · rcases List.getElem?_modify_eq_some.mp hd with ⟨-, hd⟩ | ⟨rfl, c, hc, rfl⟩
    · exact hv.calls k d hd
    · rw [hg c hc]
      exact hv.calls k c hc
  · obtain ⟨c, hc, rfl⟩ := hv.publishing i t k hf
    by_cases hk : k = j
    · subst hk
      exact ⟨g c, List.getElem?_modify_eq_some.mpr (.inr ⟨rfl, c, hc, rfl⟩), hg c hc⟩
    · exact ⟨c, List.getElem?_modify_eq_some.mpr (.inl ⟨hk, hc⟩), rfl⟩
  · simpa using hv.active
  · simpa using hv.closing

private theorem appendCall {c : LlmCall} (hv : v.Linked) (ht : c.turn ≤ v.turn) :
    ({ v with llm := v.llm ++ [c] } : ChatView).Linked := by
  refine ⟨hv.interrupting, hv.storing, hv.forwarders, fun j d hd ↦ ?_, fun k t j hk ↦ ?_,
    fun j hj ↦ ?_, fun n j tts hj ↦ ?_⟩
  · rcases List.getElem?_concat_eq_some.mp hd with hd | ⟨-, rfl⟩
    · exact hv.calls j d hd
    · exact ht
  · obtain ⟨d, hd, hdt⟩ := hv.publishing k t j hk
    exact ⟨d, List.getElem?_concat_eq_some.mpr (.inl hd), hdt⟩
  · rw [List.length_append]
    exact Nat.lt_add_right _ (hv.active j hj)
  · rw [List.length_append]
    exact Nat.lt_add_right _ (hv.closing n j tts hj)

private theorem setForwarder {i : Nat} {pc pc' : TranscriptsPc} (hv : v.Linked)
    (hf : v.forwarders[i]? = some pc) (hu : pc ≠ .unstarted)
    (ht : ∀ t, pc'.turn? = some t → t ≤ v.turn)
    (hp : ∀ t j, pc' = .chatPublish t j → ∃ c, v.llm[j]? = some c ∧ c.turn = t) :
    ({ v with forwarders := v.forwarders.set i pc' } : ChatView).Linked := by
  refine ⟨hv.interrupting, fun k hk ↦ ?_, fun k qc t hq hqt ↦ ?_, hv.calls, fun k t j hk ↦ ?_,
    hv.active, hv.closing⟩
  · exact List.getElem?_set_of_ne_entry (hv.storing k hk) hf hu
  · rcases List.getElem?_set_eq_some.mp hq with ⟨-, hq⟩ | ⟨-, -, rfl⟩
    · exact hv.forwarders k qc t hq hqt
    · exact ht t hqt
  · rcases List.getElem?_set_eq_some.mp hk with ⟨-, hk⟩ | ⟨-, -, hk⟩
    · exact hv.publishing k t j hk
    · exact hp t j hk

end ChatView.Linked

/-- A step keeps what the goroutines hold linked. -/
theorem linked_step {w w' : World} {a : Action} (hv : w.chat.Linked) (h : ChatStep w w' a) :
    w'.chat.Linked := by
  cases h with
  | addTurn hr h =>
    rw [h]
    refine ⟨by simp, by simp, fun i pc t hf ht ↦ ?_, fun j c hc ↦ ?_, hv.publishing, hv.active,
      by simp⟩
    · exact Nat.le_succ_of_le (hv.forwarders i pc t hf ht)
    · exact Nat.le_succ_of_le (hv.calls j c hc)
  | swap turn ha hr h =>
    rw [h]
    have hv' : ({ w.chat with active := none } : ChatView).Linked := hv.setActive none (by simp)
    refine hv'.setReader (fun n hn ↦ hv.interrupting n ?_) (by simp) ?_
    · simpa [World.chat, hr] using hn
    · intro n j tts hcl
      simp only [ReadPc.closeLLM.injEq] at hcl
      exact hv.active j hcl.2.1
  | close turn j tts hr h =>
    rw [h]
    have hl : ({ w.chat with llm := w.llm.modify j (LlmCall.close turn) } : ChatView).Linked :=
      hv.modifyCall fun _ _ ↦ rfl
    refine hl.setReader (fun n hn ↦ hv.interrupting n ?_) (by simp) (by simp)
    simpa [World.chat, hr] using hn
  | opened turn hr h =>
    rw [h]
    refine ⟨by simp, fun i hi ↦ ?_, fun i pc t hf ht ↦ ?_, hv.calls, fun i t j hf ↦ ?_,
      hv.active, by simp⟩
    · cases hi
      exact List.getElem?_concat_length
    · rcases List.getElem?_concat_eq_some.mp hf with hf | ⟨-, rfl⟩
      · exact hv.forwarders i pc t hf ht
      · cases ht
    · rcases List.getElem?_concat_eq_some.mp hf with hf | ⟨-, hf⟩
      · exact hv.publishing i t j hf
      · cases hf
  | stored i hr h =>
    rw [h]
    refine ⟨by simp, by simp, fun k pc t hf ht ↦ ?_, hv.calls, fun k t j hf ↦ ?_, hv.active,
      by simp⟩
    · rcases List.getElem?_set_eq_some.mp hf with ⟨-, hf⟩ | ⟨-, -, rfl⟩
      · exact hv.forwarders k pc t hf ht
      · cases ht
    · rcases List.getElem?_set_eq_some.mp hf with ⟨-, hf⟩ | ⟨-, -, hf⟩
      · exact hv.publishing k t j hf
      · cases hf
  | read pc hr h =>
    rw [h]
    refine hv.setReader (fun n hn ↦ hv.interrupting n (hr.interrupting n hn)) hr.storing ?_
    rintro n j tts rfl
    simpa using hr.entered
  | startChat i turn prompt history hf h =>
    rw [h]
    have hturn : turn ≤ w.currentTurn := hv.forwarders i _ turn hf rfl
    have hl : ({ w.chat with llm := w.llm ++ [LlmCall.opened i turn prompt history] } :
        ChatView).Linked := hv.appendCall hturn
    refine hl.setForwarder hf (by simp) ?_ ?_
    · rintro t ⟨⟩
      exact hturn
    · rintro t j ⟨⟩
      exact ⟨_, List.getElem?_concat_length, rfl⟩
  | publish i turn j ha hf h =>
    rw [h]
    obtain ⟨c, hc, -⟩ := hv.publishing i turn j hf
    have hj : j < w.llm.length := (List.getElem?_eq_some_iff.mp hc).1
    have hl := (hv.setActive (some j) (by rintro k ⟨⟩; exact hj)).modifyCall (j := j)
      (g := fun c ↦ { c with forwarder := .ranging }) fun _ _ ↦ rfl
    refine hl.setForwarder hf (by simp) ?_ (by simp)
    rintro t ⟨⟩
    exact hv.forwarders i _ turn hf rfl
  | transcripts i pc pc' hf hp hp' ht _ h =>
    rw [h]
    refine hv.setForwarder hf hp.2 (fun t h ↦ ?_) ?_
    · exact (ht t h).elim (hv.forwarders i pc t hf) Nat.le_of_eq
    · rintro t j rfl
      cases hp'
  | complete j c ha hc hd h =>
    rw [h]
    exact (hv.setActive none (by simp)).modifyCall fun _ _ ↦ rfl
  | llmEvents j c g hc hg h =>
    rw [h]
    refine hv.modifyCall fun d hd ↦ ?_
    obtain rfl : c = d := Option.some.inj (hc.symm.trans hd)
    exact hg.turn
  | pump j c s b hc hs h =>
    rw [h]
    exact hv.modifyCall fun _ _ ↦ rfl
  | rest h => rwa [h]

/-- In every run the goroutines refer to what exists. -/
theorem linked_of_reachable {w : World} (hr : system.Reachable w) : w.chat.Linked := by
  refine hr.invariant (I := fun w ↦ w.chat.Linked) ?_ fun w a w' _ hv h ↦
    linked_step hv (step_chatStep h)
  constructor <;> simp [system, World.new, World.chat, World.forwarders]

/-! ### A stream is published once -/

/-- A stream about to be published has no goroutine yet, and one publisher. -/
structure ChatView.PublishesOnce (v : ChatView) : Prop where
  unstarted : ∀ (i t j : Nat), v.forwarders[i]? = some (.chatPublish t j) →
    ∃ c, v.llm[j]? = some c ∧ c.forwarder = .unstarted
  unique : ∀ (i i' t t' j : Nat), v.forwarders[i]? = some (.chatPublish t j) →
    v.forwarders[i']? = some (.chatPublish t' j) → i = i'

/-- A step after which nobody new is about to publish, and that starts none of the goroutines
of the streams about to be published. -/
theorem ChatView.PublishesOnce.of_subset {v v' : ChatView} (hv : v.PublishesOnce)
    (hf : ∀ (i t j : Nat), v'.forwarders[i]? = some (.chatPublish t j) →
      v.forwarders[i]? = some (.chatPublish t j))
    (hl : ∀ (i t j : Nat) (c : LlmCall), v'.forwarders[i]? = some (.chatPublish t j) →
      v.llm[j]? = some c → c.forwarder = .unstarted →
        ∃ d, v'.llm[j]? = some d ∧ d.forwarder = .unstarted) : v'.PublishesOnce := by
  refine ⟨fun i t j h ↦ ?_,
    fun i i' t t' j h h' ↦ hv.unique i i' t t' j (hf i t j h) (hf i' t' j h')⟩
  obtain ⟨c, hc, hu⟩ := hv.unstarted i t j (hf i t j h)
  exact hl i t j c h hc hu

private theorem publishesOnce_modify {v : ChatView} {act : Option Nat} {r : ReadPc} {j : Nat}
    {g : LlmCall → LlmCall} (hv : v.PublishesOnce)
    (hg : ∀ c, v.llm[j]? = some c → c.forwarder = .unstarted → (g c).forwarder = .unstarted) :
    ({ v with active := act, reader := r, llm := v.llm.modify j g } : ChatView).PublishesOnce := by
  refine hv.of_subset (fun _ _ _ h ↦ h) fun i t k c _ hc hu ↦ ?_
  by_cases hk : k = j
  · subst hk
    exact ⟨g c, List.getElem?_modify_eq_some.mpr (.inr ⟨rfl, c, hc, rfl⟩), hg c hc hu⟩
  · exact ⟨c, List.getElem?_modify_eq_some.mpr (.inl ⟨hk, hc⟩), hu⟩

/-- A step keeps one publisher for each stream. -/
theorem publishesOnce_step {w w' : World} {a : Action} (hv : w.chat.PublishesOnce)
    (h : ChatStep w w' a) : w'.chat.PublishesOnce := by
  cases h with
  | addTurn _ h | swap _ _ _ h | read _ _ h | rest h =>
    rw [h]
    exact hv.of_subset (fun _ _ _ h ↦ h) fun _ _ _ c _ hc hu ↦ ⟨c, hc, hu⟩
  | close turn j tts hr h =>
    rw [h]
    exact publishesOnce_modify hv fun _ _ hu ↦ hu
  | opened turn hr h =>
    rw [h]
    refine hv.of_subset (fun i t j hf ↦ ?_) fun _ _ _ c _ hc hu ↦ ⟨c, hc, hu⟩
    exact (List.getElem?_concat_eq_some.mp hf).resolve_right fun he ↦ nomatch he.2
  | stored i hr h =>
    rw [h]
    refine hv.of_subset (fun k t j hf ↦ ?_) fun _ _ _ c _ hc hu ↦ ⟨c, hc, hu⟩
    exact List.getElem?_of_getElem?_set hf nofun
  | startChat i turn prompt history hf h =>
    rw [h]
    have old (k t j : Nat) (hk : (w.forwarders.set i (.chatPublish turn w.llm.length))[k]? =
        some (.chatPublish t j)) :
        w.forwarders[k]? = some (.chatPublish t j) ∧ j < w.llm.length ∨
          k = i ∧ j = w.llm.length := by
      rcases List.getElem?_set_eq_some.mp hk with ⟨-, hk⟩ | ⟨rfl, -, hk⟩
      · obtain ⟨c, hc, -⟩ := hv.unstarted k t j hk
        exact .inl ⟨hk, (List.getElem?_eq_some_iff.mp hc).1⟩
      · cases hk
        exact .inr ⟨rfl, rfl⟩
    refine ⟨fun k t j hk ↦ ?_, fun k k' t t' j hk hk' ↦ ?_⟩
    · rcases old k t j hk with ⟨hk, -⟩ | ⟨-, rfl⟩
      · obtain ⟨c, hc, hu⟩ := hv.unstarted k t j hk
        exact ⟨c, List.getElem?_concat_eq_some.mpr (.inl hc), hu⟩
      · exact ⟨_, List.getElem?_concat_length, rfl⟩
    · rcases old k t j hk with ⟨hk, hj⟩ | ⟨hk, hj⟩ <;>
        rcases old k' t' j hk' with ⟨hk', hj'⟩ | ⟨hk', hj'⟩
      · exact hv.unique k k' t t' j hk hk'
      · omega
      · omega
      · rw [hk, hk']
  | publish i turn j ha hf h =>
    rw [h]
    have other (k t l : Nat) (hk : (w.forwarders.set i (.ranging turn))[k]? =
        some (.chatPublish t l)) : k ≠ i ∧ w.forwarders[k]? = some (.chatPublish t l) :=
      (List.getElem?_set_eq_some.mp hk).resolve_right fun he ↦ nomatch he.2.2
    refine hv.of_subset (fun k t l hk ↦ (other k t l hk).2) fun k t l c hk hc hu ↦ ?_
    obtain ⟨hne, hold⟩ := other k t l hk
    have hl : l ≠ j := by
      rintro rfl
      exact hne (hv.unique k i t turn l hold hf)
    exact ⟨c, List.getElem?_modify_eq_some.mpr (.inl ⟨hl, hc⟩), hu⟩
  | transcripts i pc pc' hf hp hp' ht _ h =>
    rw [h]
    refine hv.of_subset (fun k t j hk ↦ ?_) fun _ _ _ c _ hc hu ↦ ⟨c, hc, hu⟩
    refine List.getElem?_of_getElem?_set hk ?_
    rintro rfl
    cases hp'
  | complete j c ha hc hd h =>
    rw [h]
    refine publishesOnce_modify hv fun d hd' hu ↦ ?_
    obtain rfl : c = d := Option.some.inj (hc.symm.trans hd')
    rw [hd] at hu
    cases hu
  | llmEvents j c g hc hg h =>
    rw [h]
    refine publishesOnce_modify hv fun d hd hu ↦ ?_
    obtain rfl : c = d := Option.some.inj (hc.symm.trans hd)
    exact absurd hu hg.published.1
  | pump j c s b hc hs h =>
    rw [h]
    exact publishesOnce_modify hv fun _ _ hu ↦ hu

/-- In every reachable session a stream has one publisher. -/
theorem publishesOnce_of_reachable {w : World} (hr : system.Reachable w) :
    w.chat.PublishesOnce := by
  refine hr.invariant (I := fun w ↦ w.chat.PublishesOnce) ?_ fun w a w' _ hv h ↦
    publishesOnce_step hv (step_chatStep h)
  constructor <;> simp [system, World.new, World.chat, World.forwarders]

/-! ### What the llm streams have delivered -/

/-- The pump relays, and the event in hand came off `Events`. -/
structure LlmCall.Sound (c : LlmCall) : Prop where
  relays : c.stream.Relays llmPump
  inHand : ∀ e, c.forwarder.event? = some e → e ∈ c.stream.consumed

/-- The goroutine keeps it. -/
theorem LlmCall.Sound.advances {c d : LlmCall} (hc : c.Sound) (h : c.Advances d) : d.Sound := by
  rcases h.stream with ⟨hs, he⟩ | ⟨e, hs, he⟩
  · refine ⟨hs ▸ hc.relays, fun e hd ↦ ?_⟩
    rw [hs]
    exact hc.inHand e (he e hd)
  · refine ⟨hc.relays.next? hs, fun e' he' ↦ ?_⟩
    obtain rfl : e = e' := Option.some.inj (he.symm.trans he')
    rw [(Stream.next?_eq_some hs).2]
    exact List.mem_append_right _ (List.mem_singleton_self _)

/-- In every run every llm call is sound. -/
theorem sound_of_reachable {w : World} (hr : system.Reachable w) :
    ∀ (j : Nat) (c : LlmCall), w.llm[j]? = some c → c.Sound := by
  refine hr.invariant
    (I := fun w ↦ ∀ (j : Nat) (c : LlmCall), w.llm[j]? = some c → c.Sound) ?_ ?_
  · simp [system, World.new]
  · intro w a w' _ hv h
    have modify {j : Nat} {g : LlmCall → LlmCall} (hl : w'.llm = w.llm.modify j g)
        (hg : ∀ c, w.llm[j]? = some c → c.Sound → (g c).Sound) :
        ∀ (j : Nat) (c : LlmCall), w'.llm[j]? = some c → c.Sound := by
      intro k d hd
      rw [hl] at hd
      rcases List.getElem?_modify_eq_some.mp hd with ⟨-, hd⟩ | ⟨rfl, c, hc, rfl⟩
      · exact hv k d hd
      · exact hg c hc (hv k c hc)
    have same (hl : w'.llm = w.llm) : ∀ (j : Nat) (c : LlmCall), w'.llm[j]? = some c → c.Sound :=
      hl ▸ hv
    cases step_chatStep h with
    | addTurn _ h | swap _ _ _ h | opened _ _ h | stored _ _ h | read _ _ h
    | transcripts _ _ _ _ _ _ _ _ h | rest h => exact same (congrArg ChatView.llm h)
    | close turn j tts hr h =>
      exact modify (congrArg ChatView.llm h) fun c _ hc ↦ ⟨hc.relays.close, hc.inHand⟩
    | startChat i turn prompt history hf h =>
      intro j c hc
      rw [show w'.llm = _ from congrArg ChatView.llm h] at hc
      rcases List.getElem?_concat_eq_some.mp hc with hc | ⟨-, rfl⟩
      · exact hv j c hc
      · exact ⟨Stream.relays_opened, by simp [LlmCall.opened]⟩
    | publish i turn j ha hf h =>
      exact modify (congrArg ChatView.llm h) fun c _ hc ↦ ⟨hc.relays, by simp⟩
    | complete j c ha hc hd h =>
      exact modify (congrArg ChatView.llm h) fun c _ hc ↦ ⟨hc.relays, by simp [LlmCall.settle]⟩
    | llmEvents j c g hc hg h =>
      refine modify (congrArg ChatView.llm h) fun d hd hs ↦ ?_
      obtain rfl : c = d := Option.some.inj (hc.symm.trans hd)
      exact hs.advances hg
    | pump j c s b hc hs h =>
      refine modify (congrArg ChatView.llm h) fun d hd hd' ↦ ?_
      obtain rfl : c = d := Option.some.inj (hc.symm.trans hd)
      refine ⟨hd'.relays.recvPump hs, fun e he ↦ ?_⟩
      rw [(Stream.recvPump_frame hs).2]
      exact hd'.inHand e he

end BibiCore.Session
