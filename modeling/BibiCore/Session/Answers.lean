import Mathlib.Data.List.Forall2
import BibiCore.Session.Chunks

/-!
# The answers of a session

`forwardLLMEvents`, `session.go:404`–`438`, makes of an llm stream's events jobs for `ttsWorker`
and, on `Done`, two messages of the history. `AnswerStep` says once what a step of the session
can do to these goroutines, to the jobs and to the history.
-/

namespace BibiCore.Session

open BibiCore.Gateway World
open BibiCore.Proto (ChatMessage)

/-! ### One goroutine -/

/-- The moves of a `forwardLLMEvents` goroutine; `current` says that its turn is the current
one. -/
inductive LlmEventsPc.Moves (current : Prop) : LlmEventsPc → LlmEventsPc → Prop
  | take (e : ChatEvent) : Moves current .ranging (.check e)
  | rangeOver : Moves current .ranging .done
  | stale (e : ChatEvent) (h : ¬ current) : Moves current (.check e) .done
  | pass (e : ChatEvent) (h : current) : Moves current (.check e) (.handle e)
  | handled (e : ChatEvent) : Moves current (.handle e) .ranging

namespace LlmEventsPc

/-- The event a goroutine that arrives at the statement has just taken. -/
@[simp] def taken : LlmEventsPc → List ChatEvent
  | .check event => [event]
  | _ => []

/-- The text the goroutine is about to add to the response. -/
@[simp] def writes : LlmEventsPc → String
  | .handle (.chunk text) => text
  | _ => ""

/-- How many jobs the goroutine is about to offer. -/
@[simp] def offers : LlmEventsPc → Nat
  | .handle (.chunk _) => 1
  | _ => 0

/-- Whether the goroutine, of stream `j`, is about to extend the history. -/
@[simp] def answers (j : Nat) : LlmEventsPc → List Nat
  | .handle .done => [j]
  | _ => []

end LlmEventsPc

/-! ### All of them -/

/-- What matters of one llm call here. -/
structure Answer where
  turn : Nat
  prompt : String
  response : String
  forwarder : LlmEventsPc
  events : List ChatEvent

/-- What the goroutine is about to add to the history. -/
def Answer.exchange (c : Answer) : List ChatMessage :=
  match c.forwarder with
  | .handle .done => [⟨"user", c.prompt⟩, ⟨"assistant", c.response⟩]
  | _ => []

/-- The call after a move of its goroutine to `pc`. -/
def Answer.move (c : Answer) (pc : LlmEventsPc) : Answer :=
  { c with
    response := c.response ++ c.forwarder.writes
    forwarder := pc
    events := c.events ++ pc.taken }

def LlmCall.answer (c : LlmCall) : Answer :=
  ⟨c.turn, c.prompt, c.fullResponse, c.forwarder, c.stream.consumed⟩

/-- How many jobs were made of the chunks of llm stream `j`, drained ones included. -/
def World.jobsMade (w : World) (j : Nat) : Nat :=
  (w.kept ++ w.drained.map Prod.snd).countP (·.llm == j)

/-- The part of a session that turns answers into jobs and history. -/
structure AnswerView where
  calls : List Answer
  history : List ChatMessage
  answered : List Nat
  jobs : Nat → Nat

/-- The answers of a session state. -/
def World.answers (w : World) : AnswerView :=
  ⟨w.llm.map LlmCall.answer, w.history, w.answered, w.jobsMade⟩

/-- What a step can do to the answers. -/
inductive AnswerStep (w w' : World) (a : Action) : Prop
  | opened (turn : Nat) (prompt : String)
      (h : w'.answers =
        { w.answers with calls := w.answers.calls ++ [⟨turn, prompt, "", .unstarted, []⟩] })
  | started (j : Nat) (hf : ∃ (i turn : Nat), w.forwarders[i]? = some (.chatPublish turn j))
      (h : w'.answers = { w.answers with
        calls := w.answers.calls.modify j fun c ↦ { c with forwarder := .ranging } })
  | move (j : Nat) (c : Answer) (pc : LlmEventsPc) (n : Nat)
      (ha : ∃ b, a = .forwardLLMEvents j b) (hc : w.answers.calls[j]? = some c)
      (hm : c.forwarder.Moves (w.currentTurn = c.turn) pc) (hn : n ≤ c.forwarder.offers)
      (h : w'.answers = ⟨w.answers.calls.set j (c.move pc), w.history ++ c.exchange,
        w.answered ++ c.forwarder.answers j, fun k ↦ w.jobsMade k + if j = k then n else 0⟩)
  | rest (h : w'.answers = w.answers)

/-! ### Every step is an `AnswerStep` -/

private theorem answers_of_eq {w w' : World}
    (hl : w'.llm.map LlmCall.answer = w.llm.map LlmCall.answer) (hh : w'.history = w.history)
    (ha : w'.answered = w.answered) (hj : w'.jobsMade = w.jobsMade) : w'.answers = w.answers := by
  rw [World.answers, World.answers, hl, hh, ha, hj]

private theorem jobsMade_of_eq {w w' : World} (hk : w'.kept = w.kept)
    (hd : w'.drained = w.drained) : w'.jobsMade = w.jobsMade := by
  funext j
  rw [World.jobsMade, World.jobsMade, hk, hd]

private theorem readPump_answers {w w' : World} {a : ReadAction} (h : w.readPump a = some w') :
    w'.answers = w.answers := by
  cases readPump_effect h with
  | own _ _ _ _ _ _ _ _ _ _ hw =>
    subst hw
    rfl
  | report code message b v reader hs hw =>
    obtain ⟨send, dropped, rfl, -⟩ := sendJSON_eq_some hs
    subst hw
    rfl
  | cutLLM turn j tts hr hw =>
    subst hw
    exact answers_of_eq (List.map_modify_of_eq fun _ _ ↦ rfl) rfl rfl rfl
  | cutTTS turn k b hr hw =>
    subst hw
    rfl
  | cutJob turn b job q hr hq hw =>
    subst hw
    refine answers_of_eq rfl rfl rfl (funext fun j ↦ ?_)
    simp only [World.jobsMade, World.kept, hq, List.countP_append, List.countP_cons,
      List.map_append, List.map_cons, List.map_nil, List.countP_nil]
    omega
  | notify turn b v hr hs hw =>
    obtain ⟨send, dropped, rfl, -⟩ := sendJSON_eq_some hs
    subst hw
    rfl

private theorem forwardTranscripts_answerStep {w w' : World} {i : Nat} {a : TranscriptsAction}
    (h : w.forwardTranscripts i a = some w') : AnswerStep w w' (.forwardTranscripts i a) := by
  obtain ⟨c, send, dropped, active, llm, g, hc, rfl, -, hl, -⟩ := forwardTranscripts_footprint h
  cases hl with
  | keep h => exact .rest (answers_of_eq (congrArg _ h) rfl rfl rfl)
  | opened opener turn prompt context h =>
    refine .opened turn prompt ?_
    have hcalls : llm.map LlmCall.answer =
        w.llm.map LlmCall.answer ++ [⟨turn, prompt, "", .unstarted, []⟩] := by
      rw [h, List.map_append]
      rfl
    simp only [World.answers, hcalls]
    rfl
  | publish turn j hpc h =>
    refine .started j ⟨i, turn, by simp [World.forwarders, hc, hpc]⟩ ?_
    have hcalls : llm.map LlmCall.answer =
        (w.llm.map LlmCall.answer).modify j fun c ↦ { c with forwarder := .ranging } := by
      rw [h]
      exact List.map_modify_of_comm fun _ _ ↦ rfl
    simp only [World.answers, hcalls]
    rfl

private theorem answerStep_move {w w' : World} {j n : Nat} {b : LlmEventsAction} {c : LlmCall}
    {pc : LlmEventsPc} {g : LlmCall → LlmCall} (hc : w.llm[j]? = some c)
    (hm : c.forwarder.Moves (w.currentTurn = c.turn) pc) (hn : n ≤ c.forwarder.offers)
    (hl : w'.llm = w.llm.modify j g) (hg : (g c).answer = c.answer.move pc)
    (hh : w'.history = w.history ++ c.answer.exchange)
    (ha : w'.answered = w.answered ++ c.forwarder.answers j)
    (hj : ∀ k, w'.jobsMade k = w.jobsMade k + if j = k then n else 0) :
    AnswerStep w w' (.forwardLLMEvents j b) := by
  refine .move j c.answer pc n ⟨b, rfl⟩ (by simp [World.answers, hc]) hm hn ?_
  have hcalls : (w.llm.modify j g).map LlmCall.answer =
      (w.llm.map LlmCall.answer).set j (c.answer.move pc) := by
    apply List.map_modify_of_const
    intro d hd
    obtain rfl : c = d := Option.some.inj (hc.symm.trans hd)
    exact hg
  simp only [World.answers, hl, hcalls, hh, ha, funext hj]
  rfl

private theorem answerStep_quiet {w w' : World} {j : Nat} {b : LlmEventsAction} {c : LlmCall}
    {pc : LlmEventsPc} {g : LlmCall → LlmCall} (hc : w.llm[j]? = some c)
    (hm : c.forwarder.Moves (w.currentTurn = c.turn) pc) (hx : c.forwarder ≠ .handle .done)
    (hl : w'.llm = w.llm.modify j g) (hg : (g c).answer = c.answer.move pc)
    (hh : w'.history = w.history) (ha : w'.answered = w.answered)
    (hj : w'.jobsMade = w.jobsMade) : AnswerStep w w' (.forwardLLMEvents j b) := by
  have hexchange : c.answer.exchange = [] := by
    unfold Answer.exchange
    split
    · next hp => exact absurd hp hx
    · rfl
  have hanswers : c.forwarder.answers j = [] := by
    unfold LlmEventsPc.answers
    split
    · next hp => exact absurd hp hx
    · rfl
  exact answerStep_move hc hm (Nat.zero_le _) hl hg (by rw [hh, hexchange, List.append_nil])
    (by rw [ha, hanswers, List.append_nil]) fun k ↦ by simp [hj]

private theorem jobsMade_offer {w w' : World} {j : Nat} {job : TtsJob} (hjob : job.llm = j)
    (hq : w'.ttsQueue.items = w.ttsQueue.items ++ [job]) (ht : w'.taken = w.taken)
    (hd : w'.drained = w.drained) (k : Nat) :
    w'.jobsMade k = w.jobsMade k + if j = k then 1 else 0 := by
  simp only [World.jobsMade, World.kept, hq, ht, hd, List.countP_append, List.countP_cons,
    List.countP_nil, hjob, beq_iff_eq]
  omega

private theorem forwardLLMEvents_answerStep {w w' : World} {j : Nat} {a : LlmEventsAction}
    (h : w.forwardLLMEvents j a = some w') : AnswerStep w w' (.forwardLLMEvents j a) := by
  obtain ⟨c, hc, hstep⟩ := llmEventsStep_of_forwardLLMEvents h
  cases hstep with
  | take e s hp hs =>
    have hm : c.forwarder.Moves (w.currentTurn = c.turn) (.check e) := by
      rw [hp]
      exact .take e
    refine answerStep_quiet hc hm (by simp [hp]) rfl ?_ rfl rfl rfl
    simp [LlmCall.answer, Answer.move, hp, Stream.consumed_next? hs]
  | rangeOver hp =>
    have hm : c.forwarder.Moves (w.currentTurn = c.turn) .done := by
      rw [hp]
      exact .rangeOver
    refine answerStep_quiet hc hm (by simp [hp]) rfl ?_ rfl rfl rfl
    simp [LlmCall.answer, Answer.move, LlmCall.finish, hp]
  | stale e hp ht =>
    have hm : c.forwarder.Moves (w.currentTurn = c.turn) .done := by
      rw [hp]
      exact .stale e ht
    refine answerStep_quiet hc hm (by simp [hp]) rfl ?_ rfl rfl rfl
    simp [LlmCall.answer, Answer.move, LlmCall.finish, hp]
  | pass e hp ht =>
    have hm : c.forwarder.Moves (w.currentTurn = c.turn) (.handle e) := by
      rw [hp]
      exact .pass e ht
    refine answerStep_quiet hc hm (by simp [hp]) rfl ?_ rfl rfl rfl
    simp [LlmCall.answer, Answer.move, hp]
  | enqueue text q hp hq =>
    have hm : c.forwarder.Moves (w.currentTurn = c.turn) .ranging := by
      rw [hp]
      exact .handled (.chunk text)
    refine answerStep_move hc hm (n := 1) (by simp [hp]) rfl ?_ ?_ ?_ ?_
    · simp [LlmCall.answer, Answer.move, LlmCall.offer, hp]
    · simp [Answer.exchange, LlmCall.answer, hp]
    · simp [hp]
    · exact jobsMade_offer rfl (Chan.send?_eq_some.mp hq).2 rfl rfl
  | dropChunk text hp =>
    have hm : c.forwarder.Moves (w.currentTurn = c.turn) .ranging := by
      rw [hp]
      exact .handled (.chunk text)
    refine answerStep_quiet hc hm (by simp [hp]) rfl ?_ rfl rfl rfl
    simp [LlmCall.answer, Answer.move, LlmCall.offer, hp]
  | complete hp =>
    have hm : c.forwarder.Moves (w.currentTurn = c.turn) .ranging := by
      rw [hp]
      exact .handled .done
    refine answerStep_move hc hm (n := 0) (Nat.zero_le _) rfl ?_ ?_ ?_ fun k ↦ by simp; rfl
    · simp [LlmCall.answer, Answer.move, LlmCall.settle, hp]
    · simp [Answer.exchange, LlmCall.answer, LlmCall.exchange, hp]
    · simp [hp]
  | report code message b v hp hv =>
    have hm : c.forwarder.Moves (w.currentTurn = c.turn) .ranging := by
      rw [hp]
      exact .handled (.error code message)
    obtain ⟨send, dropped, rfl, -⟩ := sendJSON_eq_some hv
    refine answerStep_quiet hc hm (by simp [hp]) rfl ?_ rfl rfl rfl
    simp [LlmCall.answer, Answer.move, LlmCall.settle, hp]

/-- Whatever the session does, its answers make an `AnswerStep`. -/
theorem step_answerStep {w w' : World} {a : Action} (h : system.step w a = some w') :
    AnswerStep w w' a := by
  cases a with
  | readPump b => exact .rest (readPump_answers h)
  | audioSendWorker b =>
    obtain ⟨send, dropped, queue, pc, i, g, rfl, -⟩ := audioSendWorker_footprint h
    exact .rest rfl
  | forwardTranscripts i b => exact forwardTranscripts_answerStep h
  | forwardLLMEvents j b => exact forwardLLMEvents_answerStep h
  | ttsWorker b =>
    obtain ⟨send, dropped, queue, taken, active, pc, tts, rfl, -, -, -, hk⟩ :=
      ttsWorkerStep_footprint h
    exact .rest (answers_of_eq rfl rfl rfl (jobsMade_of_eq hk rfl))
  | sttRecvPump i b =>
    obtain ⟨c, s, -, -, rfl⟩ := sttRecvPump_eq_some h
    exact .rest rfl
  | llmRecvPump j b =>
    obtain ⟨c, s, hc, hs, rfl⟩ := llmRecvPump_eq_some h
    refine .rest (answers_of_eq (List.map_modify_of_eq fun d hd ↦ ?_) rfl rfl rfl)
    obtain rfl : c = d := Option.some.inj (hc.symm.trans hd)
    rw [LlmCall.answer, LlmCall.answer, (Stream.recvPump_frame hs).2]
  | ttsRecvPump k b =>
    obtain ⟨c, s, -, -, rfl⟩ := ttsRecvPump_eq_some h
    exact .rest rfl
  | write =>
    obtain ⟨send, written, rfl, -⟩ := write_eq_some h
    exact .rest rfl
  | stopWriting =>
    obtain rfl := stopWriting_eq_some h
    exact .rest rfl

/-! ### Calls only grow -/

/-- A call before and after some steps. -/
structure Answer.Grows (c d : Answer) : Prop where
  turn : d.turn = c.turn
  prompt : d.prompt = c.prompt
  events : c.events <+: d.events

/-- An answer grows from itself. -/
theorem Answer.Grows.refl (c : Answer) : c.Grows c := ⟨rfl, rfl, List.prefix_rfl⟩

/-- Growth composes. -/
theorem Answer.Grows.trans {c d e : Answer} (h : c.Grows d) (h' : d.Grows e) : c.Grows e :=
  ⟨h'.turn.trans h.turn, h'.prompt.trans h.prompt, h.events.trans h'.events⟩

/-- A step lets each answer grow. -/
theorem AnswerStep.grows {w w' : World} {a : Action} (h : AnswerStep w w' a) {j : Nat}
    {c : Answer} (hc : w.answers.calls[j]? = some c) :
    ∃ d, w'.answers.calls[j]? = some d ∧ c.Grows d := by
  cases h with
  | opened turn prompt h =>
    rw [h]
    exact ⟨c, List.getElem?_concat_eq_some.mpr (.inl hc), .refl c⟩
  | started k hf h =>
    rw [h]
    by_cases hj : j = k
    · subst hj
      exact ⟨_, List.getElem?_modify_eq_some.mpr (.inr ⟨rfl, c, hc, rfl⟩), rfl, rfl,
        List.prefix_rfl⟩
    · exact ⟨c, List.getElem?_modify_eq_some.mpr (.inl ⟨hj, hc⟩), .refl c⟩
  | move k d pc n ha hd hm hn h =>
    rw [h]
    by_cases hj : j = k
    · subst hj
      obtain rfl : c = d := Option.some.inj (hc.symm.trans hd)
      have hlen := (List.getElem?_eq_some_iff.mp hc).1
      exact ⟨_, List.getElem?_set_eq_some.mpr (.inr ⟨rfl, hlen, rfl⟩), rfl, rfl,
        List.prefix_append _ _⟩
    · exact ⟨c, List.getElem?_set_eq_some.mpr (.inl ⟨hj, hc⟩), .refl c⟩
  | rest h => exact ⟨c, h ▸ hc, .refl c⟩

/-! ### What the history is made of -/

/-- One completed turn in the history. -/
structure Exchange where
  turn : Nat
  user : String
  assistant : String

/-- The two messages of the turn. -/
def Exchange.messages (e : Exchange) : List ChatMessage :=
  [⟨"user", e.user⟩, ⟨"assistant", e.assistant⟩]

/-- An exchange is two messages. -/
theorem length_flatMap_messages (es : List Exchange) :
    (es.flatMap Exchange.messages).length = 2 * es.length := by
  induction es with
  | nil => rfl
  | cons e es ih =>
    rw [List.flatMap_cons, List.length_append, ih, List.length_cons]
    simp only [Exchange.messages, List.length_cons, List.length_nil]
    omega

/-- A beginning of whole exchanges is made of the first of them. -/
theorem eq_flatMap_take {es : List Exchange} {s : List ChatMessage}
    (hs : s <+: es.flatMap Exchange.messages) (heven : s.length % 2 = 0) :
    s = (es.take (s.length / 2)).flatMap Exchange.messages := by
  have htake : (es.take (s.length / 2)).flatMap Exchange.messages <+:
      es.flatMap Exchange.messages := by
    conv_rhs => rw [← List.take_append_drop (s.length / 2) es, List.flatMap_append]
    exact List.prefix_append _ _
  have hle := hs.length_le
  rw [length_flatMap_messages] at hle
  refine (List.prefix_of_prefix_length_le hs htake ?_).eq_of_length ?_
  all_goals
    rw [length_flatMap_messages, List.length_take]
    omega

/-- The answer of an exchange is the second of its two messages. -/
theorem getElem?_flatMap_messages {es : List Exchange} {i : Nat} {e : Exchange}
    (h : es[i]? = some e) :
    (es.flatMap Exchange.messages)[2 * i + 1]? = some ⟨"assistant", e.assistant⟩ := by
  induction es generalizing i with
  | nil => cases h
  | cons d es ih =>
    cases i with
    | zero =>
      obtain rfl : d = e := Option.some.inj h
      rfl
    | succ i =>
      rw [List.flatMap_cons, show 2 * (i + 1) + 1 = d.messages.length + (2 * i + 1) by
        simp only [Exchange.messages, List.length_cons, List.length_nil]; omega,
        List.getElem?_append_right (by omega), Nat.add_sub_cancel_left]
      exact ih h

/-- The exchange is what the goroutine of llm stream `j` made of the events up to some `Done`. -/
def AnswerView.Exchanged (v : AnswerView) (j : Nat) (e : Exchange) : Prop :=
  ∃ c, v.calls[j]? = some c ∧ e.turn = c.turn ∧ e.user = c.prompt ∧
    ∃ events, events ++ [.done] <+: c.events ∧
      e.assistant = String.join (events.filterMap ChatEvent.text?)

/-- The response is the text of the events handled so far; the last one may be in hand. -/
def Answer.Responds (c : Answer) : Prop :=
  c.forwarder ≠ .done → ∃ events, c.events = events ++ c.forwarder.event?.toList ∧
    c.response = String.join (events.filterMap ChatEvent.text?)

private theorem Answer.Responds.move {c : Answer} {pc : LlmEventsPc} {current : Prop}
    (hc : c.Responds) (hm : c.forwarder.Moves current pc) : (c.move pc).Responds := by
  intro hpc
  have hnd : c.forwarder ≠ .done := by
    intro hd
    rw [hd] at hm
    cases hm
  obtain ⟨events, he, hr⟩ := hc hnd
  cases c with
  | mk turn prompt response forwarder evs =>
    simp only at he hr hm
    subst he hr
    cases hm with
    | take e => exact ⟨events, by simp [Answer.move], by simp [Answer.move]⟩
    | rangeOver | stale => exact absurd rfl hpc
    | pass e => exact ⟨events, by simp [Answer.move], by simp [Answer.move]⟩
    | handled e =>
      refine ⟨events ++ [e], by simp [Answer.move], ?_⟩
      cases e <;> simp [Answer.move, ChatEvent.text?, List.filterMap_cons]

/-- Every response is the text so far, and the history is the exchanges of the streams whose
`Done` was processed, in order. -/
structure AnswerView.Exchanges (v : AnswerView) : Prop where
  responds : ∀ c ∈ v.calls, c.Responds
  history : ∃ es : List Exchange, v.history = es.flatMap Exchange.messages ∧
    List.Forall₂ v.Exchanged v.answered es

/-- An exchange stays one while calls only grow. -/
theorem AnswerView.Exchanged.mono {v v' : AnswerView} {j : Nat} {e : Exchange}
    (h : v.Exchanged j e)
    (hg : ∀ c, v.calls[j]? = some c → ∃ d, v'.calls[j]? = some d ∧ c.Grows d) :
    v'.Exchanged j e := by
  obtain ⟨c, hc, ht, hu, events, hp, ha⟩ := h
  obtain ⟨d, hd, hcd⟩ := hg c hc
  exact ⟨d, hd, ht.trans hcd.turn.symm, hu.trans hcd.prompt.symm, events, hp.trans hcd.events, ha⟩

private theorem Answer.exchanged {v : AnswerView} {j : Nat} {c : Answer}
    (hc : v.calls[j]? = some c) (hr : c.Responds) : ∃ es : List Exchange,
      c.exchange = es.flatMap Exchange.messages ∧
        List.Forall₂ v.Exchanged (c.forwarder.answers j) es := by
  unfold Answer.exchange LlmEventsPc.answers
  split
  · next hp =>
    obtain ⟨events, he, hresp⟩ := hr (by simp [hp])
    rw [hp] at he
    refine ⟨[⟨c.turn, c.prompt, c.response⟩], rfl, .cons ?_ .nil⟩
    exact ⟨c, hc, rfl, rfl, events, he ▸ List.prefix_rfl, hresp⟩
  · exact ⟨[], rfl, .nil⟩

/-- A step keeps the history made of the exchanges of the answered streams. -/
theorem exchanges_step {w w' : World} {a : Action} (hw : w.answers.Exchanges)
    (hp : w.chat.PublishesOnce) (h : AnswerStep w w' a) : w'.answers.Exchanges := by
  have old {js : List Nat} {es : List Exchange} (hes : List.Forall₂ w.answers.Exchanged js es) :
      List.Forall₂ w'.answers.Exchanged js es :=
    hes.imp fun _ _ he ↦ he.mono fun _ hc ↦ h.grows hc
  obtain ⟨es, hh, hes⟩ := hw.history
  cases h with
  | opened turn prompt h =>
    constructor
    · intro c hc
      rw [h] at hc
      rcases List.mem_append.mp hc with hc | hc
      · exact hw.responds c hc
      · obtain rfl := List.mem_singleton.mp hc
        exact fun _ ↦ ⟨[], rfl, rfl⟩
    · exact ⟨es, by rw [h]; exact hh, by rw [show w'.answers.answered = _ from
        congrArg AnswerView.answered h]; exact old hes⟩
  | started k hf h =>
    constructor
    · intro c hc
      rw [h] at hc
      obtain ⟨j, hj⟩ := List.mem_iff_getElem?.mp hc
      rcases List.getElem?_modify_eq_some.mp hj with ⟨-, hj⟩ | ⟨rfl, d, hd, rfl⟩
      · exact hw.responds c (List.mem_of_getElem? hj)
      · obtain ⟨i, turn, hi⟩ := hf
        obtain ⟨l, hl, hu⟩ := hp.unstarted i turn j hi
        have hdu : d.forwarder = .unstarted := by
          have hld : w.answers.calls[j]? = some l.answer := by
            simp [World.answers, show w.llm[j]? = some l from hl]
          obtain rfl : l.answer = d := Option.some.inj (hld.symm.trans hd)
          exact hu
        obtain ⟨events, he, hr⟩ := hw.responds d (List.mem_of_getElem? hd) (by simp [hdu])
        rw [hdu] at he
        exact fun _ ↦ ⟨events, he, hr⟩
    · exact ⟨es, by rw [h]; exact hh, by rw [show w'.answers.answered = _ from
        congrArg AnswerView.answered h]; exact old hes⟩
  | move k c pc n ha hc hm hn h =>
    have hcm := List.mem_of_getElem? hc
    constructor
    · intro d hd
      rw [h] at hd
      rcases List.mem_or_eq_of_mem_set hd with hd | rfl
      · exact hw.responds d hd
      · exact (hw.responds c hcm).move hm
    · obtain ⟨new, hx, hnew⟩ := Answer.exchanged hc (hw.responds c hcm)
      refine ⟨es ++ new, ?_, ?_⟩
      · rw [h, List.flatMap_append, ← hh, ← hx]
        rfl
      · rw [show w'.answers.answered = _ from congrArg AnswerView.answered h]
        exact List.rel_append (old hes) (old hnew)
  | rest h =>
    rw [h]
    exact hw

/-- In every run the history is made of exchanges. -/
theorem exchanges_of_reachable {w : World} (hr : system.Reachable w) : w.answers.Exchanges := by
  refine hr.invariant (I := fun w ↦ w.answers.Exchanges) ?_ fun w a w' hr hw h ↦
    exchanges_step hw (publishesOnce_of_reachable hr) (step_answerStep h)
  exact ⟨fun c hc ↦ (nomatch hc), [], rfl, .nil⟩

end BibiCore.Session
