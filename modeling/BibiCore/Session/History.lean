import Mathlib.Data.List.Nodup
import BibiCore.Session.Answers
import BibiCore.Session.Attribution

/-!
# The history a session sends with the next prompt

`session.go:295`–`438`. `forwardLLMEvents` looks at the turn when it takes `Done` and extends the
history in a later step, under the lock; a start may go by in between.
-/

namespace BibiCore.Session

open BibiCore.Gateway World
open BibiCore.Proto (ChatMessage)

/-! ### Starts -/

/-- The turn of the start whose stt stream is not open yet. -/
@[simp] def ReadPc.starting : ReadPc → Option Nat
  | .swap turn | .closeLLM turn _ _ | .closeTTS turn _ _ | .drain turn _ | .notify turn
  | .closeOld turn | .opening turn => some turn
  | _ => none

/-- The turn whose `interruptCurrentTurn` returns with the action. -/
def World.returning (w : World) (a : Action) : Option Nat :=
  match w.reader, a with
  | .drain turn false, .readPump .next => if w.ttsQueue.items = [] then some turn else none
  | .notify turn, .readPump (.select _) => some turn
  | _, _ => none

/-- What a step does to the start in progress. -/
inductive StartStep (w w' : World) (a : Action) : Prop
  | addTurn (ha : a = .readPump .next) (hr : w.reader = .addTurn)
      (ht : w'.currentTurn = w.currentTurn + 1) (hr' : w'.reader = .swap (w.currentTurn + 1))
  | keep (ht : w'.currentTurn = w.currentTurn)
      (hs : ∀ n, w'.reader.starting = some n → w.reader.starting = some n)
      (hi : ∀ n, w'.reader.interrupting = some n → w.reader.interrupting = some n)
      (hret : ∀ n, w.reader.interrupting = some n →
        w'.reader.interrupting = some n ∨ w.returning a = some n)

private theorem readPump_startStep {w w' : World} {a : ReadAction} (h : w.readPump a = some w') :
    StartStep w w' (.readPump a) := by
  cases readStep_of_readPump h with
  | setVoice | noUtterance => exact .keep rfl (fun _ hn ↦ hn) (fun _ hn ↦ hn) fun _ hn ↦ .inl hn
  | addTurn hr => exact .addTurn rfl hr rfl rfl
  | notInterrupted turn hr hq =>
    exact .keep rfl (by simp [hr]) (by simp) (by simp [World.returning, hr, hq])
  | notify turn b v hr hv =>
    obtain ⟨send, dropped, rfl, -⟩ := sendJSON_eq_some hv
    exact .keep rfl (by simp [hr]) (by simp) (by simp [World.returning, hr])
  | report _ _ _ _ hr hv | openFailed _ _ hr hv =>
    obtain ⟨send, dropped, rfl, -⟩ := sendJSON_eq_some hv
    exact .keep rfl (by simp) (by simp) (by simp [hr])
  | noStream _ hr | audio _ _ hr | malformed hr | other _ hr | start _ hr | endUtterance _ hr
  | readError hr | enqueue _ _ hr | dropFrame _ hr | swap _ hr | closeLLM _ _ _ hr | noLLM _ _ hr
  | closeTTS _ _ _ hr | noTTS _ _ hr | drainJob _ _ _ _ hr | interrupted _ hr
  | closeOld _ _ hr | noOld _ hr | opened _ hr | openError _ hr | storeNil hr | store _ hr
  | enqueueFinish _ _ hr | finishDone _ hr | returned hr =>
    exact .keep rfl (by simp [hr]) (by simp [hr]) (by simp [hr])

/-- Whatever the session does, the start in progress makes a `StartStep`. -/
theorem step_startStep {w w' : World} {a : Action} (h : system.step w a = some w') :
    StartStep w w' a := by
  have same (hr : w'.reader = w.reader) (ht : w'.currentTurn = w.currentTurn) :
      StartStep w w' a :=
    .keep ht (fun n hn ↦ hr ▸ hn) (fun n hn ↦ hr ▸ hn) (fun n hn ↦ .inl (hr ▸ hn))
  cases a with
  | readPump b => exact readPump_startStep h
  | forwardTranscripts i b =>
    obtain ⟨c, send, dropped, active, llm, g, -, rfl, -⟩ := forwardTranscripts_footprint h
    exact same rfl rfl
  | forwardLLMEvents j b =>
    obtain ⟨send, dropped, active, queue, history, answered, g, rfl, -⟩ :=
      forwardLLMEvents_footprint h
    exact same rfl rfl
  | ttsWorker b =>
    obtain ⟨send, dropped, queue, taken, active, pc, tts, rfl, -⟩ := ttsWorkerStep_footprint h
    exact same rfl rfl
  | audioSendWorker | sttRecvPump | llmRecvPump | ttsRecvPump | write | stopWriting =>
    have hsame := step_sameTurn h trivial
    exact same hsame.reader hsame.turn

/-- What has returned stays returned. -/
theorem StartStep.returned {w w' : World} {a : Action} (h : StartStep w w' a) {n : Nat}
    (hn : w.InterruptReturned n) : w'.InterruptReturned n := by
  obtain ⟨hle, hne⟩ := hn
  cases h with
  | addTurn _ hr ht hr' =>
    refine ⟨by omega, fun hi ↦ ?_⟩
    rw [hr'] at hi
    have : w.currentTurn + 1 = n := Option.some.inj hi
    omega
  | keep ht hs hi hret => exact ⟨ht ▸ hle, fun h ↦ hne (hi n h)⟩

/-- What has just returned returned with the step. -/
theorem StartStep.returned_or {w w' : World} {a : Action} (h : StartStep w w' a) {n : Nat}
    (hn : w'.InterruptReturned n) : w.InterruptReturned n ∨ w.returning a = some n := by
  obtain ⟨hle, hne⟩ := hn
  cases h with
  | addTurn _ hr ht hr' =>
    left
    have : n ≠ w.currentTurn + 1 := by
      rintro rfl
      exact hne (by rw [hr']; rfl)
    exact ⟨by omega, by simp [hr]⟩
  | keep ht hs hi hret =>
    by_cases hin : w.reader.interrupting = some n
    · exact .inr ((hret n hin).resolve_left hne)
    · exact .inl ⟨ht ▸ hle, hin⟩

/-- The turns that opened the stt streams, in the order of the streams. -/
def World.startTurns (w : World) : List Nat := w.talk.calls.map Talk.startTurn

/-- The turns that opened the stt streams increase, each is past its interruption, and none of
them is that of the start in progress. -/
structure StartTurns (w : World) : Prop where
  starting : ∀ n, w.reader.starting = some n → n = w.currentTurn ∧ ∀ t ∈ w.startTurns, t < n
  returned : ∀ t ∈ w.startTurns, w.InterruptReturned t
  increasing : w.startTurns.Pairwise (· < ·)

private theorem TalkStep.startTurns {w w' : World} {a : Action} (h : TalkStep w w' a) :
    w'.startTurns = w.startTurns ∨
      ∃ turn i, w.reader = .opening turn ∧ w'.reader = .store i ∧
        w'.startTurns = w.startTurns ++ [turn] := by
  cases h with
  | opened turn hr hr' h => exact .inr ⟨turn, _, hr, hr', by simp [World.startTurns, h]⟩
  | stored i hr h =>
    left
    rw [World.startTurns, h]
    exact List.map_modify_of_eq fun _ _ ↦ rfl
  | move i c pc sent ha hc hm hs h =>
    left
    rw [World.startTurns, h]
    exact List.map_set_of_eq hc rfl
  | rest h => exact .inl (by rw [World.startTurns, h]; rfl)

private theorem startTurns_step {w w' : World} {a : Action} (hw : StartTurns w)
    (hs : StartStep w w' a) (ht : TalkStep w w' a) : StartTurns w' := by
  rcases ht.startTurns with ht | ⟨turn, i, hr, hr', ht⟩
  · refine ⟨fun n hn ↦ ?_, fun t h ↦ ?_, by rw [ht]; exact hw.increasing⟩
    · rw [ht]
      cases hs with
      | addTurn _ hr hturn hr' =>
        rw [hr'] at hn
        obtain rfl : w.currentTurn + 1 = n := Option.some.inj hn
        refine ⟨hturn.symm, fun t h ↦ ?_⟩
        have := (hw.returned t h).1
        omega
      | keep hturn hstart hi hret =>
        rw [hturn]
        exact hw.starting n (hstart n hn)
    · rw [ht] at h
      exact hs.returned (hw.returned t h)
  · obtain ⟨rfl, hlt⟩ := hw.starting turn (by simp [hr])
    have hturn : w'.currentTurn = w.currentTurn := by
      cases hs with
      | addTurn _ h => simp [hr] at h
      | keep hturn => exact hturn
    refine ⟨by simp [hr'], fun t h ↦ ?_, ?_⟩
    · rw [ht] at h
      rcases List.mem_append.mp h with h | h
      · exact hs.returned (hw.returned t h)
      · obtain rfl := List.mem_singleton.mp h
        exact ⟨Nat.le_of_eq hturn.symm, by simp [hr']⟩
    · rw [ht]
      refine List.pairwise_append.mpr ⟨hw.increasing, List.pairwise_singleton _ _, ?_⟩
      intro t h u hu
      obtain rfl := List.mem_singleton.mp hu
      exact hlt t h

/-- In every reachable session the turns that opened the stt streams increase. -/
theorem startTurns_of_reachable {w : World} (hr : system.Reachable w) : StartTurns w := by
  refine hr.invariant (I := StartTurns) ?_ fun w a w' _ hw h ↦
    startTurns_step hw (step_startStep h) (step_talkStep h)
  constructor <;> simp [system, World.new, World.startTurns, World.talk]

private theorem chat_opener {w : World} (ho : w.talk.OwnTurns) {c : LlmCall} (hc : c ∈ w.llm) :
    ∃ t, w.talk.calls[c.opener]? = some t ∧ t.startTurn = c.turn := by
  have hopening : c.opening ∈ w.talk.openings := List.mem_map_of_mem hc
  have hlt := ho.chats _ hopening
  refine ⟨_, List.getElem?_eq_getElem hlt, ?_⟩
  have hown := (List.sublist_append_left _ _).trans
    (ho.own c.opener _ (List.getElem?_eq_getElem hlt)).chats
  have hmem : c.opening ∈ w.talk.openings.filter (·.opener == c.opener) :=
    List.mem_filter.mpr ⟨hopening, by simp [LlmCall.opening]⟩
  obtain ⟨text, -, heq⟩ := List.mem_map.mp (hown.subset hmem)
  exact congrArg Opening.turn heq

/-- Chats run as turns that are past their interruption. -/
theorem chat_returned {w : World} (ho : w.talk.OwnTurns) (hs : StartTurns w) {c : LlmCall}
    (hc : c ∈ w.llm) : w.InterruptReturned c.turn := by
  obtain ⟨t, ht, hturn⟩ := chat_opener ho hc
  exact hturn ▸ hs.returned _ (List.mem_map_of_mem (List.mem_of_getElem? ht))

/-- When each stt stream delivers at most one final transcript as well, no two chats run as one
turn. -/
theorem chat_unique {w : World} (ho : w.talk.OwnTurns) (hs : StartTurns w)
    (hf : ∀ c ∈ w.stt, (c.stream.delivered.filterMap TranscriptEvent.final?).length ≤ 1)
    {j k : Nat} {c d : LlmCall} (hc : w.llm[j]? = some c) (hd : w.llm[k]? = some d)
    (ht : c.turn = d.turn) : j = k := by
  obtain ⟨s, hs1, hst⟩ := chat_opener ho (List.mem_of_getElem? hc)
  obtain ⟨u, hu, hut⟩ := chat_opener ho (List.mem_of_getElem? hd)
  have hsame : c.opener = d.opener := by
    have hnodup : w.startTurns.Nodup := hs.increasing.imp fun h ↦ Nat.ne_of_lt h
    have hlen : c.opener < w.startTurns.length := by
      rw [World.startTurns, List.length_map]
      exact (List.getElem?_eq_some_iff.mp hs1).1
    refine (List.getElem?_inj hlen hnodup).mp ?_
    simp [World.startTurns, hs1, hu, hst, hut, ht]
  obtain ⟨e, he, rfl⟩ := by simpa [World.talk] using hs1
  have hcount : w.talk.openings.countP (·.opener == c.opener) ≤ 1 := by
    have hle := ((List.sublist_append_left _ _).trans
      (ho.own c.opener _ hs1).chats).length_le
    have hfin := hf e (List.mem_of_getElem? he)
    rw [Stream.delivered, List.filterMap_append, List.length_append] at hfin
    rw [List.length_map, ← List.countP_eq_length_filter] at hle
    have hev : e.talk.events = e.stream.consumed := rfl
    rw [hev] at hle
    omega
  refine List.eq_of_countP_le_one (a := c.opening) (b := d.opening) hcount ?_ ?_ ?_ ?_
  · simp [World.talk, hc]
  · simp [World.talk, hd]
  · simp [LlmCall.opening]
  · simp [LlmCall.opening, hsame]

/-! ### Counting answers -/

/-- No `Done` is answered twice. -/
structure AnswerView.Counted (v : AnswerView) : Prop where
  dones : ∀ (j : Nat) (c : Answer), v.calls[j]? = some c →
    v.answered.count j + c.forwarder.event?.toList.count .done ≤ c.events.count .done
  known : ∀ j ∈ v.answered, j < v.calls.length

private theorem LlmEventsPc.Moves.dones {current : Prop} {pc pc' : LlmEventsPc} {j : Nat}
    (h : pc.Moves current pc') :
    (pc.answers j).count j + pc'.event?.toList.count .done ≤
      pc.event?.toList.count .done + pc'.taken.count .done := by
  cases h with
  | handled e => cases e <;> simp
  | take | rangeOver | stale | pass => simp

private theorem counted_step {w w' : World} {a : Action} (hw : w.answers.Counted)
    (h : AnswerStep w w' a) : w'.answers.Counted := by
  have hcount {j : Nat} (hj : w.answers.calls[j]? = none) : w.answers.answered.count j = 0 := by
    apply List.count_eq_zero.mpr
    intro hm
    have := hw.known j hm
    have := List.getElem?_eq_none_iff.mp hj
    omega
  cases h with
  | opened turn prompt h =>
    rw [h]
    refine ⟨fun j c hc ↦ ?_, fun j hj ↦ ?_⟩
    · rcases List.getElem?_concat_eq_some.mp hc with hc | ⟨rfl, rfl⟩
      · exact hw.dones j c hc
      · exact Nat.le_of_eq (hcount (List.getElem?_eq_none_iff.mpr (Nat.le_refl _)))
    · rw [List.length_append]
      exact Nat.lt_add_right _ (hw.known j hj)
  | started k hf h =>
    rw [h]
    refine ⟨fun j c hc ↦ ?_, fun j hj ↦ ?_⟩
    · rcases List.getElem?_modify_eq_some.mp hc with ⟨-, hc⟩ | ⟨rfl, d, hd, rfl⟩
      · exact hw.dones j c hc
      · have := hw.dones j d hd
        simp only [LlmEventsPc.event?, Option.toList_none, List.count_nil]
        omega
    · rw [List.length_modify]
      exact hw.known j hj
  | move k c pc n ha hc hm hn h =>
    rw [h]
    refine ⟨fun j d hd ↦ ?_, fun j hj ↦ ?_⟩
    · rw [show (AnswerView.answered _) = w.answered ++ c.forwarder.answers k from rfl,
        List.count_append]
      rcases List.getElem?_set_eq_some.mp hd with ⟨hne, hd⟩ | ⟨rfl, -, rfl⟩
      · have hzero : (c.forwarder.answers k).count j = 0 := by
          apply List.count_eq_zero.mpr
          intro hmem
          unfold LlmEventsPc.answers at hmem
          split at hmem
          · exact hne (List.mem_singleton.mp hmem)
          · cases hmem
        have := hw.dones j d hd
        rw [hzero]
        exact this
      · have hold := hw.dones j c hc
        have hmove := hm.dones (j := j)
        have hev : (c.move pc).events.count .done = c.events.count .done + pc.taken.count .done :=
          List.count_append
        have hpc : (c.move pc).forwarder = pc := rfl
        have hans : w.answers.answered = w.answered := rfl
        rw [hev, hpc]
        rw [hans] at hold
        omega
    · rw [List.length_set]
      rcases List.mem_append.mp hj with hj | hj
      · exact hw.known j hj
      · unfold LlmEventsPc.answers at hj
        split at hj
        · rw [List.mem_singleton.mp hj]
          exact (List.getElem?_eq_some_iff.mp hc).1
        · cases hj
  | rest h =>
    rw [h]
    exact hw

/-- In every reachable session no `Done` is answered twice. -/
theorem counted_of_reachable {w : World} (hr : system.Reachable w) : w.answers.Counted := by
  refine hr.invariant (I := fun w ↦ w.answers.Counted) ?_ fun w a w' _ hw h ↦
    counted_step hw (step_answerStep h)
  exact ⟨fun j c hc ↦ by simp [system, World.new, World.answers] at hc, fun j hj ↦ (nomatch hj)⟩

/-! ### The order of the answers -/

/-- The turn of llm stream `j`. -/
def AnswerView.turnOf (v : AnswerView) (j : Nat) : Nat :=
  ((v.calls[j]?).map Answer.turn).getD 0

/-- Every goroutine loads its own turn, and no `interruptCurrentTurn` returns while a goroutine of
an earlier turn has passed its check with `Done` in hand. -/
def SettlesFirst (w : World) (a : Action) : Prop :=
  LoadsOwnTurn w a ∧
    ∀ n ∈ w.returning a, ∀ c ∈ w.llm, c.forwarder = .handle .done → n ≤ c.turn

instance (w : World) (a : Action) : Decidable (SettlesFirst w a) :=
  inferInstanceAs (Decidable (_ ∧ _))

/-- A goroutine past its check with `Done` in hand is of no turn whose successor's interruption
has returned, and the streams were answered in the order of their turns. -/
structure TurnOrder (w : World) : Prop where
  settling : ∀ c ∈ w.answers.calls, c.forwarder = .handle .done →
    ∀ n, c.turn < n → ¬ w.InterruptReturned n
  ordered : (w.answered.map w.answers.turnOf).Pairwise (· ≤ ·)

namespace TurnOrder

variable {w w' : World} {a : Action}

private theorem settling_step (hw : TurnOrder w) (hg : SettlesFirst w a)
    (hs : StartStep w w' a) (h : AnswerStep w w' a) :
    ∀ c ∈ w'.answers.calls, c.forwarder = .handle .done →
      ∀ n, c.turn < n → ¬ w'.InterruptReturned n := by
  have old {c : Answer} (hc : c ∈ w.answers.calls) (hd : c.forwarder = .handle .done) :
      ∀ n, c.turn < n → ¬ w'.InterruptReturned n := by
    intro n hn hret
    rcases hs.returned_or hret with hret | hret
    · exact hw.settling c hc hd n hn hret
    · obtain ⟨l, hl, rfl⟩ := List.mem_map.mp hc
      have hle : n ≤ l.turn := hg.2 n hret l hl hd
      have hturn : l.answer.turn = l.turn := rfl
      omega
  intro c hc hd
  cases h with
  | opened turn prompt h =>
    rw [h] at hc
    rcases List.mem_append.mp hc with hc | hc
    · exact old hc hd
    · rw [List.mem_singleton.mp hc] at hd
      cases hd
  | started k hf h =>
    rw [h] at hc
    obtain ⟨j, hj⟩ := List.mem_iff_getElem?.mp hc
    rcases List.getElem?_modify_eq_some.mp hj with ⟨-, hj⟩ | ⟨rfl, d, -, rfl⟩
    · exact old (List.mem_of_getElem? hj) hd
    · cases hd
  | move k d pc n ha hk hm hn h =>
    rw [h] at hc
    rcases List.mem_or_eq_of_mem_set hc with hc | rfl
    · exact old hc hd
    · have hpc : pc = .handle .done := hd
      subst hpc
      -- the goroutine has just found its turn current
      generalize d.forwarder = pc at hm
      cases hm with
      | pass e hcur =>
        intro n hn hret
        have hle := hret.1
        have hturn : w'.currentTurn = w.currentTurn := by
          obtain ⟨b, rfl⟩ := ha
          cases hs with
          | addTurn hact => cases hact
          | keep ht => exact ht
        have hn' : d.turn < n := hn
        omega
  | rest h =>
    rw [h] at hc
    exact old hc hd

private theorem ordered_step (hw : TurnOrder w) (hc : w.answers.Counted)
    (hret : ∀ c ∈ w.llm, w.InterruptReturned c.turn) (h : AnswerStep w w' a) :
    (w'.answered.map w'.answers.turnOf).Pairwise (· ≤ ·) := by
  have hturn : ∀ j ∈ w.answered, w'.answers.turnOf j = w.answers.turnOf j := by
    intro j hj
    obtain ⟨d, hd, hcd⟩ := h.grows (List.getElem?_eq_getElem (hc.known j hj))
    simp only [AnswerView.turnOf, hd, List.getElem?_eq_getElem (hc.known j hj), Option.map_some,
      hcd.turn]
  have hold : w.answered.map w'.answers.turnOf = w.answered.map w.answers.turnOf :=
    List.map_congr_left hturn
  have same (ha : w'.answered = w.answered) :
      (w'.answered.map w'.answers.turnOf).Pairwise (· ≤ ·) := by
    rw [ha, hold]
    exact hw.ordered
  cases h with
  | opened turn prompt h => exact same (congrArg AnswerView.answered h)
  | started k hf h => exact same (congrArg AnswerView.answered h)
  | rest h => exact same (congrArg AnswerView.answered h)
  | move k c pc n ha hk hm hn h =>
    have hanswered : w'.answered = w.answered ++ c.forwarder.answers k :=
      congrArg AnswerView.answered h
    by_cases hd : c.forwarder = .handle .done
    · rw [hd] at hanswered
      rw [hanswered, List.map_append, hold, List.pairwise_append]
      refine ⟨hw.ordered, by simp, ?_⟩
      intro t ht u hu
      obtain ⟨j, hj, rfl⟩ := List.mem_map.mp ht
      have hku : u = c.turn := by
        have hnew : w'.answers.calls[k]? = some (c.move pc) := by
          rw [show w'.answers.calls = _ from congrArg AnswerView.calls h]
          exact List.getElem?_set_eq_some.mpr
            (.inr ⟨rfl, (List.getElem?_eq_some_iff.mp hk).1, rfl⟩)
        simpa [AnswerView.turnOf, hnew, Answer.move] using hu
      obtain ⟨l, hl⟩ : ∃ l, w.llm[j]? = some l :=
        ⟨_, List.getElem?_eq_getElem (by simpa [World.answers] using hc.known j hj)⟩
      have hjl : w.answers.turnOf j = l.turn := by
        simp [AnswerView.turnOf, World.answers, hl, LlmCall.answer]
      -- otherwise the interruption of the later turn had returned
      by_contra hlt
      exact hw.settling c (List.mem_of_getElem? hk) hd l.turn (by omega)
        (hret l (List.mem_of_getElem? hl))
    · have hnil : c.forwarder.answers k = [] := by
        unfold LlmEventsPc.answers
        split
        · next hp => exact absurd hp hd
        · rfl
      exact same (by rw [hanswered, hnil, List.append_nil])

end TurnOrder

/-- Where each turn settles before the next, streams are answered in the order of their turns. -/
theorem turnOrder_of_reachable {w : World} (hr : system.ReachableWith SettlesFirst w) :
    TurnOrder w := by
  refine hr.invariant (I := TurnOrder) ?_ fun w a w' hr hw hg h ↦ ?_
  · constructor <;> simp [system, World.new, World.answers]
  · have ho := ownTurns_of_reachable (hr.mono fun _ _ h ↦ h.1)
    have hs := startTurns_of_reachable hr.reachable
    exact ⟨hw.settling_step hg (step_startStep h) (step_answerStep h),
      hw.ordered_step (counted_of_reachable hr.reachable) (fun _ hc ↦ chat_returned ho hs hc)
        (step_answerStep h)⟩

/-! ### The copies of the history -/

/-- The copies of the history that are about to be sent with a prompt, or have been. -/
def World.snapshots (w : World) : List (List ChatMessage) :=
  w.llm.map LlmCall.context ++ w.forwarders.filterMap TranscriptsPc.snapshot?

/-- A copy that is there already, or one of the history as it is. -/
def World.Copy (w : World) (s : List ChatMessage) : Prop := s ∈ w.snapshots ∨ s = w.history

private theorem copy_context {w : World} {c : LlmCall} (hc : c ∈ w.llm) : w.Copy c.context :=
  .inl (List.mem_append_left _ (List.mem_map_of_mem hc))

private theorem copy_snapshot {w : World} {pc : TranscriptsPc} {s : List ChatMessage}
    (hpc : pc ∈ w.forwarders) (hs : pc.snapshot? = some s) : w.Copy s :=
  .inl (List.mem_append_right _ (List.mem_filterMap.mpr ⟨pc, hpc, hs⟩))

private theorem copy_modify {w : World} {j : Nat} {g : LlmCall → LlmCall}
    (hg : ∀ c, w.llm[j]? = some c → (g c).context = c.context) :
    ∀ c ∈ w.llm.modify j g, w.Copy c.context := by
  intro d hd
  obtain ⟨k, hk⟩ := List.mem_iff_getElem?.mp hd
  rcases List.getElem?_modify_eq_some.mp hk with ⟨-, hk⟩ | ⟨rfl, c, hc, rfl⟩
  · exact copy_context (List.mem_of_getElem? hk)
  · rw [hg c hc]
    exact copy_context (List.mem_of_getElem? hc)

private theorem copy_set {w : World} {i : Nat} {pc : TranscriptsPc}
    (hpc : ∀ s, pc.snapshot? = some s → w.Copy s) :
    ∀ pc' ∈ w.forwarders.set i pc, ∀ s, pc'.snapshot? = some s → w.Copy s := by
  intro pc' hpc'
  rcases List.mem_or_eq_of_mem_set hpc' with hold | rfl
  · exact fun s ↦ copy_snapshot hold
  · exact hpc

/-- A step makes no copy but of the history as it is. -/
theorem ChatStep.snapshots {w w' : World} {a : Action} (h : ChatStep w w' a) :
    ∀ s ∈ w'.snapshots, w.Copy s := by
  have parts {v : ChatView} (hv : w'.chat = v) (hcalls : ∀ c ∈ v.llm, w.Copy c.context)
      (hpcs : ∀ pc ∈ v.forwarders, ∀ s, pc.snapshot? = some s → w.Copy s) :
      ∀ s ∈ w'.snapshots, w.Copy s := by
    intro s hs
    subst hv
    rcases List.mem_append.mp hs with hs | hs
    · obtain ⟨c, hc, rfl⟩ := List.mem_map.mp hs
      exact hcalls c hc
    · obtain ⟨pc, hpc, hs⟩ := List.mem_filterMap.mp hs
      exact hpcs pc hpc s hs
  have calls : ∀ c ∈ w.llm, w.Copy c.context := fun _ ↦ copy_context
  have pcs : ∀ pc ∈ w.forwarders, ∀ s, pc.snapshot? = some s → w.Copy s :=
    fun _ hpc _ ↦ copy_snapshot hpc
  cases h with
  | addTurn _ h | swap _ _ _ h | read _ _ h | rest h => exact parts h calls pcs
  | opened turn hr h =>
    refine parts h calls (List.forall_mem_append.mpr ⟨pcs, ?_⟩)
    simp
  | stored i hr h => exact parts h calls (copy_set (by simp))
  | startChat i turn prompt history hi h =>
    refine parts h (List.forall_mem_append.mpr ⟨calls, ?_⟩) (copy_set (by simp))
    rw [List.forall_mem_singleton]
    exact pcs _ (List.mem_of_getElem? hi) history rfl
  | publish i turn j ha hi h => exact parts h (copy_modify fun _ _ ↦ rfl) (copy_set (by simp))
  | transcripts i pc pc' hi hp hp' ht hs h =>
    exact parts h calls (copy_set fun s hsnap ↦ .inr (hs s hsnap))
  | close | complete | pump =>
    rename_i h
    exact parts h (copy_modify fun _ _ ↦ rfl) pcs
  | llmEvents j c g hc hg h =>
    refine parts h (copy_modify fun d hd ↦ ?_) pcs
    obtain rfl : c = d := Option.some.inj (hc.symm.trans hd)
    exact hg.context

/-- The history is only added to. -/
theorem AnswerStep.history_grows {w w' : World} {a : Action} (h : AnswerStep w w' a) :
    w.history <+: w'.history := by
  cases h with
  | opened _ _ h | started _ _ h | rest h =>
    have heq : w'.history = w.history := congrArg AnswerView.history h
    exact heq ▸ List.prefix_rfl
  | move j c pc n ha hc hm hn h =>
    rw [show w'.history = w.history ++ c.exchange from congrArg AnswerView.history h]
    exact List.prefix_append _ _

/-- Every copy is the history of an earlier time: it begins with it, and is made of pairs. -/
theorem snapshots_of_reachable {w : World} (hr : system.Reachable w) :
    ∀ s ∈ w.snapshots, s <+: w.history ∧ s.length % 2 = 0 := by
  refine hr.invariant (I := fun w ↦ ∀ s ∈ w.snapshots, s <+: w.history ∧ s.length % 2 = 0) ?_
    fun w a w' hr hw h s hs ↦ ?_
  · simp [system, World.new, World.snapshots, World.forwarders]
  · have hgrows := (step_answerStep h).history_grows
    rcases (step_chatStep h).snapshots s hs with hs | rfl
    · obtain ⟨hpre, heven⟩ := hw s hs
      exact ⟨hpre.trans hgrows, heven⟩
    · obtain ⟨es, hes, -⟩ := (exchanges_of_reachable hr).history
      refine ⟨hgrows, ?_⟩
      have hes : w.history = es.flatMap Exchange.messages := hes
      rw [hes, length_flatMap_messages]
      omega

/-! ### The history -/

/-- The history is a sequence of exchanges, each of a stream whose `Done` was processed, with
strictly increasing turns. -/
def HistoryInOrder (w : World) : Prop :=
  ∃ es : List Exchange, w.history = es.flatMap Exchange.messages ∧
    List.Forall₂ w.answers.Exchanged w.answered es ∧ (es.map Exchange.turn).Pairwise (· < ·)

/-- The context sent with a prompt is a history as well: that of the first streams answered, with
strictly increasing turns. -/
def ContextsInOrder (w : World) : Prop :=
  ∀ c ∈ w.llm, ∃ (js : List Nat) (es : List Exchange), js <+: w.answered ∧
    c.context = es.flatMap Exchange.messages ∧ List.Forall₂ w.answers.Exchanged js es ∧
    (es.map Exchange.turn).Pairwise (· < ·)

/-- No step appends the exchange of a turn when `interruptCurrentTurn` has returned for a later
one. -/
def AppendsInTime (w : World) : Prop :=
  ∀ a w' j c, system.step w a = some w' → w'.answered = w.answered ++ [j] →
    w.llm[j]? = some c → ∀ n, c.turn < n → ¬ w.InterruptReturned n

/-- Each stt stream has delivered at most one final transcript, each llm stream at most one
`Done`. -/
structure DeliversOnce (w : World) : Prop where
  finals : ∀ c ∈ w.stt, (c.stream.delivered.filterMap TranscriptEvent.final?).length ≤ 1
  dones : ∀ c ∈ w.llm, c.stream.delivered.count .done ≤ 1

private theorem map_turn_eq {v : AnswerView} {js : List Nat} {es : List Exchange}
    (h : List.Forall₂ v.Exchanged js es) : es.map Exchange.turn = js.map v.turnOf := by
  induction h with
  | nil => rfl
  | cons he _ ih =>
    obtain ⟨c, hc, ht, -⟩ := he
    simp [ih, ht, AnswerView.turnOf, hc]

/-- The contexts of a history in order are in order. -/
theorem HistoryInOrder.contexts {w : World} (hr : system.Reachable w) (h : HistoryInOrder w) :
    ContextsInOrder w := by
  intro c hc
  obtain ⟨es, hh, hes, hinc⟩ := h
  obtain ⟨hpre, heven⟩ := snapshots_of_reachable hr c.context
    (List.mem_append_left _ (List.mem_map_of_mem hc))
  rw [hh] at hpre
  refine ⟨w.answered.take (c.context.length / 2), es.take (c.context.length / 2),
    List.take_prefix _ _, eq_flatMap_take hpre heven, List.forall₂_take _ hes, ?_⟩
  rw [List.map_take]
  exact hinc.sublist (List.take_sublist _ _)

private theorem exists_call {w : World} (hc : w.answers.Counted) {j : Nat} (hj : j ∈ w.answered) :
    ∃ c, w.llm[j]? = some c :=
  ⟨_, List.getElem?_eq_getElem (by simpa [World.answers] using hc.known j hj)⟩

private theorem answered_nodup {w : World} (hc : w.answers.Counted) (hd : DeliversOnce w) :
    w.answered.Nodup := by
  refine List.nodup_iff_count_le_one.mpr fun j ↦ ?_
  by_cases hj : j ∈ w.answered
  · obtain ⟨c, hjc⟩ := exists_call hc hj
    have hcount := hc.dones j c.answer (by simp [World.answers, hjc])
    have hdone := hd.dones c (List.mem_of_getElem? hjc)
    rw [Stream.delivered, List.count_append] at hdone
    have hans : w.answers.answered = w.answered := rfl
    have hev : c.answer.events = c.stream.consumed := rfl
    rw [hans, hev] at hcount
    omega
  · rw [List.count_eq_zero_of_not_mem hj]
    omega

/-- Where streams are answered in the order of their turns, the next append is in time. -/
theorem TurnOrder.appendsInTime {w : World} (hw : TurnOrder w) : AppendsInTime w := by
  intro a w' j c h hans hjc n hn
  have hmem : c.answer ∈ w.answers.calls :=
    List.mem_map_of_mem (List.mem_of_getElem? hjc)
  refine hw.settling c.answer hmem ?_ n hn
  have nothing (heq : w'.answered = w.answered) : c.answer.forwarder = .handle .done := by
    rw [heq] at hans
    simp at hans
  cases step_answerStep h with
  | opened _ _ h => exact nothing (congrArg AnswerView.answered h)
  | started _ _ h => exact nothing (congrArg AnswerView.answered h)
  | rest h => exact nothing (congrArg AnswerView.answered h)
  | move k d pc m ha hk hm hn h =>
    have hnew : w'.answered = w.answered ++ d.forwarder.answers k :=
      congrArg AnswerView.answered h
    have heq : d.forwarder.answers k = [j] := List.append_cancel_left (hnew.symm.trans hans)
    unfold LlmEventsPc.answers at heq
    split at heq
    · next hp =>
      obtain rfl : k = j := by simpa using heq
      obtain rfl : d = c.answer := by simpa [World.answers, hjc] using hk.symm
      exact hp
    · cases heq

/-- As long as every goroutine loads its own turn and no interruption returns while `Done` of an
earlier turn is in hand: when each stt stream delivers at most one final transcript and each llm
stream at most one `Done`, the history and the contexts of the prompts are in order, and the next
append is in time. -/
theorem historyInOrder_of_settlesFirst (w : World) (hr : system.ReachableWith SettlesFirst w)
    (hd : DeliversOnce w) : HistoryInOrder w ∧ AppendsInTime w ∧ ContextsInOrder w := by
  have hw := turnOrder_of_reachable hr
  have ho := ownTurns_of_reachable (hr.mono fun _ _ h ↦ h.1)
  have hs := startTurns_of_reachable hr.reachable
  have hc := counted_of_reachable hr.reachable
  have hhistory : HistoryInOrder w := by
    obtain ⟨es, hh, hes⟩ := (exchanges_of_reachable hr.reachable).history
    refine ⟨es, hh, hes, ?_⟩
    rw [map_turn_eq hes]
    have hle := List.pairwise_map.mp hw.ordered
    have hnodup := answered_nodup hc hd
    refine List.pairwise_map.mpr ((hle.and hnodup).imp_of_mem fun {j k} hj hk hjk ↦ ?_)
    obtain ⟨c, hjc⟩ := exists_call hc hj
    obtain ⟨d, hkd⟩ := exists_call hc hk
    have hne : c.turn ≠ d.turn := fun ht ↦ hjk.2 (chat_unique ho hs hd.finals hjc hkd ht)
    have hturn : c.turn ≤ d.turn := by
      simpa [AnswerView.turnOf, World.answers, hjc, hkd, LlmCall.answer] using hjk.1
    simpa [AnswerView.turnOf, World.answers, hjc, hkd, LlmCall.answer] using
      Nat.lt_of_le_of_ne hturn hne
  exact ⟨hhistory, hw.appendsInTime, hhistory.contexts hr.reachable⟩

/-- Two turns, one after the other. -/
theorem historyInOrder_of_settlesFirst_run : ∃ w : World, HistoryInOrder w ∧ AppendsInTime w ∧
    ContextsInOrder w ∧ w.history = [⟨"user", "hi"⟩, ⟨"assistant", "hello"⟩, ⟨"user", "again"⟩,
      ⟨"assistant", "bye"⟩] ∧
    w.llm.map LlmCall.context = [[], [⟨"user", "hi"⟩, ⟨"assistant", "hello"⟩]] := by
  have hw : ∃ w, system.runGuarded SettlesFirst system.init (startActions ++
      finalActions 0 "hi" ++ [Action.forwardTranscripts 0 .next] ++ chunkActions 0 "hello" ++
      [Action.llmRecvPump 0 (.message ⟨.done, "", "", ""⟩), .llmRecvPump 0 .next] ++
      List.replicate 3 (Action.forwardLLMEvents 0 .next) ++ [Action.ttsWorker .dequeue] ++
      startActions ++
      finalActions 1 "again" ++ [Action.forwardTranscripts 1 .next] ++ chunkActions 1 "bye" ++
      [Action.llmRecvPump 1 (.message ⟨.done, "", "", ""⟩), .llmRecvPump 1 .next] ++
      List.replicate 3 (Action.forwardLLMEvents 1 .next)) = some w ∧ DeliversOnce w ∧
      w.history = [⟨"user", "hi"⟩, ⟨"assistant", "hello"⟩, ⟨"user", "again"⟩,
        ⟨"assistant", "bye"⟩] ∧
      w.llm.map LlmCall.context = [[], [⟨"user", "hi"⟩, ⟨"assistant", "hello"⟩]] :=
    ⟨_, rfl, ⟨by decide, by decide⟩, rfl, rfl⟩
  obtain ⟨w, hrun, hd, hh, hcontexts⟩ := hw
  have h := historyInOrder_of_settlesFirst w (.runGuarded .init hrun) hd
  exact ⟨w, h.1, h.2.1, h.2.2, hh, hcontexts⟩

/-- The goroutine of turn 1 passes its check with `Done` in hand, the next start runs to its end
and turn 2 is answered; then turn 1 is appended to the history. -/
theorem not_historyInOrder : ∃ w, system.run (startActions ++ finalActions 0 "hi" ++
      [.forwardTranscripts 0 .next] ++ chunkActions 0 "hello" ++
      [.llmRecvPump 0 (.message ⟨.done, "", "", ""⟩), .llmRecvPump 0 .next] ++
      List.replicate 2 (.forwardLLMEvents 0 .next) ++ [.ttsWorker .dequeue] ++
      bargeInActions .put ++ finalActions 1 "again" ++ [.forwardTranscripts 1 .next] ++
      chunkActions 1 "bye" ++
      [.llmRecvPump 1 (.message ⟨.done, "", "", ""⟩), .llmRecvPump 1 .next] ++
      List.replicate 3 (.forwardLLMEvents 1 .next) ++ [.forwardLLMEvents 0 .next]) = some w ∧
    DeliversOnce w ∧ w.history = [⟨"user", "again"⟩, ⟨"assistant", "bye"⟩, ⟨"user", "hi"⟩,
      ⟨"assistant", "hello"⟩] ∧ ¬ HistoryInOrder w := by
  have hw : ∃ w, system.run (startActions ++ finalActions 0 "hi" ++
      [Action.forwardTranscripts 0 .next] ++ chunkActions 0 "hello" ++
      [Action.llmRecvPump 0 (.message ⟨.done, "", "", ""⟩), .llmRecvPump 0 .next] ++
      List.replicate 2 (Action.forwardLLMEvents 0 .next) ++ [Action.ttsWorker .dequeue] ++
      bargeInActions .put ++ finalActions 1 "again" ++ [Action.forwardTranscripts 1 .next] ++
      chunkActions 1 "bye" ++
      [Action.llmRecvPump 1 (.message ⟨.done, "", "", ""⟩), .llmRecvPump 1 .next] ++
      List.replicate 3 (Action.forwardLLMEvents 1 .next) ++
      [Action.forwardLLMEvents 0 .next]) = some w ∧
      DeliversOnce w ∧ w.history = [⟨"user", "again"⟩, ⟨"assistant", "bye"⟩, ⟨"user", "hi"⟩,
        ⟨"assistant", "hello"⟩] ∧ w.answered.map w.answers.turnOf = [2, 1] :=
    ⟨_, rfl, ⟨by decide, by decide⟩, rfl, rfl⟩
  obtain ⟨w, hrun, hd, hh, hturns⟩ := hw
  refine ⟨w, hrun, hd, hh, fun h ↦ ?_⟩
  obtain ⟨es, -, hes, hinc⟩ := h
  rw [map_turn_eq hes, hturns] at hinc
  exact absurd hinc (by decide)

end BibiCore.Session
