import BibiCore.Session.Answers
import BibiCore.Session.Talk

/-!
# What a turn still does once it has passed

Every loop of the session looks at the turn before it acts, `session.go:358`–`518`: once
`currentTurn` has moved past a turn, each of its goroutines is good for what it was about to do
and nothing else. What a goroutine may still do at a statement is a budget, which every step pays
from.
-/

namespace BibiCore.Session

open BibiCore.Gateway World

/-! ### Transcripts and chats -/

namespace TranscriptsPc

/-- How many chats the goroutine may still open before it looks at the turn. -/
@[simp] def mayOpen : TranscriptsPc → Nat
  | .chatSnapshot _ _ | .chatOpening _ _ _ => 1
  | _ => 0

private theorem length_sends_le {i : Nat} (pc : TranscriptsPc) : (pc.sends i).length ≤ 1 := by
  unfold sends
  split <;> simp

private theorem mayOpen_le (pc : TranscriptsPc) : pc.mayOpen ≤ 1 := by
  unfold mayOpen
  split <;> omega

/-- The goroutine has loaded turn `t`, or has returned. -/
def Holds (t : Nat) (pc : TranscriptsPc) : Prop := pc.turn? = some t ∨ pc = .done

variable {pc pc' : TranscriptsPc} {n t i : Nat}

/-- A goroutine of a turn that has passed keeps its turn, and comes to no transcript to send. -/
theorem Moves.of_stale (h : pc.Moves n pc') (hp : pc.Holds t) (ht : t < n) :
    pc'.Holds t ∧ pc'.sends i = [] ∧
      (pc.opens i pc').length + pc'.mayOpen ≤ pc.mayOpen := by
  cases h with
  | load => simp [Holds] at hp
  | pass u e hu | chatPass u prompt hu =>
    have hut : u = t := by simpa [Holds] using hp
    omega
  | sent u e =>
    have hut : u = t := by simpa [Holds] using hp
    cases e <;> simp [Holds, afterTranscript, hut]
  | rangeOver u => simp [Holds]
  | take u | stale u | chatStale u | snapshot u | chatOpened u | chatFailed u | reported u
  | publish u =>
    have hut : u = t := by simpa [Holds] using hp
    simp [Holds, hut]

end TranscriptsPc

namespace TalkView

/-- Goroutine `i` holds turn `t`, or has returned. -/
def Holds (v : TalkView) (i t : Nat) : Prop :=
  ∃ c, v.calls[i]? = some c ∧ c.forwarder.Holds t

/-- What is left to goroutine `i`, where `f` says what is left at each statement. -/
def left (v : TalkView) (f : TranscriptsPc → Nat) (i : Nat) : Nat :=
  ((v.calls[i]?).map fun c ↦ f c.forwarder).getD 0

/-- Goroutine `i` keeps turn `t`, and what it puts and opens is taken from what was left to it. -/
structure Spends (v v' : TalkView) (i t : Nat) : Prop where
  holds : v'.Holds i t
  transcripts :
    v'.transcripts.countP (·.1 == i) + v'.left (fun pc ↦ (pc.sends i).length) i ≤
      v.transcripts.countP (·.1 == i) + v.left (fun pc ↦ (pc.sends i).length) i
  chats : v'.openings.countP (·.opener == i) + v'.left (·.mayOpen) i ≤
    v.openings.countP (·.opener == i) + v.left (·.mayOpen) i

variable {v v' : TalkView} {i j t n : Nat}

private theorem spends_of_same (hi : v.Holds i t) (hcalls : v'.calls[i]? = v.calls[i]?)
    (htr : v'.transcripts.countP (·.1 == i) = v.transcripts.countP (·.1 == i))
    (hop : v'.openings.countP (·.opener == i) = v.openings.countP (·.opener == i)) :
    v.Spends v' i t := by
  obtain ⟨c, hc, hp⟩ := hi
  refine ⟨⟨c, hcalls.trans hc, hp⟩, ?_, ?_⟩
  · rw [htr, left, left, hcalls]
  · rw [hop, left, left, hcalls]

variable {c : Talk} {pc : TranscriptsPc} {events : List TranscriptEvent}
  {sent : List (Nat × ControlMessage)}

private theorem spends_of_move (hi : v.Holds i t) (ht : t < n) (hc : v.calls[i]? = some c)
    (hm : c.forwarder.Moves n pc) (hs : sent = [] ∨ sent = c.forwarder.sends i) :
    v.Spends ⟨v.calls.set i ⟨c.startTurn, pc, events⟩, v.openings ++ c.forwarder.opens i pc,
      v.transcripts ++ sent⟩ i t := by
  obtain ⟨d, hd, hp⟩ := hi
  obtain rfl : c = d := Option.some.inj (hc.symm.trans hd)
  obtain ⟨hp', hsends, hopens⟩ := hm.of_stale (i := i) hp ht
  have hcalls : (v.calls.set i ⟨c.startTurn, pc, events⟩)[i]? = some ⟨c.startTurn, pc, events⟩ :=
    List.getElem?_set_eq_some.mpr (.inr ⟨rfl, (List.getElem?_eq_some_iff.mp hc).1, rfl⟩)
  have hsent : sent.countP (·.1 == i) ≤ (c.forwarder.sends i).length := by
    rcases hs with rfl | rfl
    · simp
    · exact List.countP_le_length
  have hopen : (c.forwarder.opens i pc).countP (·.opener == i) ≤
      (c.forwarder.opens i pc).length := List.countP_le_length
  refine ⟨⟨_, hcalls, hp'⟩, ?_, ?_⟩
  · simp only [left, hcalls, hc, Option.map_some, Option.getD_some, hsends, List.countP_append,
      List.length_nil]
    omega
  · simp only [left, hcalls, hc, Option.map_some, Option.getD_some, List.countP_append]
    omega

private theorem spends_of_other (hi : v.Holds i t) (hij : i ≠ j)
    (hs : sent = [] ∨ sent = c.forwarder.sends j) :
    v.Spends ⟨v.calls.set j ⟨c.startTurn, pc, events⟩, v.openings ++ c.forwarder.opens j pc,
      v.transcripts ++ sent⟩ i t := by
  refine spends_of_same hi (List.getElem?_set_ne hij.symm) ?_ ?_
  · have hsent : sent.countP (·.1 == i) = 0 := by
      apply List.countP_eq_zero.mpr
      intro p hpm
      have hpj : p.1 = j := by
        rcases hs with rfl | rfl
        · cases hpm
        · exact TranscriptsPc.fst_of_mem_sends hpm
      simpa [hpj] using hij.symm
    rw [List.countP_append, hsent, Nat.add_zero]
  · have hopen : (c.forwarder.opens j pc).countP (·.opener == i) = 0 := by
      apply List.countP_eq_zero.mpr
      intro o ho
      simpa [TranscriptsPc.opener_of_mem_opens ho] using hij.symm
    rw [List.countP_append, hopen, Nat.add_zero]

end TalkView

private theorem TalkStep.spends {w w' : World} {a : Action} (h : TalkStep w w' a)
    (hl : w.chat.Linked) {i t : Nat} (hi : w.talk.Holds i t) (ht : t < w.currentTurn) :
    w.talk.Spends w'.talk i t := by
  cases h with
  | opened turn _ _ h =>
    rw [h]
    have hlt : i < w.talk.calls.length := by
      obtain ⟨c, hc, -⟩ := hi
      exact (List.getElem?_eq_some_iff.mp hc).1
    exact TalkView.spends_of_same hi (List.getElem?_append_left hlt) rfl rfl
  | stored j hr h =>
    rw [h]
    have hne : j ≠ i := by
      rintro rfl
      obtain ⟨c, hc, hp⟩ := hi
      have hu : w.forwarders[j]? = some .unstarted := hl.storing j (by simp [World.chat, hr])
      have hf : w.forwarders[j]? = some c.forwarder := by
        simp only [World.talk, List.getElem?_map, Option.map_eq_some_iff] at hc
        obtain ⟨d, hd, rfl⟩ := hc
        simp [World.forwarders, hd, SttCall.talk]
      rw [Option.some.inj (hf.symm.trans hu)] at hp
      simp [TranscriptsPc.Holds] at hp
    exact TalkView.spends_of_same hi (by simp [hne]) rfl rfl
  | move j d pc sent ha hd hm hs h =>
    rw [h]
    by_cases hij : i = j
    · subst hij
      exact TalkView.spends_of_move hi ht hd hm hs
    · exact TalkView.spends_of_other hi hij hs
  | rest h =>
    rw [h]
    exact TalkView.spends_of_same hi rfl rfl rfl

/-! ### Jobs and history -/

namespace LlmEventsPc

/-- How many jobs or history pairs the goroutine may still add before it looks at the turn. -/
@[simp] def mayAdd : LlmEventsPc → Nat
  | .handle (.chunk _) | .handle .done => 1
  | _ => 0

private theorem mayAdd_le (pc : LlmEventsPc) : pc.mayAdd ≤ 1 := by
  unfold mayAdd
  split <;> omega

private theorem adds_le {j : Nat} (pc : LlmEventsPc) :
    pc.offers + (pc.answers j).length ≤ pc.mayAdd := by
  cases pc with
  | handle e => cases e <;> simp
  | unstarted | ranging | check | done => simp

/-- A goroutine of a turn that has passed comes to nothing it may add. -/
theorem Moves.of_stale {current : Prop} {pc pc' : LlmEventsPc} (h : pc.Moves current pc')
    (hc : ¬ current) : pc'.mayAdd = 0 := by
  cases h with
  | pass e h => exact absurd h hc
  | take | rangeOver | stale | handled => rfl

end LlmEventsPc

/-- What is left to the goroutine of llm stream `j`. -/
def AnswerView.left (v : AnswerView) (j : Nat) : Nat :=
  ((v.calls[j]?).map fun c ↦ c.forwarder.mayAdd).getD 0

private theorem grows_of_runFrom {w u : World} {as : List Action}
    (h : system.runFrom w as = some u) {j : Nat} {c : Answer}
    (hc : w.answers.calls[j]? = some c) : ∃ d, u.answers.calls[j]? = some d ∧ c.Grows d := by
  refine TransitionSystem.runFrom_preserves
    (I := fun u ↦ ∃ d, u.answers.calls[j]? = some d ∧ c.Grows d) ?_ ⟨c, hc, .refl c⟩ h
  rintro s a t ⟨d, hd, hcd⟩ hm
  obtain ⟨e, he, hde⟩ := (step_answerStep hm).grows hd
  exact ⟨e, he, hcd.trans hde⟩

private theorem AnswerStep.residue {w w' : World} {a : Action} (h : AnswerStep w w' a) {j : Nat}
    (hj : ∀ c, w.answers.calls[j]? = some c → ¬ w.currentTurn = c.turn) :
    w'.jobsMade j + w'.answered.count j + w'.answers.left j ≤
      w.jobsMade j + w.answered.count j + w.answers.left j := by
  cases h with
  | opened turn prompt h =>
    have hcalls : w'.answers.calls = w.answers.calls ++ [⟨turn, prompt, "", .unstarted, []⟩] :=
      congrArg AnswerView.calls h
    have hleft : w'.answers.left j ≤ w.answers.left j := by
      simp only [AnswerView.left, hcalls, List.getElem?_append, List.getElem?_singleton]
      split
      · exact Nat.le_refl _
      · split <;> simp
    rw [show w'.jobsMade = _ from congrArg AnswerView.jobs h,
      show w'.answered = _ from congrArg AnswerView.answered h]
    exact Nat.add_le_add_left hleft _
  | started k hf h =>
    have hcalls : w'.answers.calls = w.answers.calls.modify k fun c ↦
        { c with forwarder := .ranging } := congrArg AnswerView.calls h
    have hleft : w'.answers.left j ≤ w.answers.left j := by
      simp only [AnswerView.left, hcalls, List.getElem?_modify]
      split
      · cases w.answers.calls[j]? <;> simp
      · simp
    rw [show w'.jobsMade = _ from congrArg AnswerView.jobs h,
      show w'.answered = _ from congrArg AnswerView.answered h]
    exact Nat.add_le_add_left hleft _
  | move k c pc n ha hc hm hn h =>
    have hjobs : w'.jobsMade j = w.jobsMade j + if k = j then n else 0 :=
      congrFun (congrArg AnswerView.jobs h) j
    have hanswered : w'.answered = w.answered ++ c.forwarder.answers k :=
      congrArg AnswerView.answered h
    have hcalls : w'.answers.calls = w.answers.calls.set k (c.move pc) :=
      congrArg AnswerView.calls h
    rw [hjobs, hanswered, List.count_append]
    by_cases hjk : k = j
    · subst hjk
      have hadds := LlmEventsPc.adds_le (j := k) c.forwarder
      have hcount : (c.forwarder.answers k).count k ≤ (c.forwarder.answers k).length :=
        List.count_le_length
      have hnew : w'.answers.calls[k]? = some (c.move pc) := by
        rw [hcalls]
        exact List.getElem?_set_eq_some.mpr (.inr ⟨rfl, (List.getElem?_eq_some_iff.mp hc).1, rfl⟩)
      have hstale : (c.move pc).forwarder.mayAdd = 0 := hm.of_stale (hj c hc)
      have hleft : w'.answers.left k = 0 := by
        rw [AnswerView.left, hnew, Option.map_some, hstale, Option.getD_some]
      have hold : w.answers.left k = c.forwarder.mayAdd := by
        rw [AnswerView.left, hc, Option.map_some, Option.getD_some]
      rw [hleft, hold, if_pos rfl]
      omega
    · have hcount : (c.forwarder.answers k).count j = 0 := by
        apply List.count_eq_zero.mpr
        intro hmem
        unfold LlmEventsPc.answers at hmem
        split at hmem
        · exact hjk (List.mem_singleton.mp hmem).symm
        · cases hmem
      have hleft : w'.answers.left j = w.answers.left j := by
        rw [AnswerView.left, AnswerView.left, hcalls, List.getElem?_set_ne hjk]
      rw [hleft, hcount, if_neg hjk]
      omega
  | rest h =>
    rw [show w'.jobsMade = _ from congrArg AnswerView.jobs h,
      show w'.answered = _ from congrArg AnswerView.answered h, h]
    exact Nat.le_refl _

/-! ### Frames -/

private theorem length_due_le (pc : TtsPc) : pc.due.length ≤ 3 := by
  unfold TtsPc.due
  split <;> simp

private theorem count_due_le (pc : TtsPc) (kind : SpeechKind) : pc.due.countP (· == kind) ≤ 1 := by
  unfold TtsPc.due
  split <;> cases kind <;> simp +decide

/-- Every message is some job's or not `ttsWorker`'s, and so is what is due. -/
structure Placed (w : World) : Prop where
  puts : ∀ p ∈ w.puts, p.origin.Elsewhere ∨ (w.putTurn p).isSome
  due : w.ttsWorker.due ≠ [] → w.jobTurn.isSome

/-- The messages put for jobs of turn `t` that `q` counts. -/
def World.framesCount (w : World) (t : Nat) (q : Put → Bool) : Nat :=
  w.puts.countP fun p ↦ q p && decide (w.putTurn p = some t)

/-- How many of the kinds `f` counts `ttsWorker` may still put for a job of turn `t`. -/
def World.framesLeft (w : World) (t : Nat) (f : SpeechKind → Bool) : Nat :=
  if w.jobTurn = some t then w.ttsWorker.due.countP f else 0

private theorem framesLeft_of_nil {w : World} {t : Nat} {f : SpeechKind → Bool}
    (h : w.ttsWorker.due = []) : w.framesLeft t f = 0 := by
  rw [World.framesLeft, h, List.countP_nil, ite_self]

private theorem SpeechStep.countP_putTurn {w w' : World} {a : Action} (hs : SpeechStep w w' a)
    (hw : Placed w) (t : Nat) (q : Put → Bool) :
    (w.puts.countP fun p ↦ q p && decide (w'.putTurn p = some t)) = w.framesCount t q := by
  apply List.countP_congr
  intro p hp
  rcases hw.puts p hp with ho | ho
  · simp [ho.putTurn]
  · obtain ⟨u, hu⟩ := Option.isSome_iff_exists.mp ho
    simp [hu, hs.putTurn hu]

private theorem frames_residue {w w' : World} {a : Action} (h : system.step w a = some w')
    (hw : Placed w) {t : Nat} (ht : t < w.currentTurn) {q : Put → Bool} {f : SpeechKind → Bool}
    (hq : ∀ p kind, p.kind? = some kind → q p = true → f kind = true) :
    w'.framesCount t q + w'.framesLeft t f ≤ w.framesCount t q + w.framesLeft t f := by
  have hs := step_speechStep h
  have same (hp : w'.puts = w.puts) : w'.framesCount t q = w.framesCount t q := by
    rw [World.framesCount, hp, hs.countP_putTurn hw]
  by_cases ha : ∃ b, a = .ttsWorker b
  · obtain ⟨b, rfl⟩ := ha
    cases ttsWorkerStep_due h with
    | spend kind rest hd hd' hj hp =>
      have hleft : w'.framesLeft t f ≤ if w.jobTurn = some t then rest.countP f else 0 := by
        by_cases hr : rest = []
        · rw [framesLeft_of_nil (hd'.trans hr)]
          exact Nat.zero_le _
        · rw [World.framesLeft, hd', hj hr]
      have hold : w.framesLeft t f = if w.jobTurn = some t then
          rest.countP f + if f kind = true then 1 else 0 else 0 := by
        rw [World.framesLeft, hd, List.countP_cons]
      rw [hold]
      rcases hp with hp | ⟨p, u, hp, hk, hpt, hju⟩
      · rw [same hp]
        by_cases ht : w.jobTurn = some t
        · rw [if_pos ht] at hleft ⊢
          omega
        · rw [if_neg ht] at hleft ⊢
          omega
      · have hnew : w'.framesCount t q =
            w.framesCount t q + if (q p && decide (u = t)) = true then 1 else 0 := by
          rw [World.framesCount, hp, List.countP_append, hs.countP_putTurn hw,
            List.countP_singleton, hs.putTurn hpt]
          simp
        rw [hnew]
        by_cases hut : u = t
        · subst hut
          rw [if_pos hju] at hleft ⊢
          by_cases hqp : q p = true
          · have hf := hq p kind hk hqp
            simp only [hqp, hf, decide_true, Bool.and_true, if_true]
            omega
          · simp only [Bool.eq_false_iff.mpr hqp, Bool.false_and, Bool.false_eq_true, if_false]
            omega
        · have hne : w.jobTurn ≠ some t := by simpa [hju] using hut
          rw [if_neg hne] at hleft ⊢
          simp only [hut, decide_false, Bool.and_false, Bool.false_eq_true, if_false]
          omega
    | wait hd hj hp =>
      by_cases hne : w.ttsWorker.due = []
      · rw [same hp, framesLeft_of_nil hne, framesLeft_of_nil (hd.trans hne)]
      · rw [same hp, World.framesLeft, World.framesLeft, hd, hj hne]
    | check hd hj hp =>
      have hleft : w'.framesLeft t f = 0 := by
        rw [World.framesLeft, hj, if_neg]
        intro heq
        have := Option.some.inj heq
        omega
      rw [same hp, hleft]
      omega
  · obtain ⟨hpc, new, hp, hnew⟩ := step_elsewhere h fun b hb ↦ ha ⟨b, hb⟩
    have hzero : new.countP (fun p ↦ q p && decide (w'.putTurn p = some t)) = 0 := by
      apply List.countP_eq_zero.mpr
      intro p hpm
      simp [(hnew p hpm).origin.putTurn]
    have hcount : w'.framesCount t q = w.framesCount t q := by
      rw [World.framesCount, hp, List.countP_append, hzero, hs.countP_putTurn hw, Nat.add_zero]
    have hleft : w'.framesLeft t f = w.framesLeft t f := by
      by_cases hd : w.ttsWorker.due = []
      · rw [framesLeft_of_nil hd, framesLeft_of_nil ((congrArg _ hpc).trans hd)]
      · obtain ⟨u, hu⟩ := Option.isSome_iff_exists.mp (hw.due hd)
        rw [World.framesLeft, World.framesLeft, hpc, hs.jobTurn hpc hu, hu]
    rw [hcount, hleft]

/-- In every run every message is placed. -/
theorem placed_of_reachable {w : World} (hr : system.Reachable w) : Placed w := by
  refine hr.invariant (I := Placed) ?_ fun w a w' _ hw h ↦ ?_
  · constructor <;> simp [system, World.new, World.puts]
  · have hs := step_speechStep h
    have old {p : Put} (hp : p ∈ w.puts) : p.origin.Elsewhere ∨ (w'.putTurn p).isSome := by
      refine (hw.puts p hp).imp_right fun ho ↦ ?_
      obtain ⟨u, hu⟩ := Option.isSome_iff_exists.mp ho
      rw [hs.putTurn hu]
      rfl
    by_cases ha : ∃ b, a = .ttsWorker b
    · obtain ⟨b, rfl⟩ := ha
      cases ttsWorkerStep_due h with
      | spend kind rest hd hd' hj hp =>
        constructor
        · intro p hpm
          rcases hp with hp | ⟨q, u, hp, -, hpt, -⟩
          · exact old (hp ▸ hpm)
          · rw [hp] at hpm
            rcases List.mem_append.mp hpm with hpm | hpm
            · exact old hpm
            · rw [List.mem_singleton.mp hpm, hs.putTurn hpt]
              exact .inr rfl
        · intro hne
          rw [hd'] at hne
          rw [hj hne]
          exact hw.due (hd ▸ List.cons_ne_nil _ _)
      | wait hd hj hp =>
        refine ⟨fun p hpm ↦ old (hp ▸ hpm), fun hne ↦ ?_⟩
        rw [hd] at hne
        rw [hj hne]
        exact hw.due hne
      | check hd hj hp => exact ⟨fun p hpm ↦ old (hp ▸ hpm), fun _ ↦ by simp [hj]⟩
    · obtain ⟨hpc, new, hp, hnew⟩ := step_elsewhere h fun b hb ↦ ha ⟨b, hb⟩
      constructor
      · intro p hpm
        rw [hp] at hpm
        exact (List.mem_append.mp hpm).elim old fun hpm ↦ .inl (hnew p hpm).origin
      · intro hne
        rw [hpc] at hne
        obtain ⟨u, hu⟩ := Option.isSome_iff_exists.mp (hw.due hne)
        rw [hs.jobTurn hpc hu]
        rfl

/-! ### All of it -/

/-- What a run adds to the work of turn `t`: by each `forwardTranscripts` goroutine that holds the
turn at most one transcript and at most one chat, by each `forwardLLMEvents` goroutine of the turn
at most one job or one history pair, and by `ttsWorker` at most three messages in all, at most one
of each kind. -/
structure Residue (w w' : World) (t : Nat) : Prop where
  transcripts : ∀ i c, w.stt[i]? = some c → c.forwarder.turn? = some t →
    w'.talk.transcripts.countP (·.1 == i) ≤ w.talk.transcripts.countP (·.1 == i) + 1
  chats : ∀ i c, w.stt[i]? = some c → c.forwarder.turn? = some t →
    w'.talk.openings.countP (·.opener == i) ≤ w.talk.openings.countP (·.opener == i) + 1
  answers : ∀ j c, w'.llm[j]? = some c → c.turn = t →
    w'.jobsMade j + w'.answered.count j ≤ w.jobsMade j + w.answered.count j + 1
  frames : w'.framesCount t (fun _ ↦ true) ≤ w.framesCount t (fun _ ↦ true) + 3
  kinds : ∀ kind, w'.framesCount t (·.kind? == some kind) ≤
    w.framesCount t (·.kind? == some kind) + 1

section

variable {w w' : World} {t : Nat} {as : List Action}

private theorem talk_left_le {v : TalkView} {f : TranscriptsPc → Nat} {i : Nat}
    (hf : ∀ pc, f pc ≤ 1) : v.left f i ≤ 1 := by
  unfold TalkView.left
  cases v.calls[i]? with
  | none => simp
  | some c => simpa using hf c.forwarder

private theorem transcripts_of_stale (hr : system.Reachable w) (ht : t < w.currentTurn)
    (h : system.runFrom w as = some w') {i : Nat} (hi : w.talk.Holds i t) :
    w'.talk.transcripts.countP (·.1 == i) ≤ w.talk.transcripts.countP (·.1 == i) + 1 ∧
      w'.talk.openings.countP (·.opener == i) ≤ w.talk.openings.countP (·.opener == i) + 1 := by
  have keep {v v' : World} {a : Action} (hv : t < v.currentTurn) (hs : system.step v a = some v') :
      t < v'.currentTurn := Nat.lt_of_lt_of_le hv (step_chatStep hs).turn_le
  constructor
  · have hle := TransitionSystem.runFrom_budget
      (c := fun v : World ↦ v.talk.transcripts.countP (·.1 == i))
      (b := fun v ↦ v.talk.left (fun pc ↦ (pc.sends i).length) i)
      (I := fun v ↦ t < v.currentTurn ∧ v.talk.Holds i t)
      (fun v a v' _ hv hinv hs _ ↦ by
        have hspent := (step_talkStep hs).spends (linked_of_reachable hv) hinv.2 hinv.1
        exact ⟨⟨keep hinv.1 hs, hspent.holds⟩, hspent.transcripts⟩) hr ⟨ht, hi⟩ h
    exact Nat.le_trans hle (Nat.add_le_add_left (talk_left_le fun pc ↦ pc.length_sends_le) _)
  · have hle := TransitionSystem.runFrom_budget
      (c := fun v : World ↦ v.talk.openings.countP (·.opener == i))
      (b := fun v ↦ v.talk.left (·.mayOpen) i)
      (I := fun v ↦ t < v.currentTurn ∧ v.talk.Holds i t)
      (fun v a v' _ hv hinv hs _ ↦ by
        have hspent := (step_talkStep hs).spends (linked_of_reachable hv) hinv.2 hinv.1
        exact ⟨⟨keep hinv.1 hs, hspent.holds⟩, hspent.chats⟩) hr ⟨ht, hi⟩ h
    exact Nat.le_trans hle (Nat.add_le_add_left (talk_left_le fun pc ↦ pc.mayOpen_le) _)

private theorem answers_of_stale (hr : system.Reachable w) (ht : t < w.currentTurn)
    (h : system.runFrom w as = some w') {j : Nat} {c : LlmCall} (hc : w'.llm[j]? = some c)
    (hct : c.turn = t) :
    w'.jobsMade j + w'.answered.count j ≤ w.jobsMade j + w.answered.count j + 1 := by
  have hc' : w'.answers.calls[j]? = some c.answer := by simp [World.answers, hc]
  have hle := TransitionSystem.runFrom_budget
    (c := fun v : World ↦ v.jobsMade j + v.answered.count j)
    (b := fun v ↦ v.answers.left j) (I := fun v ↦ t < v.currentTurn)
    (fun v a v' bs _ hv hs hrun ↦ by
      refine ⟨Nat.lt_of_lt_of_le hv (step_chatStep hs).turn_le,
        (step_answerStep hs).residue fun d hd hcur ↦ ?_⟩
      obtain ⟨d', hd', hdd⟩ := (step_answerStep hs).grows hd
      obtain ⟨e, he, hde⟩ := grows_of_runFrom hrun hd'
      obtain rfl : c.answer = e := Option.some.inj (hc'.symm.trans he)
      have hturn : c.turn = d.turn := (hdd.trans hde).turn
      omega) hr ht h
  have hleft : w.answers.left j ≤ 1 := by
    unfold AnswerView.left
    cases w.answers.calls[j]? with
    | none => simp
    | some d => simpa using d.forwarder.mayAdd_le
  omega

private theorem frames_of_stale (hr : system.Reachable w) (ht : t < w.currentTurn)
    (h : system.runFrom w as = some w') {q : Put → Bool} {f : SpeechKind → Bool}
    (hq : ∀ p kind, p.kind? = some kind → q p = true → f kind = true) :
    w'.framesCount t q ≤ w.framesCount t q + w.ttsWorker.due.countP f := by
  have hle := TransitionSystem.runFrom_budget (c := fun v : World ↦ v.framesCount t q)
    (b := fun v ↦ v.framesLeft t f) (I := fun v ↦ t < v.currentTurn)
    (fun v a v' _ hv hlt hs _ ↦ ⟨Nat.lt_of_lt_of_le hlt (step_chatStep hs).turn_le,
      frames_residue hs (placed_of_reachable hv) hlt hq⟩) hr ht h
  have hleft : w.framesLeft t f ≤ w.ttsWorker.due.countP f := by
    unfold World.framesLeft
    split
    · exact Nat.le_refl _
    · exact Nat.zero_le _
  omega

end

/-- Once `currentTurn` has moved past a turn, the rest of the run, however long it is and whatever
is still queued and buffered, adds no more than its residue. -/
theorem residue_of_stale (w w' : World) (as : List Action) (t : Nat) (hr : system.Reachable w)
    (ht : t < w.currentTurn) (h : system.runFrom w as = some w') : Residue w w' t := by
  have holds (i : Nat) (c : SttCall) (hc : w.stt[i]? = some c)
      (hp : c.forwarder.turn? = some t) : w.talk.Holds i t :=
    ⟨c.talk, by simp [World.talk, hc], .inl hp⟩
  constructor
  · exact fun i c hc hp ↦ (transcripts_of_stale hr ht h (holds i c hc hp)).1
  · exact fun i c hc hp ↦ (transcripts_of_stale hr ht h (holds i c hc hp)).2
  · exact fun j c hc hct ↦ answers_of_stale hr ht h hc hct
  · have hle := frames_of_stale hr ht h (q := fun _ ↦ true) (f := fun _ ↦ true) (by simp)
    have hdue := length_due_le w.ttsWorker
    have hcount : w.ttsWorker.due.countP (fun _ ↦ true) ≤ w.ttsWorker.due.length :=
      List.countP_le_length
    omega
  · intro kind
    have hle := frames_of_stale hr ht h (q := (·.kind? == some kind)) (f := (· == kind))
      fun p k hk hp ↦ by simpa [hk] using hp
    have hdue := count_due_le w.ttsWorker kind
    omega

/-- The next start moves the turn while a sentence is about to be sent: its three messages are
still put. -/
theorem residue_of_stale_run : ∃ w w' : World, 1 < w.currentTurn ∧ Residue w w' 1 ∧
    w.framesCount 1 (fun _ ↦ true) = 0 ∧ w'.framesCount 1 (fun _ ↦ true) = 3 := by
  have hw : ∃ w w', system.run (startActions ++ finalActions 0 "hi" ++
      [Action.forwardTranscripts 0 .next] ++ chunkActions 0 "hello" ++
      speakActions 0 ⟨[1, 2], 22050, 1, 2⟩ ++
      [Action.readPump (.frame (.text (.start defaultAudioFormat))), .readPump .next]) = some w ∧
      system.runFrom w (List.replicate 3 (Action.ttsWorker (.select .put))) = some w' ∧
      w.currentTurn = 2 ∧ w.framesCount 1 (fun _ ↦ true) = 0 ∧
        w'.framesCount 1 (fun _ ↦ true) = 3 :=
    ⟨_, _, rfl, rfl, rfl, by decide, by decide⟩
  obtain ⟨w, w', hrun, hmore, ht, h0, h3⟩ := hw
  have hlt : 1 < w.currentTurn := by omega
  exact ⟨w, w', hlt,
    residue_of_stale w w' _ 1 (TransitionSystem.reachable_of_run hrun) hlt hmore, h0, h3⟩

end BibiCore.Session
