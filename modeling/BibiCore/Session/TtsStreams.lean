import BibiCore.Session.Generations
import BibiCore.Session.Speech

/-!
# Which tts stream is published

`session.go:295`–`310` and `459`–`525`. `synthesizeAndSend` re-checks the turn under the lock
before it stores `activeTTSStream`, while `beginNewTurn` moves the turn without the lock and only
then swaps the pointer out.
-/

namespace BibiCore.Session

open BibiCore.Gateway World

/-- A turn stays up to date until the pointers are swapped. -/
theorem World.UpToDate.step {w w' : World} {a : Action} {turn : Nat} (hu : w.UpToDate turn)
    (hs : ¬ w.swapping a) (h : ChatStep w w' a) : w'.UpToDate turn := by
  have left (hr : w.reader ≠ .swap w.currentTurn) (ht : w'.currentTurn = w.currentTurn) :
      w'.UpToDate turn := by
    rcases hu with hu | ⟨-, hu⟩
    · exact .inl (hu.trans ht.symm)
    · exact absurd hu hr
  have same (hr : w'.reader = w.reader) (ht : w'.currentTurn = w.currentTurn) :
      w'.UpToDate turn := by
    unfold World.UpToDate
    rw [hr, ht]
    exact hu
  cases h with
  | addTurn hr h =>
    rcases hu with rfl | ⟨-, hu⟩
    · have ht : w'.currentTurn = w.currentTurn + 1 := congrArg ChatView.turn h
      exact .inr ⟨ht.symm, ht ▸ congrArg ChatView.reader h⟩
    · rw [hr] at hu
      cases hu
  | swap _ ha _ _ => exact absurd ha hs
  | close _ _ _ hr h => exact left (by simp [hr]) (congrArg ChatView.turn h)
  | opened _ hr h => exact left (by simp [hr]) (congrArg ChatView.turn h)
  | stored _ hr h => exact left (by simp [hr]) (congrArg ChatView.turn h)
  | read pc hr h =>
    refine left (fun hsw ↦ ?_) (congrArg ChatView.turn h)
    have := hr.left
    simp [hsw] at this
  | startChat _ _ _ _ _ h | publish _ _ _ _ _ h | transcripts _ _ _ _ _ _ _ _ h
  | complete _ _ _ _ _ h | llmEvents _ _ _ _ _ h | pump _ _ _ _ _ _ h | rest h =>
    exact same (congrArg ChatView.reader h) (congrArg ChatView.turn h)

/-- The published stream, and the one about to be, belong to a turn that is up to date; every
other stream was published in its turn or closed. -/
structure Published (w : World) : Prop where
  active : ∀ k, w.activeTTSStream = some k → ∃ c, w.tts[k]? = some c ∧ w.UpToDate c.job.turn
  storing : ∀ k, w.ttsWorker = .job k .store →
    ∃ c, w.tts[k]? = some c ∧ c.checked = some c.job.turn ∧ w.UpToDate c.job.turn
  settled : ∀ (k : Nat) (c : TtsCall), w.tts[k]? = some c →
    c.published = true ∧ c.checked = some c.job.turn ∨
      c.abandoned = true ∧ c.stream.closed = true ∨ w.ttsWorker.settling = some k

namespace Published

variable {w w' : World} {a : Action}

private theorem active_step (hw : Published w) (hu : ∀ t, w.UpToDate t → w'.UpToDate t)
    (h : SpeechStep w w' a) (k : Nat) (hk : w.activeTTSStream = some k) :
    ∃ c, w'.tts[k]? = some c ∧ w'.UpToDate c.job.turn := by
  obtain ⟨c, hc, hcu⟩ := hw.active k hk
  obtain ⟨d, hd, hj⟩ := h.job hc
  exact ⟨d, hd, hj ▸ hu _ hcu⟩

private theorem of_keeps {k : Nat} {g : TtsCall → TtsCall} (hw : Published w)
    (hu : ∀ t, w.UpToDate t → w'.UpToDate t) (h : SpeechStep w w' a)
    (ht : w'.tts = w.tts.modify k g) (hg : ∀ c, w.tts[k]? = some c → c.Keeps (g c))
    (ha : w'.activeTTSStream = w.activeTTSStream ∨ w'.activeTTSStream = none)
    (hp : w'.ttsWorker.settling = w.ttsWorker.settling)
    (hs : ∀ l, w'.ttsWorker = .job l .store → w.ttsWorker = .job l .store) : Published w' := by
  refine ⟨fun l hl ↦ ?_, fun l hl ↦ ?_, fun l d hd ↦ ?_⟩
  · rcases ha with ha | ha
    · exact hw.active_step hu h l (ha ▸ hl)
    · rw [ha] at hl
      cases hl
  · obtain ⟨c, hc, hcc, hcu⟩ := hw.storing l (hs l hl)
    rw [ht]
    by_cases hlk : l = k
    · subst hlk
      have hk := hg c hc
      refine ⟨g c, List.getElem?_modify_eq_some.mpr (.inr ⟨rfl, c, hc, rfl⟩), ?_, ?_⟩
      · rw [hk.checked, hk.job, hcc]
      · exact hk.job ▸ hu _ hcu
    · exact ⟨c, List.getElem?_modify_eq_some.mpr (.inl ⟨hlk, hc⟩), hcc, hu _ hcu⟩
  · rw [ht] at hd
    rcases List.getElem?_modify_eq_some.mp hd with ⟨-, hd⟩ | ⟨rfl, c, hc, rfl⟩
    · rw [hp]
      exact hw.settled l d hd
    · have hk := hg c hc
      rw [hk.published, hk.checked, hk.job, hk.abandoned, hp]
      exact (hw.settled l c hc).imp_right (Or.imp_left (And.imp_right hk.closed))

private theorem of_decision {k : Nat} {g : TtsCall → TtsCall} (hw : Published w)
    (hk : w.ttsWorker.settling = some k) (ht : w'.tts = w.tts.modify k g)
    (ha : ∀ l, w'.activeTTSStream = some l → ∃ c, w'.tts[l]? = some c ∧ w'.UpToDate c.job.turn)
    (hs : ∀ l, w'.ttsWorker = .job l .store →
      ∃ c, w'.tts[l]? = some c ∧ c.checked = some c.job.turn ∧ w'.UpToDate c.job.turn)
    (hd : ∀ c, w.tts[k]? = some c →
      (g c).published = true ∧ (g c).checked = some (g c).job.turn ∨
        (g c).abandoned = true ∧ (g c).stream.closed = true ∨ w'.ttsWorker.settling = some k) :
    Published w' := by
  refine ⟨ha, hs, fun l d hld ↦ ?_⟩
  rw [ht] at hld
  rcases List.getElem?_modify_eq_some.mp hld with ⟨hne, hld⟩ | ⟨rfl, c, hc, rfl⟩
  · rcases hw.settled l d hld with h | h | h
    · exact .inl h
    · exact .inr (.inl h)
    · exact absurd (Option.some.inj (h.symm.trans hk)) hne
  · exact hd c hc

private theorem swap (hw : Published w) (ha : w.swapping a) (h : system.step w a = some w') :
    Published w' := by
  obtain ⟨rfl, turn, hr⟩ := ha
  simp only [system, World.step, World.readPump, hr] at h
  split at h <;> cases h
  next hl =>
    refine ⟨by simp, fun k hk ↦ ?_, hw.settled⟩
    simp only [World.locked] at hl
    simp [show w.ttsWorker = _ from hk] at hl

/-- Every step keeps it. -/
theorem step (hw : Published w) (h : system.step w a = some w') : Published w' := by
  by_cases hswap : w.swapping a
  · exact hw.swap hswap h
  have hu (t : Nat) (ht : w.UpToDate t) : w'.UpToDate t := ht.step hswap (step_chatStep h)
  have hstep := step_speechStep h
  cases step_speechStep h with
  | swap ha _ _ => exact absurd ha hswap
  | touch k g hg he =>
    have hp : w'.ttsWorker = w.ttsWorker := congrArg SpeechView.worker he
    exact hw.of_keeps hu hstep (congrArg SpeechView.tts he) hg
      (.inl (congrArg SpeechView.active he)) (by rw [hp]) (by simp [hp])
  | opened job voice hp he =>
    have ht : w'.tts = w.tts ++ [TtsCall.opened job voice] := congrArg SpeechView.tts he
    have hp' : w'.ttsWorker = .job w.tts.length .publish := congrArg SpeechView.worker he
    have ha : w'.activeTTSStream = w.activeTTSStream := congrArg SpeechView.active he
    refine ⟨fun l hl ↦ hw.active_step hu hstep l (ha ▸ hl), by simp [hp'], fun l d hd ↦ ?_⟩
    rw [ht] at hd
    rcases List.getElem?_concat_eq_some.mp hd with hd | ⟨rfl, -⟩
    · rcases hw.settled l d hd with hl | hl | hl
      · exact .inl hl
      · exact .inr (.inl hl)
      · rw [hp] at hl
        cases hl
    · exact .inr (.inr (by rw [hp', TtsPc.settling]))
  | pass k c hp hc ht he =>
    have hp' : w'.ttsWorker = .job k .store := congrArg SpeechView.worker he
    have ha : w'.activeTTSStream = w.activeTTSStream := congrArg SpeechView.active he
    have ht' : w'.tts = w.tts.modify k fun c ↦ { c with checked := some w.currentTurn } :=
      congrArg SpeechView.tts he
    refine hw.of_decision (by simp [hp]) ht'
      (fun l hl ↦ hw.active_step hu hstep l (ha ▸ hl)) (fun l hl ↦ ?_) fun _ _ ↦ ?_
    · obtain rfl : k = l := by simpa [hp'] using hl
      refine ⟨{ c with checked := some w.currentTurn }, ?_, congrArg some ht, ?_⟩
      · rw [ht']
        exact List.getElem?_modify_eq_some.mpr (.inr ⟨rfl, c, hc, rfl⟩)
      · exact hu _ (.inl ht.symm)
    · exact .inr (.inr (by rw [hp', TtsPc.settling]))
  | refuse k hp he =>
    have hp' : w'.ttsWorker = .job k .closeStale := congrArg SpeechView.worker he
    refine hw.of_keeps (k := 0) (g := id) hu hstep ?_ (fun c _ ↦ .refl c)
      (.inl (congrArg SpeechView.active he)) (by simp [hp, hp']) (by simp [hp'])
    rw [List.modify_id]
    exact congrArg SpeechView.tts he
  | abandon k hp he =>
    have hp' : w'.ttsWorker = .idle := congrArg SpeechView.worker he
    have ha : w'.activeTTSStream = w.activeTTSStream := congrArg SpeechView.active he
    exact hw.of_decision (by simp [hp]) (congrArg SpeechView.tts he)
      (fun l hl ↦ hw.active_step hu hstep l (ha ▸ hl)) (by simp [hp'])
      fun c _ ↦ .inr (.inl ⟨rfl, rfl⟩)
  | store k hp he =>
    have hp' : w'.ttsWorker = .job k (.ranging false) := congrArg SpeechView.worker he
    have ha : w'.activeTTSStream = some k := congrArg SpeechView.active he
    obtain ⟨c, hc, hcc, hcu⟩ := hw.storing k hp
    refine hw.of_decision (by simp [hp]) (congrArg SpeechView.tts he) (fun l hl ↦ ?_)
      (by simp [hp']) fun d hd ↦ ?_
    · obtain rfl : k = l := Option.some.inj (ha.symm.trans hl)
      obtain ⟨d, hd, hj⟩ := hstep.job hc
      exact ⟨d, hd, hj ▸ hu _ hcu⟩
    · obtain rfl : c = d := Option.some.inj (hc.symm.trans hd)
      exact .inl ⟨rfl, hcc⟩
  | work active pc k g hp hpc ha hg he =>
    have hp' : w'.ttsWorker = pc := congrArg SpeechView.worker he
    have ha' : w'.activeTTSStream = active := congrArg SpeechView.active he
    refine hw.of_keeps hu hstep (congrArg SpeechView.tts he) hg (ha'.symm ▸ ha)
      (by rw [hp', hpc, hp]) fun l hl ↦ ?_
    rw [← hp', hl] at hpc
    cases hpc
  | rest he =>
    have hp : w'.ttsWorker = w.ttsWorker := congrArg SpeechView.worker he
    refine hw.of_keeps (k := 0) (g := id) hu hstep ?_ (fun c _ ↦ .refl c)
      (.inl (congrArg SpeechView.active he)) (by rw [hp]) (by simp [hp])
    rw [List.modify_id]
    exact congrArg SpeechView.tts he

end Published

/-- In every run. -/
theorem published_of_reachable {w : World} (hr : system.Reachable w) : Published w := by
  refine hr.invariant (I := Published) ?_ fun w a w' _ hw h ↦ hw.step h
  constructor <;> simp [system, World.new]

/-- A published stream of another turn than the current one means that `readPump` has moved the
turn and not yet swapped the pointers; and a stream that `synthesizeAndSend` is done opening was
published, in the turn that its re-check found current, or was closed by `synthesizeAndSend`. -/
theorem staleOnlyWhileSwapping (w : World) (hr : system.Reachable w) :
    (∀ k, w.activeTTSStream = some k → ∃ c, w.tts[k]? = some c ∧
      (c.job.turn ≠ w.currentTurn → w.reader = .swap w.currentTurn)) ∧
    ∀ (k : Nat) (c : TtsCall), w.tts[k]? = some c →
      c.published = true ∧ c.checked = some c.job.turn ∨
        c.abandoned = true ∧ c.stream.closed = true ∨ w.ttsWorker.settling = some k := by
  have hw := published_of_reachable hr
  refine ⟨fun k hk ↦ ?_, hw.settled⟩
  obtain ⟨c, hc, hu⟩ := hw.active k hk
  refine ⟨c, hc, fun hne ↦ ?_⟩
  rcases hu with hu | ⟨-, hu⟩
  · exact absurd hu hne
  · exact hu

/-- Speech is under way when the next start has moved the turn: the pointer is stale, and the
reader is about to swap it. -/
theorem staleOnlyWhileSwapping_run : ∃ (w : World) (c : TtsCall), w.activeTTSStream = some 0 ∧
    w.tts[0]? = some c ∧ c.job.turn = 1 ∧ w.currentTurn = 2 ∧ w.reader = .swap 2 ∧
      c.published = true ∧ c.checked = some 1 := by
  have hw : ∃ w c, system.run (startActions ++ finalActions 0 "hi" ++
      [Action.forwardTranscripts 0 .next] ++ chunkActions 0 "hello" ++
      speakActions 0 ⟨[1, 2], 22050, 1, 2⟩ ++
      [Action.readPump (.frame (.text (.start defaultAudioFormat))), .readPump .next]) = some w ∧
      w.activeTTSStream = some 0 ∧ w.tts[0]? = some c ∧ c.job.turn = 1 ∧ w.currentTurn = 2 ∧
        c.abandoned = false ∧ w.ttsWorker.settling = none :=
    ⟨_, _, rfl, rfl, rfl, rfl, rfl, rfl, rfl⟩
  obtain ⟨w, c, hrun, ha, hc, hj, ht, hab, hset⟩ := hw
  obtain ⟨hactive, hsettled⟩ :=
    staleOnlyWhileSwapping w (TransitionSystem.reachable_of_run hrun)
  obtain ⟨d, hd, hswap⟩ := hactive 0 ha
  obtain rfl : c = d := Option.some.inj (hc.symm.trans hd)
  have hr : w.reader = .swap 2 := ht ▸ hswap (by omega)
  rcases hsettled 0 c hc with ⟨hp, hch⟩ | ⟨h, -⟩ | h
  · exact ⟨w, c, ha, hc, hj, ht, hr, hp, hj ▸ hch⟩
  · rw [hab] at h
    cases h
  · rw [hset] at h
    cases h

end BibiCore.Session
