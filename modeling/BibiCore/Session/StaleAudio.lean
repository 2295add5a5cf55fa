import BibiCore.Session.Speech

/-!
# Speech after an interruption

`session.go:295`–`339` and `472`–`518`. A binary frame carries no turn; `synthesizeAndSend` looks
at the turn when it takes a chunk and may be parked in the sends that follow while the
`interrupted` message of a later turn overtakes it.
-/

namespace BibiCore.Session

open World

/-- Every binary frame put on `s.send` is a job's, and every `interrupted` message before it is of
no later turn than the job. -/
def NoStaleAudio (w : World) : Prop :=
  ∀ (l : Nat) (q : Put), w.puts[l]? = some q → q.kind? = some .audio →
    ∃ t, w.putTurn q = some t ∧
      ∀ p ∈ w.puts.take l, ∀ n, p.message = .text (.interrupted n) → n ≤ t

/-- Whenever `interrupted` is put, `ttsWorker` is past its turn check with audio to send for no
job of an earlier turn. -/
def SilentOnInterrupt (w : World) (a : Action) : Prop :=
  ∀ n ∈ w.notifying a, .audio ∈ w.ttsWorker.due → ∀ t ∈ w.jobTurn, n ≤ t

instance (w : World) (a : Action) : Decidable (SilentOnInterrupt w a) :=
  inferInstanceAs (Decidable (∀ n ∈ w.notifying a, _ → ∀ t ∈ w.jobTurn, n ≤ t))

/-- No `interrupted` message put so far is of a later turn. -/
def World.InterruptedUpTo (w : World) (t : Nat) : Prop :=
  ∀ p ∈ w.puts, ∀ n, p.message = .text (.interrupted n) → n ≤ t

/-- The messages put are of turns that have begun, and the audio that is due is stale for none of
them. -/
structure Silenced (w : World) : Prop where
  begun : w.InterruptedUpTo w.currentTurn
  due : .audio ∈ w.ttsWorker.due → ∃ t, w.jobTurn = some t ∧ w.InterruptedUpTo t
  frames : NoStaleAudio w

namespace Silenced

variable {w w' : World} {a : Action}

private theorem frames_append {new : List Put} (hw : NoStaleAudio w)
    (hs : SpeechStep w w' a) (hp : w'.puts = w.puts ++ new)
    (hn : ∀ q ∈ new, q.kind? = some .audio →
      new = [q] ∧ ∃ t, w.putTurn q = some t ∧ w.InterruptedUpTo t) : NoStaleAudio w' := by
  intro l q hl hq
  rw [hp] at hl ⊢
  rcases Nat.lt_or_ge l w.puts.length with hlt | hge
  · rw [List.getElem?_append_left hlt] at hl
    obtain ⟨t, ht, hi⟩ := hw l q hl hq
    refine ⟨t, hs.putTurn ht, ?_⟩
    rwa [List.take_append_of_le_length (Nat.le_of_lt hlt)]
  · rw [List.getElem?_append_right hge] at hl
    obtain ⟨rfl, t, ht, hi⟩ := hn q (List.mem_of_getElem? hl) hq
    have hlen : l - w.puts.length < 1 := (List.getElem?_eq_some_iff.mp hl).1
    refine ⟨t, hs.putTurn ht, ?_⟩
    rwa [List.take_left' (by omega)]

private theorem frames_of_eq (hw : NoStaleAudio w) (hs : SpeechStep w w' a)
    (hp : w'.puts = w.puts) : NoStaleAudio w' := by
  have hnil : w'.puts = w.puts ++ [] := by rw [hp, List.append_nil]
  exact frames_append hw hs hnil (by simp)

private theorem upTo_of_eq {t : Nat} (h : w.InterruptedUpTo t) (hp : w'.puts = w.puts) :
    w'.InterruptedUpTo t := by
  unfold World.InterruptedUpTo
  rwa [hp]

private theorem upTo_concat {t : Nat} {p : Put} (h : w.InterruptedUpTo t)
    (hp : w'.puts = w.puts ++ [p]) (hk : p.kind? ≠ none) : w'.InterruptedUpTo t := by
  intro q hq n hn
  rw [hp] at hq
  rcases List.mem_append.mp hq with hq | hq
  · exact h q hq n hn
  · rw [List.mem_singleton.mp hq] at hn
    simp [Put.kind?, hn] at hk

private theorem step_worker (hw : Silenced w) (hs : SpeechStep w w' a)
    (ht : w'.currentTurn = w.currentTurn) (h : DueStep w w') : Silenced w' := by
  cases h with
  | spend kind rest hd hd' hj hp =>
    have hdue : .audio ∈ rest → ∃ t, w'.jobTurn = some t ∧ w.InterruptedUpTo t := by
      intro hr
      have hrest : rest ≠ [] := List.ne_nil_of_mem hr
      have hin : .audio ∈ w.ttsWorker.due := by
        rw [hd]
        exact List.mem_cons_of_mem _ hr
      rw [hj hrest]
      exact hw.due hin
    rcases hp with hp | ⟨p, u, hp, hk, hpt, hju⟩
    · refine ⟨?_, fun hr ↦ ?_, ?_⟩
      · rw [ht]
        exact upTo_of_eq hw.begun hp
      · obtain ⟨t, htu, hu⟩ := hdue (hd' ▸ hr)
        exact ⟨t, htu, upTo_of_eq hu hp⟩
      · exact frames_of_eq hw.frames hs hp
    · have hne : p.kind? ≠ none := by simp [hk]
      refine ⟨?_, fun hr ↦ ?_, ?_⟩
      · rw [ht]
        exact upTo_concat hw.begun hp hne
      · obtain ⟨t, htu, hu⟩ := hdue (hd' ▸ hr)
        exact ⟨t, htu, upTo_concat hu hp hne⟩
      · refine frames_append hw.frames hs hp fun q hq hqk ↦ ?_
        obtain rfl := List.mem_singleton.mp hq
        have hkind : kind = .audio := Option.some.inj (hk.symm.trans hqk)
        obtain ⟨t, htu, hu⟩ := hw.due (by rw [hd, hkind]; exact List.mem_cons_self)
        exact ⟨rfl, t, hpt.trans (hju.symm.trans htu), hu⟩
  | wait hd hj hp =>
    refine ⟨?_, fun hr ↦ ?_, frames_of_eq hw.frames hs hp⟩
    · rw [ht]
      exact upTo_of_eq hw.begun hp
    · rw [hd] at hr
      obtain ⟨t, htu, hu⟩ := hw.due hr
      rw [hj (List.ne_nil_of_mem hr)]
      exact ⟨t, htu, upTo_of_eq hu hp⟩
  | check hd hj hp =>
    have hbegun := upTo_of_eq hw.begun hp
    refine ⟨ht ▸ hbegun, fun _ ↦ ⟨_, hj, hbegun⟩, ?_⟩
    exact frames_of_eq hw.frames hs hp

private theorem notifying_eq {n : Nat} (hl : w.chat.Linked) (h : w.notifying a = some n) :
    n = w.currentTurn := by
  unfold World.notifying at h
  split at h
  · split at h <;> cases h
    next hr => exact hl.interrupting n (by simp [World.chat, hr])
  · cases h

private theorem step_other {new : List Put} (hw : Silenced w) (hl : w.chat.Linked)
    (hs : SpeechStep w w' a) (hg : SilentOnInterrupt w a)
    (ht : w.currentTurn ≤ w'.currentTurn) (hp : w'.ttsWorker = w.ttsWorker)
    (hputs : w'.puts = w.puts ++ new) (hnew : ∀ p ∈ new, PutElsewhere w a p) : Silenced w' := by
  refine ⟨fun p hpm n hn ↦ ?_, fun hr ↦ ?_, frames_append hw.frames hs hputs fun q hq hk ↦ ?_⟩
  · rw [hputs] at hpm
    rcases List.mem_append.mp hpm with hpm | hpm
    · exact Nat.le_trans (hw.begun p hpm n hn) ht
    · have hcur := notifying_eq hl ((hnew p hpm).interrupted n hn)
      omega
  · rw [hp] at hr
    obtain ⟨t, htu, hu⟩ := hw.due hr
    refine ⟨t, hs.jobTurn hp htu, fun p hpm n hn ↦ ?_⟩
    rw [hputs] at hpm
    rcases List.mem_append.mp hpm with hpm | hpm
    · exact hu p hpm n hn
    · exact hg n ((hnew p hpm).interrupted n hn) hr t htu
  · have htext := (hnew q hq).text
    cases hm : q.message with
    | binary data => exact absurd hm (htext data)
    | text m => cases m <;> simp [Put.kind?, hm] at hk

end Silenced

/-- As long as `interrupted` is never put while audio of an earlier turn is due, no binary frame
comes after an `interrupted` message of a later turn than its job's. -/
theorem noStaleAudio_of_silentOnInterrupt (w : World)
    (hr : system.ReachableWith SilentOnInterrupt w) : NoStaleAudio w := by
  have hsilent : Silenced w := by
    refine hr.invariant (I := Silenced) ?_ fun w a w' hr hw hg h ↦ ?_
    · constructor
      · simp [World.InterruptedUpTo, system, World.new, World.puts]
      · simp [system, World.new]
      · simp [NoStaleAudio, system, World.new, World.puts]
    · have hs := step_speechStep h
      by_cases ha : ∃ b, a = .ttsWorker b
      · obtain ⟨b, rfl⟩ := ha
        have hcur : w'.currentTurn = w.currentTurn := by
          obtain ⟨send, dropped, queue, taken, active, pc, tts, rfl, -⟩ :=
            ttsWorkerStep_footprint h
          rfl
        exact hw.step_worker hs hcur (ttsWorkerStep_due h)
      · obtain ⟨hp, new, hputs, hnew⟩ := step_elsewhere h fun b hb ↦ ha ⟨b, hb⟩
        have hcur := (step_chatStep h).turn_le
        exact hw.step_other (linked_of_reachable hr.reachable) hs hg hcur hp hputs hnew
  exact hsilent.frames

/-- The sentence has been spoken before the next start interrupts it. -/
theorem noStaleAudio_of_silentOnInterrupt_run : ∃ w : World, NoStaleAudio w ∧
    .text (.interrupted 2) ∈ w.puts.map Put.message ∧
      .binary [1, 2] ∈ w.puts.map Put.message := by
  have hw : ∃ w, system.runGuarded SilentOnInterrupt system.init (startActions ++
      finalActions 0 "hi" ++ [Action.forwardTranscripts 0 .next] ++ chunkActions 0 "hello" ++
      speakActions 0 ⟨[1, 2], 22050, 1, 2⟩ ++ List.replicate 3 (Action.ttsWorker (.select .put)) ++
      bargeInActions .put) = some w ∧
      .text (.interrupted 2) ∈ w.puts.map Put.message ∧
        .binary [1, 2] ∈ w.puts.map Put.message :=
    ⟨_, rfl, by decide, by decide⟩
  obtain ⟨w, hrun, hi, hb⟩ := hw
  exact ⟨w, noStaleAudio_of_silentOnInterrupt w (.runGuarded .init hrun), hi, hb⟩

/-- The next start interrupts the sentence while its first audio is about to be sent: the frame
follows the `interrupted` message of turn 2. -/
theorem not_noStaleAudio : ∃ w, system.run (startActions ++ finalActions 0 "hi" ++
      [.forwardTranscripts 0 .next] ++ chunkActions 0 "hello" ++
      speakActions 0 ⟨[1, 2], 22050, 1, 2⟩ ++ List.replicate 2 (.ttsWorker (.select .put)) ++
      bargeInActions .put ++ [.ttsWorker (.select .put)]) = some w ∧
    w.puts.map Put.message = [.text (.finalTranscript "hi" 1), .text (.llmChunk "hello" 1),
      .text (.audioFormat ⟨22050, 1, 2⟩ 1), .text (.interrupted 2), .binary [1, 2]] ∧
    w.putTurn ⟨.binary [1, 2], .synthesizeAndSend 0⟩ = some 1 ∧ ¬ NoStaleAudio w := by
  have hw : ∃ w, system.run (startActions ++ finalActions 0 "hi" ++
      [Action.forwardTranscripts 0 .next] ++ chunkActions 0 "hello" ++
      speakActions 0 ⟨[1, 2], 22050, 1, 2⟩ ++ List.replicate 2 (Action.ttsWorker (.select .put)) ++
      bargeInActions .put ++ [Action.ttsWorker (.select .put)]) = some w ∧
      w.puts = [⟨.text (.finalTranscript "hi" 1), .forwardTranscripts 0⟩,
        ⟨.text (.llmChunk "hello" 1), .synthesizeAndSend 0⟩,
        ⟨.text (.audioFormat ⟨22050, 1, 2⟩ 1), .synthesizeAndSend 0⟩,
        ⟨.text (.interrupted 2), .readPump⟩, ⟨.binary [1, 2], .synthesizeAndSend 0⟩] ∧
      w.putTurn ⟨.binary [1, 2], .synthesizeAndSend 0⟩ = some 1 := ⟨_, rfl, rfl, rfl⟩
  obtain ⟨w, hrun, hputs, hturn⟩ := hw
  refine ⟨w, hrun, by rw [hputs]; rfl, hturn, fun h ↦ ?_⟩
  obtain ⟨t, ht, hi⟩ := h 4 ⟨.binary [1, 2], .synthesizeAndSend 0⟩ (by rw [hputs]; rfl) rfl
  have ht1 : t = 1 := Option.some.inj (ht.symm.trans hturn)
  have := hi ⟨.text (.interrupted 2), .readPump⟩ (by rw [hputs]; decide) 2 rfl
  omega

end BibiCore.Session
