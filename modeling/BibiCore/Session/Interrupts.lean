import BibiCore.Session.Chat

/-!
# What a client learns about an interruption

`interruptCurrentTurn`, `session.go:304`, reports what it cut with one `interrupted` message,
through the `sendJSON` that drops a message when `s.send` is full.
-/

namespace BibiCore.Session

open World

/-- The start of turn `n` closed an llm or tts stream or drained a queued job. -/
def World.Interrupted (w : World) (n : Nat) : Prop :=
  some n ∈ w.llm.map LlmCall.closedBy ∨ some n ∈ w.tts.map TtsCall.closedBy ∨
    n ∈ w.drained.map Prod.fst

/-- The `interrupted` message of turn `n` was put on `s.send`. -/
def World.Notified (w : World) (n : Nat) : Prop :=
  .text (.interrupted n) ∈ w.puts.map Put.message

/-- The `interrupted` message of turn `n` was dropped, at a moment when 32 messages were
waiting. -/
def World.NoticeDropped (w : World) (n : Nat) : Prop := (.interrupted n, 32) ∈ w.dropped

instance (w : World) (n : Nat) : Decidable (w.Interrupted n) :=
  inferInstanceAs (Decidable (_ ∨ _ ∨ _))

instance (w : World) (n : Nat) : Decidable (w.Notified n) := inferInstanceAs (Decidable (_ ∈ _))

instance (w : World) (n : Nat) : Decidable (w.NoticeDropped n) :=
  inferInstanceAs (Decidable (_ ∈ _))

/-! ### The goroutines that interrupt nothing -/

/-- What a step that is not `readPump`'s leaves of an interruption. -/
structure SameInterrupts (w w' : World) : Prop where
  reader : w'.reader = w.reader
  cancelled : w'.cancelled = w.cancelled
  drained : w'.drained = w.drained
  llm : w'.llm.map LlmCall.closedBy = w.llm.map LlmCall.closedBy ∨
    w'.llm.map LlmCall.closedBy = w.llm.map LlmCall.closedBy ++ [none]
  tts : w'.tts.map TtsCall.closedBy = w.tts.map TtsCall.closedBy ∨
    w'.tts.map TtsCall.closedBy = w.tts.map TtsCall.closedBy ++ [none]
  puts : w.puts <+: w'.puts
  dropped : w.dropped <+: w'.dropped

private theorem prefix_puts {w w' : World} (hw : w'.written = w.written)
    (hs : w.send.items <+: w'.send.items) : w.puts <+: w'.puts := by
  rw [puts, puts, hw]
  exact (List.prefix_append_right_inj _).mpr hs

private theorem Sends.prefix_items {w : World} {send : Chan Put 32}
    {dropped : List (ControlMessage × Nat)} {o : Origin} {P : ControlMessage → Prop}
    (h : Sends w send dropped o P) : w.send.items <+: send.items := by
  obtain ⟨new, hn, -⟩ := h.puts
  exact hn ▸ List.prefix_append _ _

/-- No step but one of `readPump` closes a stream or drains the queue. -/
theorem step_sameInterrupts {w w' : World} {a : Action} (h : system.step w a = some w')
    (hr : ∀ b, a ≠ .readPump b) : SameInterrupts w w' := by
  cases a with
  | readPump b => exact absurd rfl (hr b)
  | audioSendWorker b =>
    obtain ⟨send, dropped, queue, pc, i, g, rfl, hs, -⟩ := audioSendWorker_footprint h
    exact ⟨rfl, rfl, rfl, .inl rfl, .inl rfl, prefix_puts rfl hs.prefix_items, hs.drops⟩
  | forwardTranscripts i b =>
    obtain ⟨c, send, dropped, active, llm, g, -, rfl, hs, hl, -⟩ := forwardTranscripts_footprint h
    refine ⟨rfl, rfl, rfl, ?_, .inl rfl, prefix_puts rfl hs.prefix_items, hs.drops⟩
    cases hl with
    | keep h => exact .inl (by rw [h])
    | opened opener turn prompt context h => exact .inr (by simp [h, LlmCall.opened])
    | publish turn j _ h =>
      subst h
      exact .inl (List.map_modify_of_eq fun _ _ ↦ rfl)
  | forwardLLMEvents j b =>
    obtain ⟨send, dropped, active, queue, history, answered, g, rfl, hs, hg⟩ :=
      forwardLLMEvents_footprint h
    exact ⟨rfl, rfl, rfl, .inl (List.map_modify_of_eq fun c _ ↦ hg c), .inl rfl,
      prefix_puts rfl hs.prefix_items, hs.drops⟩
  | ttsWorker b =>
    obtain ⟨send, dropped, queue, taken, active, pc, tts, rfl, hs, hd, ht, -⟩ :=
      ttsWorkerStep_footprint h
    refine ⟨rfl, rfl, rfl, .inl rfl, ?_, prefix_puts rfl hs, hd⟩
    cases ht with
    | keep h => exact .inl (by rw [h])
    | opened job voice h => exact .inr (by simp [h, TtsCall.opened])
    | update k g h hg =>
      left
      rw [h, List.map_modify_of_eq fun c _ ↦ hg c]
  | sttRecvPump i b =>
    obtain ⟨c, s, -, -, rfl⟩ := sttRecvPump_eq_some h
    exact ⟨rfl, rfl, rfl, .inl rfl, .inl rfl, List.prefix_rfl, List.prefix_rfl⟩
  | llmRecvPump j b =>
    obtain ⟨c, s, -, -, rfl⟩ := llmRecvPump_eq_some h
    exact ⟨rfl, rfl, rfl, .inl (List.map_modify_of_eq fun _ _ ↦ rfl), .inl rfl, List.prefix_rfl,
      List.prefix_rfl⟩
  | ttsRecvPump k b =>
    obtain ⟨c, s, -, -, rfl⟩ := ttsRecvPump_eq_some h
    exact ⟨rfl, rfl, rfl, .inl rfl, .inl (List.map_modify_of_eq fun _ _ ↦ rfl), List.prefix_rfl,
      List.prefix_rfl⟩
  | write =>
    obtain ⟨send, written, rfl, hp⟩ := write_eq_some h
    exact ⟨rfl, rfl, rfl, .inl rfl, .inl rfl, hp ▸ List.prefix_rfl, List.prefix_rfl⟩
  | stopWriting =>
    obtain rfl := stopWriting_eq_some h
    exact ⟨rfl, rfl, rfl, .inl rfl, .inl rfl, List.prefix_rfl, List.prefix_rfl⟩

/-! ### Every interruption is reported, or its report is dropped -/

/-- Every turn that interrupted something still owes the message, has put it, has dropped it on
a full channel, or lives in a cancelled session. -/
def InterruptsReported (w : World) : Prop :=
  ∀ n, w.Interrupted n → w.reader.owing = some n ∨ w.Notified n ∨ w.NoticeDropped n ∨
    w.cancelled = true

/-- What was put stays put. -/
theorem World.Notified.mono {w w' : World} {n : Nat} (hn : w.Notified n)
    (h : w.puts <+: w'.puts) : w'.Notified n :=
  (h.map Put.message).subset hn

private theorem reported_mono {w w' : World} {n : Nat}
    (hn : w.Notified n ∨ w.NoticeDropped n ∨ w.cancelled = true) (hp : w.puts <+: w'.puts)
    (hd : w.dropped <+: w'.dropped) (hc : w.cancelled = true → w'.cancelled = true) :
    w'.Notified n ∨ w'.NoticeDropped n ∨ w'.cancelled = true :=
  hn.imp (·.mono hp) (Or.imp (hd.subset ·) hc)

private theorem reported_sendJSON {w w' : World} {n : Nat} {b : Branch} {o : Origin}
    (h : w.sendJSON o (.interrupted n) b = some w') :
    w'.Notified n ∨ w'.NoticeDropped n ∨ w'.cancelled = true := by
  obtain ⟨send, dropped, rfl, hs⟩ := sendJSON_eq_some h
  rcases hs with ⟨hs, -⟩ | ⟨-, -, hc⟩ | ⟨-, hd, hf⟩
  · left
    simp [World.Notified, puts, hs]
  · exact .inr (.inr hc)
  · right
    left
    rw [show w.send.items.length = 32 from hf] at hd
    simp [World.NoticeDropped, hd]

private theorem readPump_reported {w w' : World} {a : ReadAction} (hw : InterruptsReported w)
    (h : w.readPump a = some w') : InterruptsReported w' := by
  intro n hn
  have hne {turn : Nat} (ht : turn ≠ n) : some n ≠ some turn :=
    fun he ↦ ht (Option.some.inj he).symm
  cases readPump_effect h with
  | own _ _ _ _ _ _ _ _ _ _ h _ hc _ ho =>
    subst h
    rcases hw n hn with howe | hrep
    · exact .inl (ho.trans howe)
    · exact .inr (reported_mono hrep List.prefix_rfl List.prefix_rfl hc)
  | report code message b v reader hs h ho =>
    obtain ⟨send, dropped, rfl, hsend⟩ := sendJSON_sends (P := fun _ ↦ True) trivial hs
    subst h
    rcases hw n hn with howe | hrep
    · rw [ho] at howe
      cases howe
    · exact .inr (reported_mono hrep (prefix_puts rfl hsend.prefix_items) hsend.drops id)
  | cutLLM turn j tts hr h =>
    subst h
    by_cases ht : turn = n
    · exact .inl (congrArg some ht)
    have hold : w.Interrupted n :=
      hn.imp_left (List.mem_map_of_mem_map_modify (v := some turn) (fun _ ↦ rfl) (hne ht))
    rcases hw n hold with howe | hrep
    · simp [hr] at howe
    · exact .inr hrep
  | cutTTS turn k b hr h =>
    subst h
    by_cases ht : turn = n
    · exact .inl (congrArg some ht)
    have hold : w.Interrupted n := hn.imp_right (Or.imp_left
      (List.mem_map_of_mem_map_modify (v := some turn) (fun _ ↦ rfl) (hne ht)))
    rcases hw n hold with howe | hrep
    · cases b <;> simp [hr, ht] at howe
    · exact .inr hrep
  | cutJob turn b job q hr hq h =>
    subst h
    by_cases ht : turn = n
    · exact .inl (congrArg some ht)
    have hold : w.Interrupted n :=
      hn.imp_right (Or.imp_right fun hl ↦ by simpa [Ne.symm ht] using hl)
    rcases hw n hold with howe | hrep
    · cases b <;> simp [hr, ht] at howe
    · exact .inr hrep
  | notify turn b v hr hs h =>
    obtain ⟨send, dropped, hv, hsend⟩ := sendJSON_sends (P := fun _ ↦ True) trivial hs
    subst h
    by_cases ht : turn = n
    · subst ht
      have hrep := reported_sendJSON hs
      exact .inr hrep
    · subst hv
      rcases hw n hn with howe | hrep
      · simp [hr, ht] at howe
      · exact .inr (reported_mono hrep (prefix_puts rfl hsend.prefix_items) hsend.drops id)

/-- In every run every interruption is accounted for. -/
theorem interruptsReported_of_reachable {w : World} (hr : system.Reachable w) :
    InterruptsReported w := by
  refine hr.invariant (I := InterruptsReported) ?_ fun w a w' _ hw h n hn ↦ ?_
  · intro n hn
    simp [World.Interrupted, system, World.new] at hn
  · by_cases ha : ∃ b, a = .readPump b
    · obtain ⟨b, rfl⟩ := ha
      exact readPump_reported hw h n hn
    · have hsame := step_sameInterrupts h fun b hb ↦ ha ⟨b, hb⟩
      have hold : w.Interrupted n := by
        refine hn.imp (fun hl ↦ ?_) (Or.imp (fun hl ↦ ?_) fun hl ↦ ?_)
        · rcases hsame.llm with he | he <;> simpa [he] using hl
        · rcases hsame.tts with he | he <;> simpa [he] using hl
        · rwa [hsame.drained] at hl
      rw [hsame.reader]
      exact (hw n hold).imp_right
        (reported_mono · hsame.puts hsame.dropped (hsame.cancelled ▸ id))

/-- In a session that is not cancelled, a start that interrupted something and is past its
`interruptCurrentTurn` has put its `interrupted` message on `s.send`, or has dropped it there
because 32 messages were waiting. -/
theorem interrupted_put_or_dropped (w : World) (n : Nat) (hr : system.Reachable w)
    (hc : w.cancelled = false) (hret : w.InterruptReturned n) (hn : w.Interrupted n) :
    w.Notified n ∨ w.NoticeDropped n := by
  rcases interruptsReported_of_reachable hr n hn with ho | hput | hdrop | hcancel
  · refine absurd ?_ hret.2
    unfold ReadPc.owing at ho
    split at ho <;> simp_all
  · exact .inl hput
  · exact .inr hdrop
  · simp [hc] at hcancel

/-- A barge-in on a published chat with room on the channel. -/
theorem interrupted_put_or_dropped_run : ∃ w : World,
    w.Interrupted 2 ∧ (w.Notified 2 ∨ w.NoticeDropped 2) := by
  have hw : ∃ w, system.run (startActions ++ finalActions 0 "hi" ++
      [Action.forwardTranscripts 0 .next] ++ bargeInActions .put) = some w ∧ w.cancelled = false ∧
        w.InterruptReturned 2 ∧ w.Interrupted 2 :=
    ⟨_, rfl, rfl, by decide, by decide⟩
  obtain ⟨w, hrun, hc, hret, hn⟩ := hw
  exact ⟨w, hn, interrupted_put_or_dropped w 2 (TransitionSystem.reachable_of_run hrun) hc hret hn⟩

/-- A barge-in while 32 messages wait for `writePump`: the running chat is closed, and the
client is never told. -/
theorem not_interrupted_put : ∃ w, system.run (startActions ++ finalActions 0 "hi" ++
      [.forwardTranscripts 0 .next] ++ malformedActions 31 ++ bargeInActions .dropped) = some w ∧
    w.cancelled = false ∧ w.InterruptReturned 2 ∧ w.Interrupted 2 ∧ ¬ w.Notified 2 := by
  refine ⟨_, rfl, rfl, by decide, by decide, by decide⟩

end BibiCore.Session
