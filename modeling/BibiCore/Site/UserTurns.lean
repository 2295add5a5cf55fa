import BibiCore.Site.Transcript

/-!
# The turns of the user

`site/assistant.html:451`–`477`: the partial transcript is rewritten in place until it is committed,
and is the last thing the user has said. What the assistant does leaves the turns of the user alone,
and the other way round.
-/

namespace BibiCore.Site
namespace Transcript

variable {s t : Transcript} {renderMarkdown : String → Option String}

/-- A highlighting timer that fires has been set. -/
theorem step_highlight {k : Nat} (hs : step renderMarkdown s (.highlight k) = some t) :
    ∃ id ∈ s.sentenceHighlightTimers,
      t = { s with sentenceHighlightTimers :=
        s.sentenceHighlightTimers.eraseIdx k }.highlightSentence id := by
  obtain ⟨id, hid, rfl⟩ := Option.map_eq_some_iff.mp hs
  exact ⟨id, List.mem_of_getElem? hid, rfl⟩

/-- The timer settles the turn and is gone. -/
theorem step_settle (hs : step renderMarkdown s .settle = some t) :
    t = { s with settleTimer := false }.settle := by
  rw [step, Option.ite_none_right_eq_some] at hs
  exact (Option.some.inj hs.2).symm

/-! ### What the two sides leave to each other -/

/-- The sentences that the variables and the timers still point to. -/
def refs (t : Transcript) : List Nat :=
  t.pendingSentenceForAudio.toList ++ t.currentSpeakingEl.toList ++ t.sentenceHighlightTimers

/-- The turns of the user stay as they are. -/
structure LeavesSaid (s t : Transcript) : Prop where
  said : t.said = s.said
  wrap : t.partialWrap = s.partialWrap
  count : s.turnCount ≤ t.turnCount

/-- The turns of the assistant, and what points into them, stay as they are. -/
structure LeavesAnswers (s t : Transcript) : Prop where
  answers : t.answers = s.answers
  wrap : t.assistantWrap = s.assistantWrap
  opened : t.assistantOpen = s.assistantOpen
  refs : t.refs = s.refs
  speaking : t.currentSpeakingEl = s.currentSpeakingEl
  sentenceCount : t.sentenceCount = s.sentenceCount
  count : s.turnCount ≤ t.turnCount

private theorem LeavesSaid.refl (t : Transcript) : LeavesSaid t t := ⟨rfl, rfl, le_rfl⟩

private theorem LeavesAnswers.refl (t : Transcript) : LeavesAnswers t t :=
  ⟨rfl, rfl, rfl, rfl, rfl, rfl, le_rfl⟩

private theorem LeavesSaid.trans {u : Transcript} (h : LeavesSaid s t) (h' : LeavesSaid t u) :
    LeavesSaid s u :=
  ⟨h'.said.trans h.said, h'.wrap.trans h.wrap, h.count.trans h'.count⟩

private theorem LeavesAnswers.trans {u : Transcript} (h : LeavesAnswers s t)
    (h' : LeavesAnswers t u) : LeavesAnswers s u :=
  ⟨h'.answers.trans h.answers, h'.wrap.trans h.wrap, h'.opened.trans h.opened,
    h'.refs.trans h.refs, h'.speaking.trans h.speaking, h'.sentenceCount.trans h.sentenceCount,
    h.count.trans h'.count⟩

private theorem leavesSaid_beginTurn (t : Transcript) : LeavesSaid t t.beginTurn := by
  refine ⟨?_, rfl, Nat.le_succ _⟩
  simp only [said, beginTurn]
  split <;> simp

/-- `beginTurn` leaves the answers. -/
theorem leavesAnswers_beginTurn (t : Transcript) : LeavesAnswers t t.beginTurn := by
  refine ⟨?_, rfl, rfl, rfl, rfl, rfl, Nat.le_succ _⟩
  simp only [answers, beginTurn]
  split <;> simp

private theorem leavesAnswers_ensurePartial (t : Transcript) : LeavesAnswers t t.ensurePartial := by
  unfold ensurePartial
  split
  · exact .refl _
  · apply (leavesAnswers_beginTurn t).trans
    exact ⟨by simp [answers], rfl, rfl, rfl, rfl, rfl, le_rfl⟩

/-- `updatePartial` leaves the answers. -/
theorem leavesAnswers_updatePartial (text : String) (t : Transcript) :
    LeavesAnswers t (t.updatePartial text) := by
  apply (leavesAnswers_ensurePartial t).trans
  simp only [updatePartial]
  split
  · exact ⟨Block.bibi_onYou .., rfl, rfl, rfl, rfl, rfl, le_rfl⟩
  · exact .refl _

/-- `commitPartial` leaves the answers. -/
theorem leavesAnswers_commitPartial (text : String) (t : Transcript) :
    LeavesAnswers t (t.commitPartial text) := by
  apply (leavesAnswers_ensurePartial t).trans
  simp only [commitPartial]
  split
  · exact ⟨Block.bibi_onYou .., rfl, rfl, rfl, rfl, rfl, le_rfl⟩
  · exact .refl _

/-- `removePartial` leaves the answers. -/
theorem leavesAnswers_removePartial (t : Transcript) : LeavesAnswers t t.removePartial := by
  unfold removePartial
  split
  · refine ⟨?_, rfl, rfl, rfl, rfl, rfl, le_rfl⟩
    rw [answers, List.filterMap_filter]
    refine List.filterMap_congr fun b _ ↦ ?_
    cases b <;> simp
  · exact .refl _

private theorem leavesSaid_stopSpeaking (t : Transcript) : LeavesSaid t t.stopSpeaking := by
  unfold stopSpeaking
  split
  · exact ⟨Block.you_onSentence .., rfl, le_rfl⟩
  · exact .refl _

private theorem leavesSaid_clearSentenceHighlighting (t : Transcript) :
    LeavesSaid t t.clearSentenceHighlighting :=
  (leavesSaid_stopSpeaking t).trans ⟨rfl, rfl, le_rfl⟩

private theorem leavesSaid_highlightSentence (id : Nat) (t : Transcript) :
    LeavesSaid t (t.highlightSentence id) :=
  (leavesSaid_stopSpeaking t).trans ⟨Block.you_onSentence .., rfl, le_rfl⟩

private theorem leavesSaid_openAssistantTurn (t : Transcript) :
    LeavesSaid t t.openAssistantTurn := by
  apply (leavesSaid_beginTurn t).trans
  apply (leavesSaid_clearSentenceHighlighting _).trans
  exact ⟨by simp [said, openAssistantTurn], rfl, le_rfl⟩

private theorem leavesSaid_onAssistant (f : Answer → Answer) (t : Transcript) :
    LeavesSaid t (t.onAssistant f) := by
  unfold onAssistant
  split
  · exact ⟨Block.you_onBibi .., rfl, le_rfl⟩
  · exact .refl _

private theorem leavesSaid_appendSentence (text : String) (t : Transcript) :
    LeavesSaid t (t.appendSentence renderMarkdown text) := by
  unfold appendSentence
  split
  · exact (leavesSaid_onAssistant _ t).trans ⟨rfl, rfl, le_rfl⟩
  · exact .refl _

private theorem leavesSaid_appendAssistantChunk (text : String) (t : Transcript) :
    LeavesSaid t (t.appendAssistantChunk renderMarkdown text) := by
  have hopen : LeavesSaid t (if t.assistantOpen then t else t.openAssistantTurn) := by
    split
    · exact .refl _
    · exact leavesSaid_openAssistantTurn t
  exact hopen.trans (leavesSaid_appendSentence text _)

private theorem leavesSaid_closeAssistantTurn (markStopped : Bool) (t : Transcript) :
    LeavesSaid t (t.closeAssistantTurn markStopped) := by
  unfold closeAssistantTurn
  split
  · have hclear := leavesSaid_clearSentenceHighlighting { t with settleTimer := false }
    have hmark := hclear.trans (leavesSaid_onAssistant (.close markStopped) _)
    exact ⟨hmark.said, hmark.wrap, hmark.count⟩
  · exact .refl _

private theorem leavesSaid_handleAudioFrame (t : Transcript) : LeavesSaid t t.handleAudioFrame := by
  unfold handleAudioFrame
  split <;> exact ⟨rfl, rfl, le_rfl⟩

/-! ### The turns of the user -/

/-- The turn `n` of the user is provisional, and later than those of `done`. -/
structure Provisional (t : Transcript) (done : List Said) (n : Nat) (text : String) : Prop where
  wrap : t.partialWrap = some n
  said : t.said = done ++ [⟨n, text, true⟩]
  later : ∀ s ∈ done, s.turn < n
  counted : n ≤ t.turnCount

/-- A change of the provisional turn reaches no other. -/
theorem Provisional.said_onYou {done : List Said} {n : Nat} {text : String}
    (h : Provisional t done n text) (f : Said → Said) :
    (t.turns.map (.onYou n f)).filterMap Block.you? = done ++ [f ⟨n, text, true⟩] := by
  rw [Block.you_onYou, ← Transcript.said, h.said]
  exact List.map_ite_concat f (fun x hx ↦ (h.later x hx).ne) rfl

/-- `done` is what the user has said for good, and all but a provisional turn. -/
structure Saying (t : Transcript) (done : List Said) : Prop where
  final : ∀ s ∈ done, s.provisional = false
  counted : ∀ s ∈ done, s.turn ≤ t.turnCount
  current : (t.partialWrap = none ∧ t.said = done) ∨ ∃ n text, Provisional t done n text

namespace Saying

variable {done : List Said}

/-- On a new page nothing was said. -/
theorem new : Saying new [] := ⟨by simp, by simp, .inl ⟨rfl, rfl⟩⟩

private theorem frame (h : Saying s done) (hst : LeavesSaid s t) : Saying t done where
  final := h.final
  counted x hx := (h.counted x hx).trans hst.count
  current := by
    rw [hst.wrap, hst.said]
    obtain hquiet | ⟨n, text, hp⟩ := h.current
    · exact .inl hquiet
    · exact .inr ⟨n, text, hst.wrap.trans hp.wrap, hst.said.trans hp.said, hp.later,
        hp.counted.trans hst.count⟩

/-- The committed blocks of the page are those that are done. -/
theorem committed_eq (h : Saying t done) : t.committed = done := by
  have hdone : done.filter (!·.provisional) = done :=
    List.filter_eq_self.mpr fun x hx ↦ by simp [h.final x hx]
  obtain ⟨-, hsaid⟩ | ⟨n, text, hp⟩ := h.current
  · rw [committed, hsaid, hdone]
  · simp [committed, hp.said, hdone]

/-- No more than one turn is provisional. -/
theorem provisional_le (h : Saying t done) : t.said.countP (·.provisional) ≤ 1 := by
  have hdone : done.countP (·.provisional) = 0 :=
    List.countP_eq_zero.mpr fun x hx ↦ by simp [h.final x hx]
  obtain ⟨-, hsaid⟩ | ⟨n, text, hp⟩ := h.current
  · simp [hsaid, hdone]
  · simp [hp.said, hdone]

/-- A turn that is begun is numbered beyond the others. -/
theorem ensurePartial (h : Saying t done) : ∃ n text, Provisional t.ensurePartial done n text := by
  unfold Transcript.ensurePartial
  obtain ⟨hwrap, hsaid⟩ | ⟨n, text, hp⟩ := h.current
  · rw [hwrap]
    refine ⟨t.turnCount + 1, "", rfl, ?_, fun x hx ↦ Nat.lt_succ_of_le (h.counted x hx), le_rfl⟩
    rw [← hsaid]
    simp only [said, beginTurn]
    split <;> simp [List.filterMap_cons]
  · rw [hp.wrap]
    exact ⟨n, text, hp⟩

/-- The text of the provisional turn changes. -/
theorem updatePartial (h : Saying t done) (text : String) : Saying (t.updatePartial text) done := by
  obtain ⟨n, text', hp⟩ := h.ensurePartial
  simp only [Transcript.updatePartial, hp.wrap]
  refine ⟨h.final, fun x hx ↦ ((hp.later x hx).trans_le hp.counted).le, .inr ⟨n, text, ?_⟩⟩
  exact ⟨rfl, hp.said_onYou _, hp.later, hp.counted⟩

/-- The provisional turn becomes one said for good. -/
theorem commitPartial (h : Saying t done) (text : String) :
    ∃ n, Saying (t.commitPartial text) (done ++ [⟨n, text, false⟩]) := by
  obtain ⟨n, text', hp⟩ := h.ensurePartial
  simp only [Transcript.commitPartial, hp.wrap]
  refine ⟨n, ?_, ?_, .inl ⟨rfl, hp.said_onYou _⟩⟩
  · exact List.forall_mem_concat h.final rfl
  · exact List.forall_mem_concat (fun x hx ↦ ((hp.later x hx).trans_le hp.counted).le) hp.counted

/-- What was provisional goes, and nothing else. -/
theorem removePartial (h : Saying t done) : Saying t.removePartial done := by
  unfold Transcript.removePartial
  obtain ⟨hwrap, -⟩ | ⟨n, text, hp⟩ := h.current
  · rw [hwrap]
    exact h
  · rw [hp.wrap]
    refine ⟨h.final, h.counted, .inl ⟨rfl, ?_⟩⟩
    have hfilter : (t.turns.filter fun b ↦ b.you?.all (·.turn ≠ n)).filterMap Block.you? =
        t.said.filter (·.turn ≠ n) := by
      rw [said, List.filter_filterMap, List.filterMap_filter]
      refine List.filterMap_congr fun b _ ↦ ?_
      cases b with
      | you x => by_cases hx : x.turn = n <;> simp [Option.filter, hx]
      | hr | bibi => rfl
    have hdone : done.filter (·.turn ≠ n) = done :=
      List.filter_eq_self.mpr fun x hx ↦ by simpa using (hp.later x hx).ne
    rw [said, hfilter, hp.said, List.filter_append, hdone]
    simp

/-- One event adds to what is said for good the text it commits. -/
theorem step {e : TranscriptEvent} (h : Saying s done)
    (hs : Transcript.step renderMarkdown s e = some t) :
    ∃ new, new.map Said.text = e.finals ∧ Saying t (done ++ new) := by
  -- most events leave the turns of the user alone
  have hleft (hst : LeavesSaid s t) (he : e.finals = []) :
      ∃ new, new.map Said.text = e.finals ∧ Saying t (done ++ new) :=
    ⟨[], he.symm, (List.append_nil done).symm ▸ h.frame hst⟩
  cases e with
  | message message =>
    obtain rfl := Option.some.inj hs
    cases message with
    | partialTranscript text turn =>
      exact ⟨[], rfl, (List.append_nil done).symm ▸ h.updatePartial text⟩
    | finalTranscript text turn =>
      obtain ⟨n, hn⟩ := (h.frame (leavesSaid_closeAssistantTurn false s)).commitPartial text
      exact ⟨[⟨n, text, false⟩], rfl, hn⟩
    | llmChunk text turn => exact hleft (leavesSaid_appendAssistantChunk text s) rfl
    | interrupted turn => exact hleft (leavesSaid_closeAssistantTurn true s) rfl
    | audioFormat format turn => exact hleft (.refl s) rfl
    | error code message => exact hleft (.refl s) rfl
  | audioFrame =>
    obtain rfl := Option.some.inj hs
    exact hleft (leavesSaid_handleAudioFrame s) rfl
  | highlight k =>
    obtain ⟨id, -, rfl⟩ := step_highlight hs
    have hst := leavesSaid_highlightSentence id
      { s with sentenceHighlightTimers := s.sentenceHighlightTimers.eraseIdx k }
    exact hleft ⟨hst.said, hst.wrap, hst.count⟩ rfl
  | settle =>
    obtain rfl := step_settle hs
    have hst := leavesSaid_onAssistant ({ · with cursor := false }) { s with settleTimer := false }
    exact hleft ⟨hst.said, hst.wrap, hst.count⟩ rfl
  | close =>
    obtain rfl := Option.some.inj hs
    exact ⟨[], rfl, (List.append_nil done).symm ▸
      h.removePartial.frame (leavesSaid_closeAssistantTurn true _)⟩

end Saying

end Transcript
end BibiCore.Site
