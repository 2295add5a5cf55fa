import BibiCore.Site.AnswerTurns

/-!
# What the transcript shows

Over the whole life of the page, through interruptions and lost connections: the texts that were
committed and the sentences that were rendered stand in their order, in turns that stand in theirs,
and what is settled stays as it is.
-/

namespace BibiCore.Site
namespace Transcript

variable {s t : Transcript} {renderMarkdown : String → Option String}

/-! ### The sentences -/

/-- A chunk adds its sentence behind all others. -/
theorem sentences_appendSentence {done : List Answer} (h : Answering t done)
    (ho : t.assistantOpen = true) (text : String) :
    (t.appendSentence renderMarkdown text).sentences =
      t.sentences ++ (renderMarkdown text).toList.map (⟨t.sentenceCount, ·, true, false⟩) := by
  obtain ⟨hwrap, -⟩ | ⟨a, ha⟩ := h.current
  · rw [h.opened, hwrap] at ho
    cases ho
  · unfold appendSentence
    rw [ha.wrap]
    cases hhtml : renderMarkdown text with
    | none => simp
    | some html =>
      have hadd := ha.answers_onAssistant (.addSentence t.sentenceCount html)
      have hold : t.sentences = done.flatMap Answer.sentences ++ a.sentences := by
        rw [sentences, ha.answers, List.flatMap_append, List.flatMap_singleton]
      change (t.onAssistant (.addSentence t.sentenceCount html)).sentences = _
      rw [sentences, hadd, hold, List.flatMap_append, List.flatMap_singleton, List.append_assoc]
      rfl

private theorem sentenceCount_appendSentence {done : List Answer} (h : Answering t done)
    (ho : t.assistantOpen = true) (text : String) :
    (t.appendSentence renderMarkdown text).sentenceCount =
      t.sentenceCount + (renderMarkdown text).toList.length := by
  obtain ⟨hwrap, -⟩ | ⟨a, ha⟩ := h.current
  · rw [h.opened, hwrap] at ho
    cases ho
  · unfold appendSentence
    rw [ha.wrap]
    cases renderMarkdown text <;> rfl

/-- The sentence that is spoken, if any, is the one in `currentSpeakingEl`. -/
def Speaking (t : Transcript) : Prop :=
  ∀ x ∈ t.sentences, x.speaking = true → t.currentSpeakingEl = some x.id

/-- No sentence is spoken. -/
def Quiet (t : Transcript) : Prop := ∀ x ∈ t.sentences, x.speaking = false

private theorem Quiet.speaking (h : Quiet t) : Speaking t := by
  intro x hx hspeaking
  simp [h x hx] at hspeaking

private theorem Speaking.stopSpeaking (h : Speaking t) : Quiet t.stopSpeaking := by
  unfold Transcript.stopSpeaking
  split
  · next id hid =>
    intro x hx
    rw [sentences_onSentence] at hx
    obtain ⟨y, hy, rfl⟩ := List.mem_map.mp hx
    by_cases hyid : y.id = id
    · simp [hyid]
    · rw [if_neg hyid]
      by_contra hspeaking
      have hcurrent := h y hy (by simpa using hspeaking)
      exact hyid (Option.some.inj (hcurrent.symm.trans hid))
  · next hnone =>
    intro x hx
    by_contra hspeaking
    have hcurrent := h x hx (by simpa using hspeaking)
    simp [hnone] at hcurrent

private theorem Speaking.highlightSentence (h : Speaking t) (id : Nat) :
    Speaking (t.highlightSentence id) := by
  intro x hx hspeaking
  rw [sentences_highlightSentence] at hx
  obtain ⟨y, hy, rfl⟩ := List.mem_map.mp hx
  by_cases hyid : y.id = id
  · simp [hyid, Transcript.highlightSentence]
  · rw [if_neg hyid] at hspeaking
    simp [h.stopSpeaking y hy] at hspeaking

private theorem Speaking.frame (h : Speaking s) (hst : LeavesAnswers s t) : Speaking t := by
  intro x hx
  rw [hst.speaking]
  rw [sentences, hst.answers] at hx
  exact h x hx

private theorem Speaking.closeAssistantTurn (h : Speaking t) (markStopped : Bool) :
    Speaking (t.closeAssistantTurn markStopped) := by
  unfold Transcript.closeAssistantTurn
  split
  · have hquiet : Quiet { t with settleTimer := false }.clearSentenceHighlighting :=
      Speaking.stopSpeaking (t := { t with settleTimer := false }) h
    have hmark := sentences_onAssistant { t with settleTimer := false }.clearSentenceHighlighting
      (f := .close markStopped) fun _ ↦ rfl
    apply Quiet.speaking
    intro x hx
    exact hquiet x (hmark ▸ hx)
  · exact h

/-- `clearSentenceHighlighting` runs before the answer is there. -/
theorem Speaking.openAssistantTurn (h : Speaking t) : Quiet t.openAssistantTurn := by
  have hquiet := (h.frame (leavesAnswers_beginTurn t)).stopSpeaking
  intro x hx
  rw [sentences_openAssistantTurn] at hx
  exact hquiet x hx

private theorem Speaking.appendSentence {done : List Answer} (h : Speaking t)
    (ha : Answering t done) (ho : t.assistantOpen = true) (text : String) :
    Speaking (t.appendSentence renderMarkdown text) := by
  intro x hx hspeaking
  have hcurrent : (t.appendSentence renderMarkdown text).currentSpeakingEl =
      t.currentSpeakingEl := by
    unfold Transcript.appendSentence
    split
    · simp
    · rfl
  rw [sentences_appendSentence ha ho] at hx
  obtain hx | hx := List.mem_append.mp hx
  · rw [hcurrent]
    exact h x hx hspeaking
  · obtain ⟨html, -, rfl⟩ := List.mem_map.mp hx
    cases hspeaking

/-- After a step too, the sentence that is spoken is the one in `currentSpeakingEl`. -/
theorem Speaking.step {e : TranscriptEvent} {done : List Answer} (h : Speaking s)
    (ha : Answering s done) (hs : Transcript.step renderMarkdown s e = some t) : Speaking t := by
  cases e with
  | message message =>
    obtain rfl := Option.some.inj hs
    cases message with
    | partialTranscript text turn => exact h.frame (leavesAnswers_updatePartial text s)
    | finalTranscript text turn =>
      exact (h.closeAssistantTurn false).frame (leavesAnswers_commitPartial text _)
    | llmChunk text turn =>
      simp only [handleControlMessage, appendAssistantChunk]
      split
      · next ho => exact h.appendSentence ha ho text
      · next ho =>
        exact h.openAssistantTurn.speaking.appendSentence
          (ha.openAssistantTurn (by simpa using ho)) rfl text
    | interrupted turn => exact h.closeAssistantTurn true
    | audioFormat format turn => exact h
    | error code message => exact h
  | audioFrame =>
    obtain rfl := Option.some.inj hs
    unfold handleAudioFrame
    split <;> exact h
  | highlight k =>
    obtain ⟨id, -, rfl⟩ := step_highlight hs
    exact Speaking.highlightSentence (t := { s with
      sentenceHighlightTimers := s.sentenceHighlightTimers.eraseIdx k }) h id
  | settle =>
    obtain rfl := step_settle hs
    intro x hx
    rw [sentences_settle] at hx
    simpa [settle] using h x hx
  | close =>
    obtain rfl := Option.some.inj hs
    exact (h.frame (leavesAnswers_removePartial s)).closeAssistantTurn true

/-- No more than one sentence is spoken. -/
theorem Speaking.countP_le (h : Speaking t) (hn : Numbered t) :
    t.sentences.countP (·.speaking) ≤ 1 := by
  have hnodup : ((t.sentences.filter (·.speaking)).map Sentence.id).Nodup := by
    apply List.Nodup.sublist (List.filter_sublist.map Sentence.id)
    rw [hn]
    exact List.nodup_range
  have hsame : ∀ x ∈ t.sentences.filter (·.speaking), t.currentSpeakingEl = some x.id := by
    intro x hx
    obtain ⟨hmem, hspeaking⟩ := List.mem_filter.mp hx
    exact h x hmem hspeaking
  rw [List.countP_eq_length_filter]
  -- two of them would have the number that `currentSpeakingEl` holds
  match hfilter : t.sentences.filter (·.speaking) with
  | [] | [_] => simp only [hfilter, List.length_nil, List.length_singleton, Nat.zero_le, le_rfl]
  | x :: y :: rest =>
    rw [hfilter] at hnodup hsame
    have hx := hsame x (by simp)
    have hy := hsame y (by simp)
    have hid : x.id = y.id := Option.some.inj (hx.symm.trans hy)
    simp [hid] at hnodup

private theorem shown_of_leavesAnswers (hst : LeavesAnswers s t) : t.shown = s.shown := by
  rw [shown, sentences, hst.answers]
  rfl

private theorem shown_closeAssistantTurn (markStopped : Bool) (t : Transcript) :
    (t.closeAssistantTurn markStopped).shown = t.shown ∧
      (t.closeAssistantTurn markStopped).sentenceCount = t.sentenceCount := by
  unfold closeAssistantTurn
  split
  · have hmark := sentences_onAssistant { t with settleTimer := false }.clearSentenceHighlighting
      (f := .close markStopped) fun _ ↦ rfl
    have hstop := shown_stopSpeaking { t with settleTimer := false }
    refine ⟨?_, by simp [clearSentenceHighlighting]⟩
    exact (congrArg (List.map _) hmark).trans hstop
  · exact ⟨rfl, rfl⟩

/-- An event adds a sentence behind the others for the text it brings, and changes what is shown of
no other. -/
theorem shown_step {e : TranscriptEvent} {done : List Answer} (h : Answering s done)
    (hs : step renderMarkdown s e = some t) :
    t.shown = s.shown ++ (e.chunks.filterMap renderMarkdown).map (s.sentenceCount, ·) ∧
      t.sentenceCount = s.sentenceCount + (e.chunks.filterMap renderMarkdown).length := by
  have hleft (hst : t.shown = s.shown ∧ t.sentenceCount = s.sentenceCount) (he : e.chunks = []) :
      t.shown = s.shown ++ (e.chunks.filterMap renderMarkdown).map (s.sentenceCount, ·) ∧
        t.sentenceCount = s.sentenceCount + (e.chunks.filterMap renderMarkdown).length := by
    simpa [he] using hst
  have huser (hst : LeavesAnswers s t) : t.shown = s.shown ∧ t.sentenceCount = s.sentenceCount :=
    ⟨shown_of_leavesAnswers hst, hst.sentenceCount⟩
  cases e with
  | message message =>
    obtain rfl := Option.some.inj hs
    cases message with
    | partialTranscript text turn => exact hleft (huser (leavesAnswers_updatePartial text s)) rfl
    | finalTranscript text turn =>
      have hclose := shown_closeAssistantTurn false s
      have hcommit := leavesAnswers_commitPartial text (s.closeAssistantTurn false)
      exact hleft ⟨(shown_of_leavesAnswers hcommit).trans hclose.1,
        hcommit.sentenceCount.trans hclose.2⟩ rfl
    | llmChunk text turn =>
      have hone : [text].filterMap renderMarkdown = (renderMarkdown text).toList := by
        cases hhtml : renderMarkdown text <;> simp [hhtml]
      simp only [TranscriptEvent.chunks, hone, handleControlMessage, appendAssistantChunk]
      split
      · next ho =>
        refine ⟨?_, sentenceCount_appendSentence h ho text⟩
        rw [shown, sentences_appendSentence h ho, List.map_append, List.map_map]
        rfl
      · next ho =>
        have hopen := h.openAssistantTurn (by simpa using ho)
        rw [← sentenceCount_openAssistantTurn s, ← shown_openAssistantTurn s]
        refine ⟨?_, sentenceCount_appendSentence hopen rfl text⟩
        rw [shown, sentences_appendSentence hopen rfl, List.map_append, List.map_map]
        rfl
    | interrupted turn => exact hleft (shown_closeAssistantTurn true s) rfl
    | audioFormat format turn => exact hleft ⟨rfl, rfl⟩ rfl
    | error code message => exact hleft ⟨rfl, rfl⟩ rfl
  | audioFrame =>
    obtain rfl := Option.some.inj hs
    refine hleft ?_ rfl
    unfold handleAudioFrame
    split <;> exact ⟨rfl, rfl⟩
  | highlight k =>
    obtain ⟨id, -, rfl⟩ := step_highlight hs
    exact hleft ⟨shown_highlightSentence id _, by simp [highlightSentence]⟩ rfl
  | settle =>
    obtain rfl := step_settle hs
    exact hleft ⟨congrArg (List.map _) (sentences_settle _), by simp [settle]⟩ rfl
  | close =>
    obtain rfl := Option.some.inj hs
    have hremove := leavesAnswers_removePartial s
    have hclose := shown_closeAssistantTurn true s.removePartial
    exact hleft ⟨hclose.1.trans (shown_of_leavesAnswers hremove),
      hclose.2.trans hremove.sentenceCount⟩ rfl

/-- A step keeps the sentences numbered. -/
theorem Numbered.step {e : TranscriptEvent} {done : List Answer} (hn : Numbered s)
    (h : Answering s done) (hs : Transcript.step renderMarkdown s e = some t) : Numbered t := by
  obtain ⟨hshown, hcount⟩ := shown_step h hs
  -- an event brings one text at most
  have hlength : (e.chunks.filterMap renderMarkdown).length ≤ 1 := by
    apply (List.length_filterMap_le _ _).trans
    unfold TranscriptEvent.chunks
    split <;> simp
  rw [numbered_iff, hshown, hcount, List.map_append, numbered_iff.mp hn]
  match hnew : e.chunks.filterMap renderMarkdown with
  | [] => simp
  | [html] => simp [List.range_succ]
  | _ :: _ :: _ => simp [hnew] at hlength

/-! ### The order of the turns -/

/-- The numbers of the turns, in the order shown. -/
def turnNumbers (t : Transcript) : List Nat := t.turns.filterMap Block.turn?

/-- The turns are shown in the order in which they were begun. -/
structure Placed (t : Transcript) : Prop where
  inOrder : t.turnNumbers.Pairwise (· < ·)
  counted : ∀ n ∈ t.turnNumbers, n ≤ t.turnCount

namespace Placed

private theorem new : Placed new := ⟨List.Pairwise.nil, by simp [turnNumbers, Transcript.new]⟩

/-- No turn is moved. -/
theorem congr (h : Placed s) (hturns : t.turnNumbers = s.turnNumbers)
    (hcount : t.turnCount = s.turnCount) : Placed t := by
  constructor
  · rw [hturns]
    exact h.inOrder
  · rw [hturns, hcount]
    exact h.counted

private theorem turnNumbers_beginTurn (t : Transcript) :
    t.beginTurn.turnNumbers = t.turnNumbers := by
  simp only [turnNumbers, beginTurn]
  split <;> simp

/-- A turn that has just been begun comes behind all others. -/
theorem push (h : Placed s) (hturns : t.turnNumbers = s.turnNumbers ++ [t.turnCount])
    (hcount : t.turnCount = s.turnCount + 1) : Placed t := by
  have hlt : ∀ n ∈ s.turnNumbers, n < t.turnCount := by
    intro n hn
    have hle := h.counted n hn
    omega
  constructor
  · rw [hturns]
    refine List.pairwise_append.mpr ⟨h.inOrder, List.pairwise_singleton _ _, fun n hn m hm ↦ ?_⟩
    rw [List.mem_singleton.mp hm]
    exact hlt n hn
  · rw [hturns]
    exact List.forall_mem_concat (fun n hn ↦ (hlt n hn).le) le_rfl

private theorem ensurePartial (h : Placed t) : Placed t.ensurePartial := by
  unfold Transcript.ensurePartial
  split
  · exact h
  · refine h.push ?_ rfl
    rw [← turnNumbers_beginTurn t]
    simp [turnNumbers]

private theorem updatePartial (h : Placed t) (text : String) : Placed (t.updatePartial text) := by
  simp only [Transcript.updatePartial]
  split
  · exact h.ensurePartial.congr (Block.turn_onYou _ _ fun _ ↦ rfl) rfl
  · exact h.ensurePartial

private theorem commitPartial (h : Placed t) (text : String) : Placed (t.commitPartial text) := by
  simp only [Transcript.commitPartial]
  split
  · exact h.ensurePartial.congr (Block.turn_onYou _ _ fun _ ↦ rfl) rfl
  · exact h.ensurePartial

private theorem removePartial (h : Placed t) : Placed t.removePartial := by
  unfold Transcript.removePartial
  split
  · next turn hwrap =>
    have hsub := (List.filter_sublist (l := t.turns)
      (p := fun b ↦ b.you?.all (·.turn ≠ turn))).filterMap Block.turn?
    exact ⟨h.inOrder.sublist hsub, fun n hn ↦ h.counted n (hsub.subset hn)⟩
  · exact h

private theorem stopSpeaking (h : Placed t) : Placed t.stopSpeaking := by
  unfold Transcript.stopSpeaking
  split
  · exact h.congr (Block.turn_onSentence ..) rfl
  · exact h

private theorem clearSentenceHighlighting (h : Placed t) : Placed t.clearSentenceHighlighting :=
  h.stopSpeaking.congr rfl rfl

private theorem highlightSentence (h : Placed t) (id : Nat) : Placed (t.highlightSentence id) :=
  h.stopSpeaking.congr (Block.turn_onSentence ..) rfl

private theorem onAssistant (h : Placed t) {f : Answer → Answer} (hf : ∀ a, (f a).turn = a.turn) :
    Placed (t.onAssistant f) := by
  unfold Transcript.onAssistant
  split
  · exact h.congr (Block.turn_onBibi _ _ hf) rfl
  · exact h

private theorem openAssistantTurn (h : Placed t) : Placed t.openAssistantTurn := by
  have hcount : t.beginTurn.clearSentenceHighlighting.turnCount = t.turnCount + 1 := by
    simp [Transcript.clearSentenceHighlighting, beginTurn]
  have hturns : t.beginTurn.clearSentenceHighlighting.turnNumbers = t.turnNumbers := by
    rw [← turnNumbers_beginTurn t]
    simp only [turnNumbers, Transcript.clearSentenceHighlighting, Transcript.stopSpeaking]
    split
    · exact Block.turn_onSentence ..
    · rfl
  refine h.push ?_ hcount
  rw [← hturns]
  simp [turnNumbers, Transcript.openAssistantTurn]

private theorem appendSentence (h : Placed t) (text : String) :
    Placed (t.appendSentence renderMarkdown text) := by
  unfold Transcript.appendSentence
  split
  · next html hwrap hhtml =>
    have hadd := h.onAssistant (f := .addSentence t.sentenceCount html) fun _ ↦ rfl
    exact hadd.congr rfl rfl
  · exact h

private theorem appendAssistantChunk (h : Placed t) (text : String) :
    Placed (t.appendAssistantChunk renderMarkdown text) := by
  unfold Transcript.appendAssistantChunk
  split
  · exact h.appendSentence text
  · exact h.openAssistantTurn.appendSentence text

private theorem closeAssistantTurn (h : Placed t) (markStopped : Bool) :
    Placed (t.closeAssistantTurn markStopped) := by
  unfold Transcript.closeAssistantTurn
  split
  · have hsettle : Placed { t with settleTimer := false } := h.congr rfl rfl
    have hmark := hsettle.clearSentenceHighlighting.onAssistant
      (f := .close markStopped) fun _ ↦ rfl
    exact hmark.congr rfl rfl
  · exact h

/-- A step keeps the turns in the order in which they were begun. -/
theorem step {e : TranscriptEvent} (h : Placed s)
    (hs : Transcript.step renderMarkdown s e = some t) : Placed t := by
  cases e with
  | message message =>
    obtain rfl := Option.some.inj hs
    cases message with
    | partialTranscript text turn => exact h.updatePartial text
    | finalTranscript text turn => exact (h.closeAssistantTurn false).commitPartial text
    | llmChunk text turn => exact h.appendAssistantChunk text
    | interrupted turn => exact h.closeAssistantTurn true
    | audioFormat format turn => exact h
    | error code message => exact h
  | audioFrame =>
    obtain rfl := Option.some.inj hs
    unfold handleAudioFrame
    split <;> exact h.congr rfl rfl
  | highlight k =>
    obtain ⟨id, -, rfl⟩ := step_highlight hs
    have hfired : Placed { s with
      sentenceHighlightTimers := s.sentenceHighlightTimers.eraseIdx k } := h.congr rfl rfl
    exact hfired.highlightSentence id
  | settle =>
    obtain rfl := step_settle hs
    have hfired : Placed { s with settleTimer := false } := h.congr rfl rfl
    exact hfired.onAssistant fun _ ↦ rfl
  | close =>
    obtain rfl := Option.some.inj hs
    exact h.removePartial.closeAssistantTurn true

end Placed

/-! ### Every run -/

/-- What the page shows after the events `es`. -/
structure Told (renderMarkdown : String → Option String) (es : List TranscriptEvent)
    (t : Transcript) : Prop where
  saying : ∃ done, Saying t done ∧ done.map Said.text = es.flatMap TranscriptEvent.finals
  answering : ∃ done, Answering t done
  numbered : Numbered t
  speaking : Speaking t
  placed : Placed t
  html : t.shown.map Prod.snd =
    (es.flatMap TranscriptEvent.chunks).filterMap renderMarkdown

private theorem Told.new : Told renderMarkdown [] new where
  saying := ⟨[], Saying.new, rfl⟩
  answering := ⟨[], Answering.new⟩
  numbered := rfl
  speaking := by
    intro x hx
    cases hx
  placed := Placed.new
  html := rfl

/-- A step shows what its event tells. -/
theorem Told.step {es : List TranscriptEvent} {e : TranscriptEvent}
    (h : Told renderMarkdown es s) (hs : Transcript.step renderMarkdown s e = some t) :
    Told renderMarkdown (es ++ [e]) t := by
  obtain ⟨done, hsaying, htexts⟩ := h.saying
  obtain ⟨answered, hanswering⟩ := h.answering
  constructor
  case saying =>
    obtain ⟨new, hnew, hsaying⟩ := hsaying.step hs
    exact ⟨done ++ new, hsaying, by simp [htexts, hnew]⟩
  case answering =>
    obtain ⟨new, hnew⟩ := hanswering.step h.numbered hs
    exact ⟨answered ++ new, hnew⟩
  case numbered => exact h.numbered.step hanswering hs
  case speaking => exact h.speaking.step hanswering hs
  case placed => exact h.placed.step hs
  case html =>
    rw [(shown_step hanswering hs).1, List.map_append, h.html]
    simp [Function.comp_def]

/-- A page shows what its events tell. -/
theorem told_of_run {es : List TranscriptEvent} (h : (system renderMarkdown).run es = some t) :
    Told renderMarkdown es t :=
  TransitionSystem.run_induction Told.new (fun _ _ _ _ _ hi hs ↦ hi.step hs) h

/-- In every run, whatever is interrupted, lost or late, the page shows the transcripts that were
final in their order, each once, every sentence that was rendered in its order, each once, and the
turns they are in, in the order in which those were begun. No more than one turn of the user is
provisional, and no more than one sentence is spoken. -/
theorem transcript_shown {es : List TranscriptEvent}
    (h : (system renderMarkdown).run es = some t) :
    t.committed.map Said.text = es.flatMap TranscriptEvent.finals ∧
      t.sentences.map Sentence.html =
        (es.flatMap TranscriptEvent.chunks).filterMap renderMarkdown ∧
      t.turnNumbers.Pairwise (· < ·) ∧
      t.said.countP (·.provisional) ≤ 1 ∧ t.sentences.countP (·.speaking) ≤ 1 := by
  have htold := told_of_run h
  obtain ⟨done, hsaying, htexts⟩ := htold.saying
  refine ⟨?_, ?_, htold.placed.inOrder, hsaying.provisional_le,
    htold.speaking.countP_le htold.numbered⟩
  · rw [hsaying.committed_eq, htexts]
  · rw [← htold.html, shown, List.map_map]
    rfl

/-- The answer `b` is lost with the connection before it has been heard. -/
def lostAnswer : List TranscriptEvent :=
  [.message (.partialTranscript "h" 1), .message (.finalTranscript "hi" 1),
    .message (.llmChunk "a" 1), .audioFrame, .message (.llmChunk "b" 1), .highlight 0, .close]

/-- A page that lost its connection in the middle of an answer. -/
theorem transcript_shown_lost :
    ∃ t, (system some).run lostAnswer = some t ∧ t.committed.map Said.text = ["hi"] ∧
      t.sentences.map Sentence.html = ["a", "b"] := by
  have hrun : ((system some).run lostAnswer).isSome = true := by decide
  obtain ⟨t, ht⟩ := Option.isSome_iff_exists.mp hrun
  obtain ⟨hsaid, hhtml, -⟩ := transcript_shown ht
  exact ⟨t, ht, hsaid, hhtml⟩

/-- A lost connection, or anything else that happens later, erases and changes nothing of what the
user said for good and of the answers that were closed. -/
theorem transcript_kept {es es' : List TranscriptEvent}
    (h : (system renderMarkdown).run es = some s)
    (h' : (system renderMarkdown).runFrom s es' = some t) :
    s.committed <+: t.committed ∧ s.closed <+: t.closed := by
  have htold := told_of_run h
  obtain ⟨done, hsaying, -⟩ := htold.saying
  obtain ⟨answered, hanswering⟩ := htold.answering
  rw [hsaying.committed_eq, hanswering.closed_eq]
  -- what is settled now stays a beginning of what is settled then
  have hkept := TransitionSystem.runFrom_preserves (S := system renderMarkdown)
    (I := fun u ↦ (∃ new, Saying u (done ++ new)) ∧ (∃ new, Answering u (answered ++ new)) ∧
      Numbered u) ?_ ⟨⟨[], by simpa⟩, ⟨[], by simpa⟩, htold.numbered⟩ h'
  case refine_1 =>
    rintro u e v ⟨⟨new, hu⟩, ⟨closed, ha⟩, hn⟩ hs
    obtain ⟨new', -, hu'⟩ := hu.step hs
    obtain ⟨closed', ha'⟩ := ha.step hn hs
    rw [List.append_assoc] at hu' ha'
    exact ⟨⟨_, hu'⟩, ⟨_, ha'⟩, hn.step ha hs⟩
  obtain ⟨⟨new, ht⟩, ⟨closed, ha⟩, -⟩ := hkept
  rw [ht.committed_eq, ha.closed_eq]
  exact ⟨List.prefix_append _ _, List.prefix_append _ _⟩

/-- A later turn keeps what that page shows. -/
theorem transcript_kept_lost :
    ∃ s t, (system some).run lostAnswer = some s ∧
      (system some).runFrom s [.message (.partialTranscript "y" 2), .close] = some t ∧
      s.committed <+: t.committed ∧ s.closed <+: t.closed := by
  have hrun : (((system some).run lostAnswer).bind fun s ↦
      (system some).runFrom s [.message (.partialTranscript "y" 2), .close]).isSome = true := by
    decide
  obtain ⟨t, ht⟩ := Option.isSome_iff_exists.mp hrun
  obtain ⟨s, hs, ht⟩ := Option.bind_eq_some_iff.mp ht
  exact ⟨s, t, hs, ht, transcript_kept hs ht⟩

end Transcript
end BibiCore.Site
