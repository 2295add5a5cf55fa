import BibiCore.Site.UserTurns

/-!
# The turns of the assistant

`site/assistant.html:479`–`557`: the open answer is the last one, and neither a timer that is still
to fire nor a frame that is still to come touches an answer that has been closed.
-/

namespace BibiCore.Site
namespace Transcript

variable {s t : Transcript} {renderMarkdown : String → Option String}

/-- The answer `a` is open, and later than those of `done`. -/
structure Opened (t : Transcript) (done : List Answer) (a : Answer) : Prop where
  wrap : t.assistantWrap = some a.turn
  answers : t.answers = done ++ [a]
  later : ∀ b ∈ done, b.turn < a.turn
  counted : a.turn ≤ t.turnCount

/-- A change of the open answer reaches no other. -/
theorem Opened.answers_onAssistant {done : List Answer} {a : Answer} (h : Opened t done a)
    (f : Answer → Answer) : (t.onAssistant f).answers = done ++ [f a] := by
  unfold onAssistant
  rw [h.wrap, Transcript.answers, Block.bibi_onBibi, ← Transcript.answers, h.answers]
  exact List.map_ite_concat f (fun b hb ↦ (h.later b hb).ne) rfl

/-- `done` is all answers but an open one, and nothing that is still to happen touches them. -/
structure Answering (t : Transcript) (done : List Answer) : Prop where
  counted : ∀ a ∈ done, a.turn ≤ t.turnCount
  away : ∀ id ∈ t.refs, ∀ a ∈ done, ∀ x ∈ a.sentences, x.id ≠ id
  opened : t.assistantOpen = t.assistantWrap.isSome
  current : (t.assistantWrap = none ∧ t.answers = done) ∨ ∃ a, Opened t done a

/-- The elements of the sentences, numbered as they were created. -/
def Numbered (t : Transcript) : Prop := t.sentences.map Sentence.id = List.range t.sentenceCount

/-- What a sentence shows, which no timer changes. -/
def shown (t : Transcript) : List (Nat × String) := t.sentences.map fun x ↦ (x.id, x.html)

/-- A change of one sentence element is one of the sentences. -/
theorem sentences_onSentence (t : Transcript) (id : Nat) (f : Sentence → Sentence) :
    { t with turns := t.turns.map (.onSentence id f) }.sentences =
      t.sentences.map fun x ↦ if x.id = id then f x else x := by
  rw [sentences, answers, Block.bibi_onSentence, List.flatMap_map, sentences, List.map_flatMap]
  rfl

private theorem shown_onSentence (t : Transcript) (id : Nat) (f : Sentence → Sentence)
    (hf : ∀ x, (f x).id = x.id ∧ (f x).html = x.html) :
    { t with turns := t.turns.map (.onSentence id f) }.shown = t.shown := by
  rw [shown, sentences_onSentence, List.map_map]
  refine List.map_congr_left fun x _ ↦ ?_
  by_cases hx : x.id = id <;> simp [hx, hf]

/-- `stopSpeaking` leaves what is shown. -/
@[simp] theorem shown_stopSpeaking (t : Transcript) : t.stopSpeaking.shown = t.shown := by
  unfold stopSpeaking
  split
  · exact shown_onSentence t _ _ fun _ ↦ ⟨rfl, rfl⟩
  · rfl

/-- `highlightSentence` leaves what is shown. -/
theorem shown_highlightSentence (id : Nat) (t : Transcript) :
    (t.highlightSentence id).shown = t.shown := by
  rw [← shown_stopSpeaking t]
  exact shown_onSentence t.stopSpeaking id _ fun _ ↦ ⟨rfl, rfl⟩

/-- `highlightSentence` stops the sentence that is spoken and marks its own. -/
theorem sentences_highlightSentence (id : Nat) (t : Transcript) :
    (t.highlightSentence id).sentences = t.stopSpeaking.sentences.map fun x ↦
      if x.id = id then { x with pending := false, speaking := true } else x :=
  sentences_onSentence t.stopSpeaking id _

/-- The answer in `assistantWrap` changes, but none of its sentences. -/
theorem sentences_onAssistant (t : Transcript) {f : Answer → Answer}
    (hf : ∀ a, (f a).sentences = a.sentences) : (t.onAssistant f).sentences = t.sentences := by
  unfold onAssistant
  split
  · rw [sentences, answers, Block.bibi_onBibi, List.flatMap_map]
    refine List.flatMap_congr fun a _ ↦ ?_
    split
    · exact hf a
    · rfl
  · rfl

/-- A turn that settles leaves the sentences. -/
theorem sentences_settle (t : Transcript) : t.settle.sentences = t.sentences :=
  sentences_onAssistant t fun _ ↦ rfl

/-! ### The variables that stay -/

section Fields

variable (t : Transcript) (f : Answer → Answer)

/-- `stopSpeaking` leaves the wrap of the answer. -/
@[simp] theorem stopSpeaking_assistantWrap : t.stopSpeaking.assistantWrap = t.assistantWrap := by
  unfold stopSpeaking
  split <;> rfl

/-- `stopSpeaking` opens and closes no answer. -/
@[simp] theorem stopSpeaking_assistantOpen : t.stopSpeaking.assistantOpen = t.assistantOpen := by
  unfold stopSpeaking
  split <;> rfl

/-- `stopSpeaking` begins no turn. -/
@[simp] theorem stopSpeaking_turnCount : t.stopSpeaking.turnCount = t.turnCount := by
  unfold stopSpeaking
  split <;> rfl

/-- `stopSpeaking` adds no sentence. -/
@[simp] theorem stopSpeaking_sentenceCount : t.stopSpeaking.sentenceCount = t.sentenceCount := by
  unfold stopSpeaking
  split <;> rfl

/-- `stopSpeaking` leaves the references. -/
@[simp] theorem stopSpeaking_refs : t.stopSpeaking.refs = t.refs := by
  unfold stopSpeaking
  split <;> rfl

/-- A change inside the answer leaves its wrap. -/
@[simp] theorem onAssistant_assistantWrap : (t.onAssistant f).assistantWrap = t.assistantWrap := by
  unfold onAssistant
  split <;> rfl

/-- A change inside the answer leaves it open or closed. -/
@[simp] theorem onAssistant_assistantOpen : (t.onAssistant f).assistantOpen = t.assistantOpen := by
  unfold onAssistant
  split <;> rfl

/-- A change inside the answer begins no turn. -/
@[simp] theorem onAssistant_turnCount : (t.onAssistant f).turnCount = t.turnCount := by
  unfold onAssistant
  split <;> rfl

/-- A change inside the answer leaves the count of the sentences. -/
@[simp] theorem onAssistant_sentenceCount : (t.onAssistant f).sentenceCount = t.sentenceCount := by
  unfold onAssistant
  split <;> rfl

/-- A change inside the answer leaves the element that is spoken. -/
@[simp] theorem onAssistant_currentSpeakingEl :
    (t.onAssistant f).currentSpeakingEl = t.currentSpeakingEl := by
  unfold onAssistant
  split <;> rfl

/-- A change inside the answer leaves the references. -/
@[simp] theorem onAssistant_refs : (t.onAssistant f).refs = t.refs := by
  unfold onAssistant
  split <;> rfl

/-- `clearSentenceHighlighting` leaves no reference. -/
@[simp] theorem clearSentenceHighlighting_refs : t.clearSentenceHighlighting.refs = [] := rfl

end Fields

/-! ### The numbers of the sentences -/

/-- The sentences are numbered exactly when those shown are. -/
theorem numbered_iff : Numbered t ↔ t.shown.map Prod.fst = List.range t.sentenceCount := by
  rw [Numbered, shown, List.map_map]
  rfl

/-- A new answer has no sentence, and none of the others is spoken on. -/
theorem sentences_openAssistantTurn (t : Transcript) :
    t.openAssistantTurn.sentences = t.beginTurn.stopSpeaking.sentences := by
  simp [sentences, answers, openAssistantTurn, clearSentenceHighlighting]

/-- A new answer adds nothing to what is shown. -/
theorem shown_openAssistantTurn (t : Transcript) : t.openAssistantTurn.shown = t.shown := by
  have hbegin : t.beginTurn.shown = t.shown := by
    rw [shown, sentences, (leavesAnswers_beginTurn t).answers]
    rfl
  rw [shown, sentences_openAssistantTurn, ← shown, shown_stopSpeaking, hbegin]

/-- A new answer leaves the count of the sentences. -/
theorem sentenceCount_openAssistantTurn (t : Transcript) :
    t.openAssistantTurn.sentenceCount = t.sentenceCount := by
  simp [openAssistantTurn, clearSentenceHighlighting, beginTurn]

private theorem numbered_openAssistantTurn (hn : Numbered t) : Numbered t.openAssistantTurn := by
  rwa [numbered_iff, shown_openAssistantTurn, sentenceCount_openAssistantTurn, ← numbered_iff]

/-! ### What is closed stays -/

namespace Answering

variable {done : List Answer}

/-- A new page has no answer. -/
theorem new : Answering new [] := ⟨by simp, by simp, rfl, .inl ⟨rfl, rfl⟩⟩

/-- The variables may change, as long as none comes to point into a closed answer. -/
theorem congr (h : Answering s done) (hans : t.answers = s.answers)
    (hwrap : t.assistantWrap = s.assistantWrap) (hopened : t.assistantOpen = s.assistantOpen)
    (hcount : s.turnCount ≤ t.turnCount)
    (haway : ∀ id ∈ t.refs, ∀ a ∈ done, ∀ x ∈ a.sentences, x.id ≠ id) : Answering t done where
  counted x hx := (h.counted x hx).trans hcount
  away := haway
  opened := by rw [hopened, hwrap, h.opened]
  current := by
    rw [hwrap, hans]
    obtain hclosed | ⟨a, ha⟩ := h.current
    · exact .inl hclosed
    · exact .inr ⟨a, hwrap.trans ha.wrap, hans.trans ha.answers, ha.later,
        ha.counted.trans hcount⟩

private theorem frame (h : Answering s done) (hst : LeavesAnswers s t) : Answering t done :=
  h.congr hst.answers hst.wrap hst.opened hst.count (hst.refs ▸ h.away)

/-- The closed answers of the page are those that are done. -/
theorem closed_eq (h : Answering t done) : t.closed = done := by
  obtain ⟨hwrap, hans⟩ | ⟨a, ha⟩ := h.current
  · simp [closed, hwrap, hans]
  · have hdone : done.filter (t.assistantWrap ≠ some ·.turn) = done :=
      List.filter_eq_self.mpr fun b hb ↦ by simpa [ha.wrap] using (ha.later b hb).ne'
    rw [closed, ha.answers, List.filter_append, hdone]
    simp [ha.wrap]

private theorem mem_answers (h : Answering t done) {a : Answer} (ha : a ∈ done) :
    a ∈ t.answers := by
  obtain ⟨-, hans⟩ | ⟨b, hb⟩ := h.current
  · rwa [hans]
  · rw [hb.answers]
    exact List.mem_append_left _ ha

/-- The next sentence is none of a closed answer. -/
theorem ne_sentenceCount (h : Answering t done) (hn : Numbered t) :
    ∀ a ∈ done, ∀ x ∈ a.sentences, x.id ≠ t.sentenceCount := by
  intro a ha x hx
  have hmem : x.id ∈ t.sentences.map Sentence.id :=
    List.mem_map_of_mem (List.mem_flatMap.mpr ⟨a, h.mem_answers ha, hx⟩)
  rw [hn, List.mem_range] at hmem
  exact hmem.ne

/-- A sentence of no closed answer changes. -/
theorem onSentence (h : Answering t done) {id : Nat} (f : Sentence → Sentence)
    (hid : ∀ a ∈ done, ∀ x ∈ a.sentences, x.id ≠ id) :
    Answering { t with turns := t.turns.map (.onSentence id f) } done := by
  have hdone : done.map (Answer.onSentence id f) = done := by
    conv_rhs => rw [← List.map_id done]
    exact List.map_congr_left fun a ha ↦ Answer.onSentence_of_ne f (hid a ha)
  refine ⟨h.counted, h.away, h.opened, ?_⟩
  obtain ⟨hwrap, hans⟩ | ⟨a, ha⟩ := h.current
  · left
    exact ⟨hwrap, by rw [answers, Block.bibi_onSentence, ← answers, hans, hdone]⟩
  · right
    refine ⟨a.onSentence id f, ha.wrap, ?_, ha.later, ha.counted⟩
    rw [answers, Block.bibi_onSentence, ← answers, ha.answers, List.map_append, hdone]
    rfl

private theorem stopSpeaking (h : Answering t done) : Answering t.stopSpeaking done := by
  unfold Transcript.stopSpeaking
  split
  · next id hid => exact h.onSentence _ (h.away id (by simp [refs, hid]))
  · exact h

private theorem clearSentenceHighlighting (h : Answering t done) :
    Answering t.clearSentenceHighlighting done :=
  h.stopSpeaking.congr rfl rfl rfl le_rfl (by simp)

private theorem highlightSentence (h : Answering t done) {id : Nat}
    (hid : ∀ a ∈ done, ∀ x ∈ a.sentences, x.id ≠ id) :
    Answering (t.highlightSentence id) done := by
  refine (h.stopSpeaking.onSentence _ hid).congr rfl rfl rfl le_rfl fun i hi ↦ ?_
  have hor : i = id ∨ i ∈ t.stopSpeaking.refs := by
    simp only [refs, Transcript.highlightSentence, List.mem_append, Option.mem_toList] at hi ⊢
    grind
  obtain rfl | hi := hor
  · exact hid
  · rw [stopSpeaking_refs] at hi
    exact h.away i hi

/-- The open answer changes. -/
theorem onAssistant (h : Answering t done) {f : Answer → Answer}
    (hf : ∀ a, (f a).turn = a.turn) : Answering (t.onAssistant f) done := by
  refine ⟨by simpa using h.counted, by simpa using h.away, by simpa using h.opened, ?_⟩
  obtain ⟨hwrap, hans⟩ | ⟨a, ha⟩ := h.current
  · left
    unfold Transcript.onAssistant
    rw [hwrap]
    exact ⟨hwrap, hans⟩
  · right
    refine ⟨f a, ?_, ha.answers_onAssistant f, ?_, ?_⟩
    · rw [hf, onAssistant_assistantWrap, ha.wrap]
    · rw [hf]
      exact ha.later
    · rw [hf, onAssistant_turnCount]
      exact ha.counted

/-- The open answer becomes one of the closed ones, if there is one. -/
theorem setClosed (h : Answering t done) (hrefs : t.refs = []) :
    ∃ new, Answering { t with assistantWrap := none, assistantOpen := false } (done ++ new) := by
  have haway (done' : List Answer) : ∀ id ∈ t.refs, ∀ a ∈ done', ∀ x ∈ a.sentences, x.id ≠ id := by
    simp [hrefs]
  obtain ⟨-, hans⟩ | ⟨a, ha⟩ := h.current
  · refine ⟨[], ?_⟩
    rw [List.append_nil]
    exact ⟨h.counted, haway done, rfl, .inl ⟨rfl, hans⟩⟩
  · refine ⟨[a], ?_⟩
    exact ⟨List.forall_mem_concat h.counted ha.counted, haway _, rfl, .inl ⟨rfl, ha.answers⟩⟩

private theorem closeAssistantTurn (h : Answering t done) (markStopped : Bool) :
    ∃ new, Answering (t.closeAssistantTurn markStopped) (done ++ new) := by
  unfold Transcript.closeAssistantTurn
  split
  · have hsettle : Answering { t with settleTimer := false } done :=
      h.congr rfl rfl rfl le_rfl h.away
    have hmark := hsettle.clearSentenceHighlighting.onAssistant
      (f := .close markStopped) fun _ ↦ rfl
    exact hmark.setClosed (by simp)
  · exact ⟨[], (List.append_nil done).symm ▸ h⟩

/-- An answer that is opened is numbered beyond the others, and no variable points into it. -/
theorem openAssistantTurn (h : Answering t done) (ho : t.assistantOpen = false) :
    Answering t.openAssistantTurn done := by
  have hclear := (h.frame (leavesAnswers_beginTurn t)).clearSentenceHighlighting
  have hwrap : t.beginTurn.clearSentenceHighlighting.assistantWrap = none := by
    rw [h.opened, Option.isSome_eq_false_iff, Option.isNone_iff_eq_none] at ho
    simpa [Transcript.clearSentenceHighlighting, beginTurn] using ho
  have hcount : t.beginTurn.clearSentenceHighlighting.turnCount = t.turnCount + 1 := by
    simp [Transcript.clearSentenceHighlighting, beginTurn]
  have hans : t.beginTurn.clearSentenceHighlighting.answers = done := by
    obtain ⟨-, hans⟩ | ⟨a, ha⟩ := hclear.current
    · exact hans
    · simp [ha.wrap] at hwrap
  refine ⟨hclear.counted, hclear.away, rfl,
    .inr ⟨⟨t.beginTurn.clearSentenceHighlighting.turnCount, [], true, false⟩, rfl, ?_, ?_, le_rfl⟩⟩
  · rw [← hans]
    simp [answers, Transcript.openAssistantTurn]
  · intro a ha
    rw [hcount]
    exact Nat.lt_succ_of_le (h.counted a ha)

/-- The open answer gets one more sentence. -/
theorem appendSentence (h : Answering t done) (hn : Numbered t) (text : String) :
    Answering (t.appendSentence renderMarkdown text) done := by
  unfold Transcript.appendSentence
  split
  · next turn html hwrap hhtml =>
    have hadd := h.onAssistant (f := .addSentence t.sentenceCount html) fun _ ↦ rfl
    refine hadd.congr rfl rfl rfl le_rfl fun i hi ↦ ?_
    have hor : i = t.sentenceCount ∨ i ∈ t.refs := by
      rw [← onAssistant_refs t (.addSentence t.sentenceCount html)]
      simp only [refs, List.mem_append, Option.mem_toList] at hi ⊢
      grind
    obtain rfl | hi := hor
    · exact h.ne_sentenceCount hn
    · exact h.away i hi
  · exact h

private theorem handleAudioFrame (h : Answering t done) : Answering t.handleAudioFrame done := by
  unfold Transcript.handleAudioFrame
  split
  · next id hid =>
    refine h.congr rfl rfl rfl le_rfl fun i hi ↦ h.away i ?_
    simp only [refs, hid, List.mem_append, Option.mem_toList] at hi ⊢
    grind
  · exact h

private theorem appendAssistantChunk (h : Answering t done) (hn : Numbered t) (text : String) :
    Answering (t.appendAssistantChunk renderMarkdown text) done := by
  unfold Transcript.appendAssistantChunk
  split
  · exact h.appendSentence hn text
  · next ho =>
    have hopen := h.openAssistantTurn (by simpa using ho)
    exact hopen.appendSentence (numbered_openAssistantTurn hn) text

/-- One event may close an answer, and changes no closed one. -/
theorem step {e : TranscriptEvent} (h : Answering s done) (hn : Numbered s)
    (hs : Transcript.step renderMarkdown s e = some t) : ∃ new, Answering t (done ++ new) := by
  have hkept (ht : Answering t done) : ∃ new, Answering t (done ++ new) :=
    ⟨[], (List.append_nil done).symm ▸ ht⟩
  cases e with
  | message message =>
    obtain rfl := Option.some.inj hs
    cases message with
    | partialTranscript text turn => exact hkept (h.frame (leavesAnswers_updatePartial text s))
    | finalTranscript text turn =>
      obtain ⟨new, hnew⟩ := h.closeAssistantTurn false
      exact ⟨new, hnew.frame (leavesAnswers_commitPartial text _)⟩
    | llmChunk text turn => exact hkept (h.appendAssistantChunk hn text)
    | interrupted turn => exact h.closeAssistantTurn true
    | audioFormat format turn => exact hkept h
    | error code message => exact hkept h
  | audioFrame =>
    obtain rfl := Option.some.inj hs
    exact hkept h.handleAudioFrame
  | highlight k =>
    obtain ⟨id, hid, rfl⟩ := step_highlight hs
    have hfired : Answering { s with
        sentenceHighlightTimers := s.sentenceHighlightTimers.eraseIdx k } done := by
      refine h.congr rfl rfl rfl le_rfl fun i hi ↦ h.away i ?_
      simp only [refs, List.mem_append] at hi ⊢
      exact hi.imp_right List.mem_of_mem_eraseIdx
    exact hkept (hfired.highlightSentence (h.away id (by simp [refs, hid])))
  | settle =>
    obtain rfl := step_settle hs
    have hsettle : Answering { s with settleTimer := false } done :=
      h.congr rfl rfl rfl le_rfl h.away
    exact hkept (hsettle.onAssistant fun _ ↦ rfl)
  | close =>
    obtain rfl := Option.some.inj hs
    exact (h.frame (leavesAnswers_removePartial s)).closeAssistantTurn true

end Answering

end Transcript
end BibiCore.Site
