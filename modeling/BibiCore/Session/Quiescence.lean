import BibiCore.Session.Speech

/-!
# The stream pointers of an idle session

`activeLLMStream` and `activeTTSStream` name the streams a start has to close. They are cleared
where a `Done` is processed, where `synthesizeAndSend` comes to the end of its stream and in
`interruptCurrentTurn`; the early returns of `forwardLLMEvents`, `session.go:407`, and of
`synthesizeAndSend`, `session.go:489`, leave them alone.
-/

namespace BibiCore.Session

open BibiCore.Gateway World

/-- The goroutine is in `startLLMChat`. -/
def TranscriptsPc.inStartLLMChat : TranscriptsPc → Bool
  | .chatCheck _ _ | .chatSnapshot _ _ | .chatOpening _ _ _ | .chatFailed _ | .chatPublish _ _ =>
    true
  | .unstarted | .starting | .ranging _ | .check _ _ | .forward _ _ | .done => false

/-- `ttsWorker` is in `synthesizeAndSend`. -/
def TtsPc.inSynthesizeAndSend : TtsPc → Bool
  | .synthesize _ | .opening _ _ | .openFailed _ | .job _ _ => true
  | .idle | .got _ | .done => false

/-- `readPump` has found nothing to interrupt so far. -/
def ReadPc.Uneventful : ReadPc → Prop
  | .closeLLM _ llm tts => llm = none ∧ tts = none
  | .closeTTS _ tts interrupted => tts = none ∧ interrupted = false
  | .drain _ interrupted => interrupted = false
  | .notify _ => False
  | _ => True

namespace World

/-- Nothing that makes, queues or speaks a response is left. -/
structure NoResponseWork (w : World) : Prop where
  llm : ∀ c ∈ w.llm, c.stream.eventsClosed = true ∧ c.forwarder = .done
  chats : ∀ pc ∈ w.forwarders, pc.inStartLLMChat = false
  queue : w.ttsQueue.items = []
  speech : w.ttsWorker.inSynthesizeAndSend = false

instance (w : World) : Decidable w.NoResponseWork :=
  decidable_of_iff ((∀ c ∈ w.llm, c.stream.eventsClosed = true ∧ c.forwarder = .done) ∧
      (∀ pc ∈ w.forwarders, pc.inStartLLMChat = false) ∧ w.ttsQueue.items = [] ∧
      w.ttsWorker.inSynthesizeAndSend = false)
    ⟨fun ⟨hl, hc, hq, hs⟩ ↦ ⟨hl, hc, hq, hs⟩, fun h ↦ ⟨h.llm, h.chats, h.queue, h.speech⟩⟩

/-- The llm stream whose `forwardLLMEvents` returns in this step: its channel is closed and
empty, or the turn has moved on. -/
def forwarderReturning (w : World) : Action → Option Nat
  | .forwardLLMEvents j .next =>
    match w.llm[j]? with
    | some c =>
      match c.forwarder with
      | .ranging => if c.stream.rangeOver then some j else none
      | .check _ => if w.currentTurn ≠ c.turn then some j else none
      | _ => none
    | none => none
  | _ => none

/-- The tts stream whose `synthesizeAndSend` returns in this step from inside its range loop: the
turn has moved on, an error event was reported, or the context is done. -/
def synthesisReturning (w : World) : Action → Option Nat
  | .ttsWorker a =>
    match w.ttsWorker, a with
    | .job k (.check _ _), .next =>
      if (w.tts[k]?).map (·.job.turn) = some w.currentTurn then none else some k
    | .job k (.report _ _), .select _ => some k
    | .job k (.sendAudio _), .select .done => some k
    | _, _ => none
  | _ => none

/-- No goroutine returns early while its own stream is the published one. -/
def ClearsOnReturn (w : World) (a : Action) : Prop :=
  (w.forwarderReturning a ≠ none → w.activeLLMStream ≠ w.forwarderReturning a) ∧
    (w.synthesisReturning a ≠ none → w.activeTTSStream ≠ w.synthesisReturning a)

instance (w : World) (a : Action) : Decidable (w.ClearsOnReturn a) :=
  inferInstanceAs (Decidable ((_ → _) ∧ (_ → _)))

/-- The published llm stream has a `forwardLLMEvents` that has not returned. -/
def LlmLive (w : World) : Prop :=
  ∀ j, w.activeLLMStream = some j → ∃ c, w.llm[j]? = some c ∧ c.forwarder ≠ .done

/-- `synthesizeAndSend` is at work on the published tts stream. -/
def TtsLive (w : World) : Prop :=
  ∀ k, w.activeTTSStream = some k → w.ttsWorker.settling = none ∧ ∃ pc, w.ttsWorker = .job k pc

/-- Both pointers name streams that are at work. -/
structure PointersLive (w : World) : Prop where
  llm : w.LlmLive
  tts : w.TtsLive

/-! ### What keeps the pointers live -/

/-- A step that leaves the pointer where it was, or clears it, and lets no goroutine return. -/
theorem LlmLive.of_forwarders {w w' : World} (hw : w.LlmLive)
    (ha : w'.activeLLMStream = w.activeLLMStream ∨ w'.activeLLMStream = none)
    (hl : ∀ (j : Nat) (c : LlmCall), w.llm[j]? = some c → c.forwarder ≠ .done →
      ∃ d, w'.llm[j]? = some d ∧ d.forwarder ≠ .done) : w'.LlmLive := by
  intro j hj
  rcases ha with ha | ha
  · obtain ⟨c, hc, hd⟩ := hw j (ha.symm.trans hj)
    exact hl j c hc hd
  · rw [ha] at hj
    cases hj

/-- One call changes and its goroutine does not return. -/
theorem LlmLive.of_modify {w w' : World} {i : Nat} {g : LlmCall → LlmCall} (hw : w.LlmLive)
    (ha : w'.activeLLMStream = w.activeLLMStream ∨ w'.activeLLMStream = none)
    (hl : w'.llm = w.llm.modify i g)
    (hg : ∀ c, w.llm[i]? = some c → c.forwarder ≠ .done → (g c).forwarder ≠ .done) :
    w'.LlmLive := by
  refine hw.of_forwarders ha fun j c hc hd ↦ ?_
  rw [hl]
  by_cases hj : j = i
  · subst hj
    exact ⟨g c, List.getElem?_modify_eq_some.mpr (.inr ⟨rfl, c, hc, rfl⟩), hg c hc hd⟩
  · exact ⟨c, List.getElem?_modify_eq_some.mpr (.inl ⟨hj, hc⟩), hd⟩

/-- The llm calls stay as they were. -/
theorem LlmLive.of_same {w w' : World} (hw : w.LlmLive)
    (ha : w'.activeLLMStream = w.activeLLMStream ∨ w'.activeLLMStream = none)
    (hl : w'.llm = w.llm) : w'.LlmLive :=
  hw.of_forwarders ha fun _ c hc hd ↦ ⟨c, hl ▸ hc, hd⟩

private theorem readPump_llmLive {w w' : World} {a : ReadAction} (hw : w.LlmLive)
    (h : w.readPump a = some w') : w'.LlmLive := by
  cases readStep_of_readPump h with
  | swap => exact hw.of_same (.inr rfl) rfl
  | closeLLM turn j => exact hw.of_modify (.inl rfl) rfl fun _ _ hd ↦ hd
  | report _ _ _ _ _ hv | notify _ _ _ _ hv | openFailed _ _ _ hv =>
    obtain ⟨send, dropped, rfl, -⟩ := sendJSON_eq_some hv
    exact hw.of_same (.inl rfl) rfl
  | _ => exact hw.of_same (.inl rfl) rfl

private theorem forwardTranscripts_llmLive {w w' : World} {i : Nat} {a : TranscriptsAction}
    (hv : w.chat.Linked) (hw : w.LlmLive) (h : w.forwardTranscripts i a = some w') :
    w'.LlmLive := by
  obtain ⟨c, hc, hstep⟩ := transcriptsStep_of_forwardTranscripts h
  cases hstep with
  | startChat turn prompt history hp =>
    refine hw.of_forwarders (.inl rfl) fun j d hd hn ↦ ⟨d, ?_, hn⟩
    exact List.getElem?_concat_eq_some.mpr (.inl hd)
  | publish turn j hp hl =>
    intro k hk
    obtain rfl : j = k := Option.some.inj hk
    have hf : w.chat.forwarders[i]? = some (.chatPublish turn j) := by
      simp [World.chat, World.forwarders, hc, hp]
    obtain ⟨d, hd, -⟩ := hv.publishing i turn j hf
    exact ⟨_, List.getElem?_modify_eq_some.mpr (.inr ⟨rfl, d, hd, rfl⟩), by simp⟩
  | forward _ _ _ _ _ hs | chatFailed _ _ _ _ hs =>
    obtain ⟨send, dropped, rfl, -⟩ := sendJSON_eq_some hs
    exact hw.of_same (.inl rfl) rfl
  | _ => exact hw.of_same (.inl rfl) rfl

private theorem iff_of_stay {P : Prop} {active returning : Option Nat} (hr : returning = none)
    (hp : P) : P ↔ (returning ≠ none → active ≠ returning) :=
  ⟨fun _ hne ↦ absurd hr hne, fun _ ↦ hp⟩

private theorem forwardLLMEvents_llmLive {w w' : World} {j : Nat} {a : LlmEventsAction}
    (hw : w.LlmLive) (h : w.forwardLLMEvents j a = some w') :
    w'.LlmLive ↔ (w.forwarderReturning (.forwardLLMEvents j a) ≠ none →
      w.activeLLMStream ≠ w.forwarderReturning (.forwardLLMEvents j a)) := by
  obtain ⟨c, hc, hstep⟩ := llmEventsStep_of_forwardLLMEvents h
  have of_return (hr : w.forwarderReturning (.forwardLLMEvents j .next) = some j) :
      World.LlmLive { w with llm := w.llm.modify j LlmCall.finish } ↔
        (w.forwarderReturning (.forwardLLMEvents j .next) ≠ none →
          w.activeLLMStream ≠ w.forwarderReturning (.forwardLLMEvents j .next)) := by
    rw [hr]
    constructor
    · rintro hlive - hj
      obtain ⟨d, hd, hn⟩ := hlive j hj
      rcases List.getElem?_modify_eq_some.mp hd with ⟨hne, -⟩ | ⟨-, e, -, rfl⟩
      · exact hne rfl
      · exact hn rfl
    · intro hne k hk
      obtain ⟨d, hd, hn⟩ := hw k hk
      have hkj : k ≠ j := fun he ↦ hne (by simp) (he ▸ hk)
      exact ⟨d, List.getElem?_modify_eq_some.mpr (.inl ⟨hkj, hd⟩), hn⟩
  cases hstep with
  | rangeOver hp ho => exact of_return (by simp [forwarderReturning, hc, hp, ho])
  | stale event hp ht => exact of_return (by simp [forwarderReturning, hc, hp, ht])
  | take event s hp hs =>
    have hno : ¬ c.stream.rangeOver := fun ho ↦ by
      have hitems := (Stream.next?_eq_some hs).1
      simp [ho.2] at hitems
    exact iff_of_stay (by simp [forwarderReturning, hc, hp, hno])
      (hw.of_modify (.inl rfl) rfl (by simp))
  | pass event hp ht =>
    exact iff_of_stay (by simp [forwarderReturning, hc, hp, ht])
      (hw.of_modify (.inl rfl) rfl (by simp))
  | enqueue text q hp | dropChunk text hp =>
    exact iff_of_stay (by simp [forwarderReturning, hc, hp])
      (hw.of_modify (.inl rfl) rfl (by simp [LlmCall.offer]))
  | complete hp =>
    exact iff_of_stay (by simp [forwarderReturning, hc, hp])
      (hw.of_modify (.inr rfl) rfl (by simp [LlmCall.settle]))
  | report code message b v hp hv =>
    obtain ⟨send, dropped, rfl, -⟩ := sendJSON_eq_some hv
    exact iff_of_stay rfl (hw.of_modify (.inl rfl) rfl (by simp [LlmCall.settle]))

/-- Whatever the session does, the published llm stream stays live exactly when its goroutine does
not return. -/
theorem step_llmLive {w w' : World} {a : Action} (hv : w.chat.Linked) (hw : w.LlmLive)
    (h : system.step w a = some w') :
    w'.LlmLive ↔ (w.forwarderReturning a ≠ none →
      w.activeLLMStream ≠ w.forwarderReturning a) := by
  cases a with
  | readPump b => exact iff_of_stay rfl (readPump_llmLive hw h)
  | audioSendWorker b =>
    obtain ⟨send, dropped, queue, pc, i, g, rfl, -⟩ := audioSendWorker_footprint h
    exact iff_of_stay rfl (hw.of_same (.inl rfl) rfl)
  | forwardTranscripts i b => exact iff_of_stay rfl (forwardTranscripts_llmLive hv hw h)
  | forwardLLMEvents j b => exact forwardLLMEvents_llmLive hw h
  | ttsWorker b =>
    obtain ⟨send, dropped, queue, taken, active, pc, tts, rfl, -⟩ := ttsWorkerStep_footprint h
    exact iff_of_stay rfl (hw.of_same (.inl rfl) rfl)
  | sttRecvPump i b =>
    obtain ⟨c, s, -, -, rfl⟩ := sttRecvPump_eq_some h
    exact iff_of_stay rfl (hw.of_same (.inl rfl) rfl)
  | llmRecvPump j b =>
    obtain ⟨c, s, hc, hs, rfl⟩ := llmRecvPump_eq_some h
    exact iff_of_stay rfl (hw.of_modify (.inl rfl) rfl fun _ _ hd ↦ hd)
  | ttsRecvPump k b =>
    obtain ⟨c, s, -, -, rfl⟩ := ttsRecvPump_eq_some h
    exact iff_of_stay rfl (hw.of_same (.inl rfl) rfl)
  | write =>
    obtain ⟨send, written, rfl, -⟩ := write_eq_some h
    exact iff_of_stay rfl (hw.of_same (.inl rfl) rfl)
  | stopWriting =>
    obtain rfl := stopWriting_eq_some h
    exact iff_of_stay rfl (hw.of_same (.inl rfl) rfl)

/-- A step that leaves the pointer where it was, or clears it, while the worker stays where it
is. -/
theorem TtsLive.of_same {w w' : World} (hw : w.TtsLive)
    (ha : w'.activeTTSStream = w.activeTTSStream ∨ w'.activeTTSStream = none)
    (hp : w'.ttsWorker = w.ttsWorker) : w'.TtsLive := by
  intro k hk
  rw [hp]
  rcases ha with ha | ha
  · exact hw k (ha.symm.trans hk)
  · rw [ha] at hk
    cases hk

/-- The worker goes on inside its range loop. -/
theorem TtsLive.of_job {w w' : World} {k : Nat} {pc pc' : JobPc} (hw : w.TtsLive)
    (ha : w'.activeTTSStream = w.activeTTSStream) (hp : w.ttsWorker = .job k pc)
    (hp' : w'.ttsWorker = .job k pc') (hs : w'.ttsWorker.settling = none) : w'.TtsLive := by
  intro l hl
  obtain ⟨-, qc, hq⟩ := hw l (ha.symm.trans hl)
  obtain ⟨rfl, -⟩ : k = l ∧ pc = qc := by simpa [hp] using hq
  exact ⟨hs, pc', hp'⟩

/-- While the worker has no published stream there is none. -/
theorem TtsLive.none_of_not_job {w : World} (hw : w.TtsLive)
    (hp : ∀ k pc, w.ttsWorker = .job k pc → w.ttsWorker.settling ≠ none) :
    w.activeTTSStream = none := by
  cases ha : w.activeTTSStream with
  | none => rfl
  | some k =>
    obtain ⟨hs, pc, hk⟩ := hw k ha
    exact absurd hs (hp k pc hk)

private theorem ttsWorkerStep_ttsLive {w w' : World} {a : TtsAction} (hw : w.TtsLive)
    (h : w.ttsWorkerStep a = some w') :
    w'.TtsLive ↔ (w.synthesisReturning (.ttsWorker a) ≠ none →
      w.activeTTSStream ≠ w.synthesisReturning (.ttsWorker a)) := by
  have of_none (ha : w'.activeTTSStream = none) : w'.TtsLive := fun k hk ↦ by
    rw [ha] at hk
    cases hk
  have of_return {k : Nat} {pc : JobPc} (hp : w.ttsWorker = .job k pc)
      (hr : w.synthesisReturning (.ttsWorker a) = some k)
      (ha : w'.activeTTSStream = w.activeTTSStream) (hp' : w'.ttsWorker = .idle) :
      w'.TtsLive ↔ (w.synthesisReturning (.ttsWorker a) ≠ none →
        w.activeTTSStream ≠ w.synthesisReturning (.ttsWorker a)) := by
    rw [hr]
    constructor
    · rintro hlive - hk
      obtain ⟨-, pc', hq⟩ := hlive k (ha.trans hk)
      rw [hp'] at hq
      cases hq
    · intro hne
      refine of_none (ha.trans ?_)
      cases hact : w.activeTTSStream with
      | none => rfl
      | some l =>
        obtain ⟨-, qc, hq⟩ := hw l hact
        obtain ⟨rfl, -⟩ : k = l ∧ pc = qc := by simpa [hp] using hq
        exact absurd hact (hne (by simp))
  cases ttsStep_of_ttsWorkerStep h with
  | quit hp | dequeue _ _ hp | skipJob _ hp | startJob _ hp | loadVoice _ hp | opened _ _ hp
  | openError _ _ hp | recheckFailed _ _ hp | recheckPassed _ _ hp | closeStale _ _ hp =>
    exact iff_of_stay (by simp [synthesisReturning, hp])
      (of_none (hw.none_of_not_job (by simp [hp])))
  | openFailed job b v hp hv =>
    obtain ⟨send, dropped, rfl, -⟩ := sendJSON_eq_some hv
    exact iff_of_stay (by simp [synthesisReturning, hp])
      (of_none (hw.none_of_not_job (by simp [hp])))
  | store k c hp hc =>
    refine iff_of_stay (by simp [synthesisReturning, hp]) fun l hl ↦ ?_
    obtain rfl : k = l := Option.some.inj hl
    exact ⟨rfl, _, rfl⟩
  | take k c sent chunk s hp | rangeOver k c sent hp =>
    exact iff_of_stay (by simp [synthesisReturning, hp]) (hw.of_job rfl hp rfl rfl)
  | stopStale k c sent chunk hp hc ht =>
    exact of_return hp (by simp [synthesisReturning, hp, hc, Ne.symm ht]) rfl rfl
  | gotError k c sent code message hp hc ht =>
    exact iff_of_stay (by simp [synthesisReturning, hp, hc, ht]) (hw.of_job rfl hp rfl rfl)
  | gotAudio k c sent data format hp hc ht =>
    exact iff_of_stay (by simp [synthesisReturning, hp, hc, ht])
      (hw.of_job rfl hp rfl (by cases sent <;> rfl))
  | report k c code message b v hp hc hv =>
    obtain ⟨send, dropped, rfl, -⟩ := sendJSON_eq_some hv
    exact of_return hp (by simp [synthesisReturning, hp]) rfl rfl
  | sendText k c data format b v hp hc hv | sendFormat k c data format b v hp hc hv =>
    obtain ⟨send, dropped, rfl, -⟩ := sendJSON_eq_some hv
    exact iff_of_stay (by simp [synthesisReturning, hp]) (hw.of_job rfl hp rfl rfl)
  | sendAudio k c data q hp =>
    exact iff_of_stay (by simp [synthesisReturning, hp]) (hw.of_job rfl hp rfl rfl)
  | sendDone k c data hp => exact of_return hp (by simp [synthesisReturning, hp]) rfl rfl
  | clear k c hp =>
    refine iff_of_stay (by simp [synthesisReturning, hp]) (of_none ?_)
    cases hact : w.activeTTSStream with
    | none => simp
    | some l =>
      obtain ⟨-, qc, hq⟩ := hw l hact
      obtain ⟨rfl, -⟩ : k = l ∧ .clear = qc := by simpa [hp] using hq
      simp

/-- Whatever the session does, the published tts stream stays live exactly when
`synthesizeAndSend` does not return early. -/
theorem step_ttsLive {w w' : World} {a : Action} (hw : w.TtsLive)
    (h : system.step w a = some w') :
    w'.TtsLive ↔ (w.synthesisReturning a ≠ none →
      w.activeTTSStream ≠ w.synthesisReturning a) := by
  cases a with
  | ttsWorker b => exact ttsWorkerStep_ttsLive hw h
  | readPump b =>
    have hp := (step_elsewhere h (by simp)).1
    refine iff_of_stay rfl (hw.of_same ?_ hp)
    exact (readPump_activeTTS h).imp id fun ha ↦ ha.2.2
  | forwardTranscripts i b =>
    obtain ⟨c, send, dropped, active, llm, g, -, rfl, -⟩ := forwardTranscripts_footprint h
    exact iff_of_stay rfl (hw.of_same (.inl rfl) rfl)
  | forwardLLMEvents j b =>
    obtain ⟨send, dropped, active, queue, history, answered, g, rfl, -⟩ :=
      forwardLLMEvents_footprint h
    exact iff_of_stay rfl (hw.of_same (.inl rfl) rfl)
  | audioSendWorker | sttRecvPump | llmRecvPump | ttsRecvPump | write | stopWriting =>
    have same := step_sameTurn h trivial
    exact iff_of_stay rfl (hw.of_same (.inl same.tts) same.ttsWorker)

/-- A step keeps the pointers live exactly when no goroutine returns early while its own stream
is the published one. -/
theorem step_pointersLive {w w' : World} {a : Action} (hr : system.Reachable w)
    (hw : w.PointersLive) (h : system.step w a = some w') :
    w'.PointersLive ↔ w.ClearsOnReturn a := by
  have hllm := step_llmLive (linked_of_reachable hr) hw.llm h
  have htts := step_ttsLive hw.tts h
  exact ⟨fun hw' ↦ ⟨hllm.mp hw'.llm, htts.mp hw'.tts⟩,
    fun hc ↦ ⟨hllm.mpr hc.1, htts.mpr hc.2⟩⟩

private theorem pointersLive_new : World.new.PointersLive :=
  ⟨fun _ hj ↦ (nomatch hj), fun _ hk ↦ (nomatch hk)⟩

/-- Every published stream is at work in all states of a run exactly when no step of it is an early
return that leaves its own stream published. -/
theorem pointersLive_iff_clearsOnReturn {as : List Action} {w : World}
    (h : system.run as = some w) :
    system.Always PointersLive World.new as ↔ system.Along ClearsOnReturn World.new as :=
  TransitionSystem.always_iff_along pointersLive_new
    (fun _ _ _ hr hw hs ↦ step_pointersLive hr hw hs) h

/-- Live pointers of a session without response work are nil. -/
theorem PointersLive.nil_of_noResponseWork {w : World} (hw : w.PointersLive)
    (hn : w.NoResponseWork) : w.activeLLMStream = none ∧ w.activeTTSStream = none := by
  constructor
  · cases ha : w.activeLLMStream with
    | none => rfl
    | some j =>
      obtain ⟨c, hc, hd⟩ := hw.llm j ha
      exact absurd (hn.llm c (List.mem_of_getElem? hc)).2 hd
  · cases ha : w.activeTTSStream with
    | none => rfl
    | some k =>
      obtain ⟨-, pc, hp⟩ := hw.tts k ha
      have hs := hn.speech
      simp [hp, TtsPc.inSynthesizeAndSend] at hs

/-! ### A start that finds nothing -/

/-- The turns of the `interrupted` messages put so far. -/
def notices (w : World) : List Nat :=
  w.puts.filterMap fun p ↦
    match p.message with
    | .text (.interrupted turn) => some turn
    | _ => none

/-- Both pointers are nil and `readPump` has found nothing to interrupt. -/
structure Calm (w : World) : Prop where
  llm : w.activeLLMStream = none
  tts : w.activeTTSStream = none
  reader : w.reader.Uneventful

private theorem notices_of_new {w w' : World} {new : List Put} (hp : w'.puts = w.puts ++ new)
    (hn : ∀ p ∈ new, ∀ turn, p.message ≠ .text (.interrupted turn)) : w'.notices = w.notices := by
  have hnil : (new.filterMap fun p ↦
      match p.message with
      | .text (.interrupted turn) => some turn
      | _ => none) = [] := by
    refine List.filterMap_eq_nil_iff.mpr fun p hm ↦ ?_
    split
    · next turn he => exact absurd he (hn p hm turn)
    · rfl
  rw [notices, notices, hp, List.filterMap_append, hnil, List.append_nil]

private theorem readPump_calm {w w' : World} {a : ReadAction} (hw : w.Calm)
    (hq : w.ttsQueue.items = []) (h : w.readPump a = some w') :
    w'.Calm ∧ ∀ turn, w.notifying (.readPump a) ≠ some turn := by
  have hcalm := hw.reader
  cases readStep_of_readPump h with
  | swap turn hr => exact ⟨⟨rfl, rfl, hw.llm, hw.tts⟩, by simp [notifying]⟩
  | closeLLM turn j tts hr => simp [hr, ReadPc.Uneventful] at hcalm
  | closeTTS turn k b hr => simp [hr, ReadPc.Uneventful] at hcalm
  | drainJob turn b job q hr hi => simp [hq] at hi
  | interrupted turn hr => simp [hr, ReadPc.Uneventful] at hcalm
  | notify turn b v hr => simp [hr, ReadPc.Uneventful] at hcalm
  | noLLM turn tts hr =>
    rw [hr] at hcalm
    exact ⟨⟨hw.llm, hw.tts, hcalm.2, rfl⟩, by simp [notifying]⟩
  | noTTS turn b hr =>
    rw [hr] at hcalm
    exact ⟨⟨hw.llm, hw.tts, hcalm.2⟩, by simp [notifying]⟩
  | report _ _ b _ hr hv | openFailed b _ hr hv =>
    obtain ⟨send, dropped, rfl, -⟩ := sendJSON_eq_some hv
    refine ⟨⟨hw.llm, hw.tts, trivial⟩, fun turn ↦ ?_⟩
    cases b <;> simp [notifying, hr]
  | enqueueFinish _ _ hr => exact ⟨⟨hw.llm, hw.tts, trivial⟩, by simp [notifying, hr]⟩
  | setVoice | noUtterance => exact ⟨⟨hw.llm, hw.tts, hcalm⟩, by simp [notifying]⟩
  | _ => exact ⟨⟨hw.llm, hw.tts, trivial⟩, by simp [notifying]⟩

private theorem ttsWorkerStep_calm {w w' : World} {a : TtsAction} (hw : w.Calm)
    (hn : w.NoResponseWork) (h : w.ttsWorkerStep a = some w') :
    w'.Calm ∧ w'.notices = w.notices := by
  have hspeech := hn.speech
  cases ttsStep_of_ttsWorkerStep h with
  | quit | skipJob | startJob => exact ⟨⟨hw.llm, hw.tts, hw.reader⟩, rfl⟩
  | dequeue job q hp hq => simp [hn.queue] at hq
  | loadVoice _ hp | opened _ _ hp | openError _ _ hp | openFailed _ _ _ hp
  | recheckFailed _ _ hp | recheckPassed _ _ hp | store _ _ hp | closeStale _ _ hp
  | take _ _ _ _ _ hp | rangeOver _ _ _ hp | stopStale _ _ _ _ hp | gotError _ _ _ _ _ hp
  | gotAudio _ _ _ _ _ hp | report _ _ _ _ _ _ hp | sendText _ _ _ _ _ _ hp
  | sendFormat _ _ _ _ _ _ hp | sendAudio _ _ _ _ hp | sendDone _ _ _ hp | clear _ _ hp =>
    simp [hp, TtsPc.inSynthesizeAndSend] at hspeech

private theorem forwardTranscripts_calm {w w' : World} {i : Nat} {a : TranscriptsAction}
    (hw : w.Calm) (hn : w.NoResponseWork) (h : w.forwardTranscripts i a = some w') : w'.Calm := by
  obtain ⟨c, hc, hstep⟩ := transcriptsStep_of_forwardTranscripts h
  cases hstep with
  | publish turn j hp =>
    have hin := hn.chats c.forwarder (List.mem_map_of_mem (List.mem_of_getElem? hc))
    simp [hp, TranscriptsPc.inStartLLMChat] at hin
  | forward _ _ _ _ _ hs | chatFailed _ _ _ _ hs =>
    obtain ⟨send, dropped, rfl, -⟩ := sendJSON_eq_some hs
    exact ⟨hw.llm, hw.tts, hw.reader⟩
  | _ => exact ⟨hw.llm, hw.tts, hw.reader⟩

private theorem forwardLLMEvents_not_enabled {w : World} {j : Nat} {a : LlmEventsAction}
    (hn : w.NoResponseWork) : w.forwardLLMEvents j a = none := by
  cases h : w.forwardLLMEvents j a with
  | none => rfl
  | some w' =>
    obtain ⟨c, hc, hstep⟩ := llmEventsStep_of_forwardLLMEvents h
    have hd := (hn.llm c (List.mem_of_getElem? hc)).2
    cases hstep with
    | take _ _ hp | rangeOver hp | stale _ hp | pass _ hp | enqueue _ _ hp | dropChunk _ hp
    | complete hp | report _ _ _ _ hp => simp [hd] at hp

/-- A step of a session without response work keeps it calm and puts no `interrupted` message. -/
theorem Calm.step {w w' : World} {a : Action} (hw : w.Calm) (hn : w.NoResponseWork)
    (h : system.step w a = some w') : w'.Calm ∧ w'.notices = w.notices := by
  have of_elsewhere (ha : ∀ b, a ≠ .ttsWorker b) (hno : ∀ turn, w.notifying a ≠ some turn)
      (hw' : w'.Calm) : w'.Calm ∧ w'.notices = w.notices := by
    obtain ⟨-, new, hp, hnew⟩ := step_elsewhere h ha
    refine ⟨hw', notices_of_new hp fun p hm turn he ↦ ?_⟩
    exact hno turn ((hnew p hm).interrupted turn he)
  cases a with
  | ttsWorker b => exact ttsWorkerStep_calm hw hn h
  | readPump b =>
    obtain ⟨hw', hno⟩ := readPump_calm hw hn.queue h
    exact of_elsewhere (by simp) hno hw'
  | forwardTranscripts i b =>
    exact of_elsewhere (by simp) (by simp [notifying]) (forwardTranscripts_calm hw hn h)
  | forwardLLMEvents j b =>
    have hno : w.forwardLLMEvents j b = some w' := h
    rw [forwardLLMEvents_not_enabled hn] at hno
    cases hno
  | audioSendWorker | sttRecvPump | llmRecvPump | ttsRecvPump | write | stopWriting =>
    have same := step_sameTurn h trivial
    exact of_elsewhere (by simp) (by simp [notifying])
      ⟨same.llm.trans hw.llm, same.tts.trans hw.tts, same.reader ▸ hw.reader⟩

/-- A run that never has response work puts no `interrupted` message. -/
theorem Calm.run {w u : World} {as : List Action} (hw : w.Calm)
    (hn : system.Always NoResponseWork w as) (h : system.runFrom w as = some u) :
    u.notices = w.notices := by
  induction as generalizing w with
  | nil =>
    obtain rfl : w = u := Option.some.inj h
    rfl
  | cons a as ih =>
    rw [TransitionSystem.runFrom_cons] at h
    obtain ⟨m, hm, h⟩ := Option.bind_eq_some_iff.mp h
    obtain ⟨hcalm, hnotices⟩ := hw.step hn.1 hm
    exact (ih hcalm (hn.2 m hm) h).trans hnotices

end World

/-- In a run in which no goroutine returns early while its own stream is the published one, both
pointers are nil whenever no response work exists; a start that arrives then puts no `interrupted`
message as long as none begins. -/
theorem pointers_nil_of_clearsOnReturn (w : World)
    (hr : system.ReachableWith World.ClearsOnReturn w) (hn : w.NoResponseWork) :
    w.activeLLMStream = none ∧ w.activeTTSStream = none ∧
      ∀ as u, w.reader = .idle → system.runFrom w as = some u →
        system.Always World.NoResponseWork w as → u.notices = w.notices := by
  have hlive : w.PointersLive := hr.invariant pointersLive_new
    fun v a v' hv hp hc hs ↦ (step_pointersLive hv.reachable hp hs).mpr hc
  obtain ⟨hllm, htts⟩ := hlive.nil_of_noResponseWork hn
  refine ⟨hllm, htts, fun as u hidle hrun halways ↦ ?_⟩
  have hcalm : w.Calm := ⟨hllm, htts, by rw [hidle]; trivial⟩
  exact hcalm.run halways hrun

/-- The backend of llm stream `j` ends the generation with `DONE` and closes the stream. -/
def doneActions (j : Nat) : List Action :=
  [Action.llmRecvPump j (.message ⟨.done, "", "", ""⟩), .llmRecvPump j .next] ++
    List.replicate 3 (Action.forwardLLMEvents j .next) ++
    [Action.llmRecvPump j .eof, .llmRecvPump j .next, .forwardLLMEvents j .next]

/-- The backend of llm stream `j` ends the generation with `ERROR` and closes the stream. -/
def failActions (j : Nat) : List Action :=
  [.llmRecvPump j (.message ⟨.error, "", "internal_error", "boom"⟩), .llmRecvPump j .next,
    .forwardLLMEvents j .next, .forwardLLMEvents j .next, .forwardLLMEvents j (.select .put),
    .llmRecvPump j .eof, .llmRecvPump j .next, .forwardLLMEvents j .next]

/-- `ttsWorker` opens and publishes stream `k`, whose call ends with `a`. -/
def speechEndActions (k : Nat) (a : PumpAction Proto.TtsAudioChunkMsg) : List Action :=
  [.ttsWorker .dequeue, .ttsWorker .next, .ttsWorker .next, .ttsWorker .startOk, .ttsWorker .next,
    .ttsWorker .next, .ttsRecvPump k a, .ttsRecvPump k .next]

/-- A turn that is answered and spoken to the end, and the start that follows it. -/
theorem pointers_nil_of_clearsOnReturn_answered : ∃ w : World, w.answered = [0] ∧
    w.NoResponseWork ∧ w.activeLLMStream = none ∧ w.activeTTSStream = none ∧
      ∀ as u, w.reader = .idle → system.runFrom w as = some u →
        system.Always World.NoResponseWork w as → u.notices = w.notices := by
  have hw : ∃ w, system.runGuarded World.ClearsOnReturn World.new
      (startActions ++ finalActions 0 "hi" ++ [Action.forwardTranscripts 0 .next] ++
        chunkActions 0 "Hello." ++ doneActions 0 ++ speechEndActions 0 .eof ++
        [Action.ttsWorker .next, .ttsWorker .next]) = some w ∧ w.answered = [0] ∧
      w.NoResponseWork :=
    ⟨_, rfl, rfl, by decide⟩
  obtain ⟨w, hrun, ha, hn⟩ := hw
  exact ⟨w, ha, hn, pointers_nil_of_clearsOnReturn w
    (TransitionSystem.ReachableWith.runGuarded .init hrun) hn⟩

/-- An answer that ends with an error event, and speech that fails in a turn whose answer is
complete: nothing is at work, the dead stream is published, and the start that follows puts
`interrupted`. -/
theorem not_pointers_nil :
    (∃ w, system.run (startActions ++ finalActions 0 "hi" ++ [Action.forwardTranscripts 0 .next] ++
        failActions 0) = some w ∧
      w.NoResponseWork ∧ w.activeLLMStream = some 0 ∧ w.notices = [] ∧
      ∃ u, system.runFrom w (bargeInActions .put) = some u ∧ u.notices = [2]) ∧
    ∃ w, system.run (startActions ++ finalActions 0 "hi" ++ [Action.forwardTranscripts 0 .next] ++
        chunkActions 0 "Hello." ++ doneActions 0 ++ speechEndActions 0 (.error "unavailable") ++
        [Action.ttsRecvPump 0 .next, .ttsRecvPump 0 .next, .ttsWorker .next, .ttsWorker .next,
          .ttsWorker (.select .put)]) = some w ∧
      w.NoResponseWork ∧ w.activeTTSStream = some 0 ∧ w.notices = [] ∧
      ∃ u, system.runFrom w (bargeInActions .put) = some u ∧ u.notices = [2] :=
  ⟨⟨_, rfl, by decide, rfl, rfl, _, rfl, rfl⟩, ⟨_, rfl, by decide, rfl, rfl, _, rfl, rfl⟩⟩

end BibiCore.Session
