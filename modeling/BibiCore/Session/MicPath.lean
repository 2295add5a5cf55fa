import BibiCore.Session.Footprint

/-!
# The way of the microphone audio

From `readPump` over `audioQueue` to `SendAudio`: `session.go:185`–`236` and `527`. A frame
carries no stream; `audioSendWorker` uses whichever stream is stored when it looks.
-/

namespace BibiCore.Session

open BibiCore.Gateway World

/-- The frames passed to each stream's `SendAudio`, and those that made the worker call its
`CloseSend`, were put on `audioQueue` while `sttStream` held that stream. -/
def FramesStayOnStream (w : World) : Prop :=
  ∀ (i : Nat) (c : SttCall), w.stt[i]? = some c →
    (∀ f ∈ c.passed, f.enqueuedFor = i) ∧ ∀ f ∈ c.closeSends, f.enqueuedFor = i

/-- `startStream` is about to store a newly opened stream. -/
def ReadPc.storing : ReadPc → Bool
  | .store _ => true
  | _ => false

/-- The worker has dequeued a frame and not yet looked up the stream. -/
def AudioPc.holding : AudioPc → Bool
  | .got _ => true
  | _ => false

/-- No frame is waiting, in the queue or in the worker's hand, when a start stores its new
stream. -/
def StoresOnEmptyQueue (w : World) (a : Action) : Prop :=
  w.reader.storing = true → a = .readPump .next →
    w.audioQueue.items = [] ∧ w.audioWorker.holding = false

instance (w : World) (a : Action) : Decidable (StoresOnEmptyQueue w a) :=
  inferInstanceAs (Decidable (_ → _ → _))

/-! ### What a step does to the path -/

/-- The frames a stream has been given. -/
def SttCall.given (c : SttCall) : List AudioFrame × List AudioFrame × List AudioFrame :=
  (c.passed, c.sent, c.closeSends)

/-- Every stream has been given what it had before the step, or is new and was given
nothing. -/
def GivesNothing (w w' : World) : Prop :=
  ∀ (i : Nat) (d : SttCall), w'.stt[i]? = some d →
    d.given = ([], [], []) ∨ ∃ c, w.stt[i]? = some c ∧ d.given = c.given

/-- A step that keeps every call's send side gives nothing. -/
theorem givesNothing_of_map {w w' : World} (h : w'.stt.map sendSide = w.stt.map sendSide) :
    GivesNothing w w' := by
  intro i d hd
  have hi := congrArg (·[i]?) h
  simp only [List.getElem?_map, hd, Option.map_some] at hi
  obtain ⟨c, hc, he⟩ := Option.map_eq_some_iff.mp hi.symm
  refine .inr ⟨c, hc, ?_⟩
  simp only [sendSide, Prod.mk.injEq] at he
  simp [SttCall.given, he]

private theorem givesNothing_modify {w w' : World} {i : Nat} {g : SttCall → SttCall}
    (h : w'.stt = w.stt.modify i g) (hg : ∀ c, (g c).given = c.given) : GivesNothing w w' := by
  intro k d hd
  rw [h] at hd
  rcases List.getElem?_modify_eq_some.mp hd with ⟨_, hd⟩ | ⟨rfl, c, hc, rfl⟩
  · exact .inr ⟨d, hd, rfl⟩
  · exact .inr ⟨c, hc, hg c⟩

/-- What a step of `readPump` does to the path: it enqueues the frame it holds, stores a
stream, forgets the stream, or leaves the path alone. -/
inductive ReadMic (w w' : World) : Prop
  | enqueue (f : AudioFrame) (hr : w.reader = .offer f ∨ w.reader = .finish f)
      (hq : w'.audioQueue.items = w.audioQueue.items ++ [f]) (hs : w'.sttStream = w.sttStream)
      (hi : w'.reader = .idle)
  | store (i : Nat) (hr : w.reader = .store i) (hq : w'.audioQueue = w.audioQueue)
      (hs : w'.sttStream = some i) (hi : w'.reader = .idle)
  | forget (hq : w'.audioQueue = w.audioQueue) (hs : w'.sttStream = none) (hi : w'.reader = .idle)
  | keep (hq : w'.audioQueue = w.audioQueue) (hs : w'.sttStream = w.sttStream)
      (hi : ∀ f, w'.reader = .offer f ∨ w'.reader = .finish f → w.sttStream = some f.enqueuedFor)

/-- What `readPump` does on the way of the microphone's frames. -/
theorem readPump_mic {w w' : World} {a : ReadAction} (h : w.readPump a = some w') :
    w'.audioWorker = w.audioWorker ∧ GivesNothing w w' ∧ ReadMic w w' := by
  have same {w' : World} (hs : w'.stt = w.stt) : GivesNothing w w' :=
    givesNothing_of_map (congrArg (List.map sendSide) hs)
  cases readStep_of_readPump h with
  | audio _ i _ hs | endUtterance i _ hs => exact ⟨rfl, same rfl, .keep rfl rfl (by simp [hs])⟩
  | setVoice _ hr | noUtterance hr => exact ⟨rfl, same rfl, .keep rfl rfl (by simp [hr])⟩
  | enqueue f q hr hq =>
    exact ⟨rfl, same rfl, .enqueue f (.inl hr) (Chan.send?_eq_some.mp hq).2 rfl rfl⟩
  | enqueueFinish f q hr hq =>
    exact ⟨rfl, same rfl, .enqueue f (.inr hr) (Chan.send?_eq_some.mp hq).2 rfl rfl⟩
  | closeOld => exact ⟨rfl, givesNothing_modify rfl fun _ ↦ rfl, .keep rfl rfl (by simp)⟩
  | opened =>
    refine ⟨rfl, fun k d hd ↦ ?_, .keep rfl rfl (by simp)⟩
    rcases List.getElem?_concat_eq_some.mp hd with hd | ⟨_, rfl⟩
    · exact .inr ⟨d, hd, rfl⟩
    · exact .inl rfl
  | storeNil => exact ⟨rfl, same rfl, .forget rfl rfl rfl⟩
  | store i hr => exact ⟨rfl, givesNothing_modify rfl fun _ ↦ rfl, .store i hr rfl rfl rfl⟩
  | report _ _ _ _ _ hv | notify _ _ _ _ hv | openFailed _ _ _ hv =>
    obtain ⟨send, dropped, rfl, -⟩ := sendJSON_eq_some hv
    exact ⟨rfl, same rfl, .keep rfl rfl (by simp)⟩
  | noStream | malformed | other | start | readError | dropFrame | addTurn | swap | closeLLM
  | noLLM | closeTTS | noTTS | drainJob | interrupted | notInterrupted | noOld | openError
  | finishDone | returned => exact ⟨rfl, same rfl, .keep rfl rfl (by simp)⟩

/-! ### The invariant of the path -/

/-- A frame `readPump` is about to enqueue is tagged with the stream `sttStream` holds: the
history field means what it says. -/
def TagsCurrent (w : World) : Prop :=
  ∀ f, w.reader = .offer f ∨ w.reader = .finish f → w.sttStream = some f.enqueuedFor

/-- Every frame on its way belongs to the stream it will meet. -/
structure OnStream (w : World) : Prop where
  queue : ∀ i, w.sttStream = some i → ∀ f ∈ w.audioQueue.items, f.enqueuedFor = i
  held : ∀ f i, w.audioWorker = .got f → w.sttStream = some i → f.enqueuedFor = i
  looked : ∀ f i, w.audioWorker = .check f i ∨ w.audioWorker = .sending f i ∨
    w.audioWorker = .closeSend f i → f.enqueuedFor = i
  calls : FramesStayOnStream w

/-- Giving nothing keeps every frame on its stream. -/
theorem FramesStayOnStream.of_givesNothing {w w' : World} (hw : FramesStayOnStream w)
    (hg : GivesNothing w w') : FramesStayOnStream w' := by
  intro i d hd
  rcases hg i d hd with he | ⟨c, hc, he⟩
  · simp only [SttCall.given, Prod.mk.injEq] at he
    simp [he]
  · simp only [SttCall.given, Prod.mk.injEq] at he
    rw [he.1, he.2.2]
    exact hw i c hc

/-- A step that leaves the queue, the stored stream and the worker alone and gives nothing. -/
theorem OnStream.of_same {w w' : World} (hw : OnStream w) (hq : w'.audioQueue = w.audioQueue)
    (hs : w'.sttStream = w.sttStream) (ha : w'.audioWorker = w.audioWorker)
    (hg : GivesNothing w w') : OnStream w' where
  queue := by rw [hq, hs]; exact hw.queue
  held := by rw [ha, hs]; exact hw.held
  looked := by rw [ha]; exact hw.looked
  calls := hw.calls.of_givesNothing hg

/-- `readPump` keeps the frames on the stream of their utterance. -/
theorem OnStream.readPump {w w' : World} {a : ReadAction} (hw : OnStream w) (ht : TagsCurrent w)
    (hp : StoresOnEmptyQueue w (.readPump a)) (h : w.readPump a = some w') : OnStream w' := by
  obtain ⟨ha, hg, hm⟩ := readPump_mic h
  cases hm with
  | enqueue f hr hq hs =>
    have htag := ht f hr
    refine ⟨fun i hi g hg ↦ ?_, by rw [ha, hs]; exact hw.held, by rw [ha]; exact hw.looked,
      hw.calls.of_givesNothing hg⟩
    rw [hs] at hi
    rw [hq] at hg
    rcases List.mem_append.mp hg with hg | hg
    · exact hw.queue i hi g hg
    · rw [List.mem_singleton.mp hg]
      exact Option.some.inj (htag.symm.trans hi)
  | store i hr hq hs =>
    obtain ⟨hempty, hfree⟩ := hp (by rw [hr]; rfl) (by
      unfold World.readPump at h
      cases a <;> simp [hr] at h ⊢)
    refine ⟨fun j _ f hf ↦ ?_, fun f j hgot _ ↦ ?_, by rw [ha]; exact hw.looked,
      hw.calls.of_givesNothing hg⟩
    · rw [hq, hempty] at hf
      cases hf
    · rw [ha] at hgot
      rw [hgot] at hfree
      cases hfree
  | forget hq hs =>
    refine ⟨fun i hi ↦ ?_, fun f i _ hi ↦ ?_, by rw [ha]; exact hw.looked,
      hw.calls.of_givesNothing hg⟩
    · rw [hs] at hi
      cases hi
    · rw [hs] at hi
      cases hi
  | keep hq hs => exact hw.of_same hq hs ha hg

private theorem frames_modify {w : World} {i : Nat} {g : SttCall → SttCall}
    (hw : FramesStayOnStream w)
    (hg : ∀ c, w.stt[i]? = some c →
      (∀ f ∈ (g c).passed, f ∈ c.passed ∨ f.enqueuedFor = i) ∧
        ∀ f ∈ (g c).closeSends, f ∈ c.closeSends ∨ f.enqueuedFor = i) :
    FramesStayOnStream { w with stt := w.stt.modify i g } := by
  intro k d hd
  rcases List.getElem?_modify_eq_some.mp hd with ⟨_, hd⟩ | ⟨rfl, c, hc, rfl⟩
  · exact hw k d hd
  · obtain ⟨hp, hs⟩ := hg c hc
    refine ⟨fun f hf ↦ ?_, fun f hf ↦ ?_⟩
    · exact (hp f hf).elim ((hw k c hc).1 f) id
    · exact (hs f hf).elim ((hw k c hc).2 f) id

/-- `audioSendWorker` keeps the frames on the stream of their utterance. -/
theorem OnStream.audioSendWorker {w w' : World} {a : AudioAction} (hw : OnStream w)
    (h : w.audioSendWorker a = some w') : OnStream w' := by
  cases audioStep_of_audioSendWorker h with
  | quit | noStream => exact ⟨hw.queue, by simp, by simp, hw.calls⟩
  | dequeue frame q hp hq =>
    refine ⟨fun i hi f hf ↦ hw.queue i hi f ?_, fun f i hf hi ↦ ?_, by simp, hw.calls⟩
    · rw [hq]
      exact List.mem_cons_of_mem _ hf
    · cases hf
      exact hw.queue i hi _ (by rw [hq]; exact List.mem_cons_self)
  | pass frame i hp hi =>
    have htag := hw.held frame i hp hi
    refine ⟨hw.queue, by simp, by simp [htag], frames_modify hw.calls fun c _ ↦ ?_⟩
    simp +contextual [SttCall.pass, or_imp, htag]
  | check frame i hp =>
    have htag := hw.looked frame i (.inl hp)
    refine ⟨hw.queue, ?_, ?_, hw.calls⟩ <;> split <;> simp [htag]
  | sendOk frame i hp =>
    have htag := hw.looked frame i (.inr (.inl hp))
    refine ⟨hw.queue, ?_, ?_, frames_modify hw.calls fun c _ ↦ ?_⟩
    · split <;> simp
    · split <;> simp [htag]
    · simp +contextual [SttCall.accept]
  | sendError => refine ⟨hw.queue, ?_, ?_, hw.calls⟩ <;> split <;> simp
  | report message b v hp hv =>
    obtain ⟨send, dropped, rfl, -⟩ := sendJSON_eq_some hv
    exact ⟨hw.queue, by simp, by simp, hw.calls⟩
  | closeSend frame i hp =>
    have htag := hw.looked frame i (.inr (.inr hp))
    refine ⟨hw.queue, by simp, by simp, frames_modify hw.calls fun c _ ↦ ?_⟩
    simp +contextual [SttCall.closeSend, or_imp, htag]

/-- The goroutines other than `readPump` and `audioSendWorker` leave the path alone. -/
theorem step_mic_same {w w' : World} {a : Action} (h : system.step w a = some w')
    (hr : ∀ b, a ≠ .readPump b) (ha : ∀ b, a ≠ .audioSendWorker b) :
    w'.audioQueue = w.audioQueue ∧ w'.sttStream = w.sttStream ∧
      w'.audioWorker = w.audioWorker ∧ w'.reader = w.reader ∧ GivesNothing w w' := by
  cases a with
  | readPump b => exact absurd rfl (hr b)
  | audioSendWorker b => exact absurd rfl (ha b)
  | forwardTranscripts i b =>
    obtain ⟨c, send, dropped, active, llm, g, hc, rfl, -, -, hg, -⟩ :=
      forwardTranscripts_footprint h
    refine ⟨rfl, rfl, rfl, rfl, givesNothing_of_map (List.map_modify_of_eq fun d hd ↦ ?_)⟩
    rwa [← Option.some.inj (hc.symm.trans hd)]
  | forwardLLMEvents j b =>
    obtain ⟨send, dropped, active, queue, history, answered, g, rfl, -⟩ :=
      forwardLLMEvents_footprint h
    exact ⟨rfl, rfl, rfl, rfl, givesNothing_of_map rfl⟩
  | ttsWorker b =>
    obtain ⟨send, dropped, queue, taken, active, pc, tts, rfl, -⟩ := ttsWorkerStep_footprint h
    exact ⟨rfl, rfl, rfl, rfl, givesNothing_of_map rfl⟩
  | sttRecvPump i b =>
    obtain ⟨c, s, -, -, rfl⟩ := sttRecvPump_eq_some h
    exact ⟨rfl, rfl, rfl, rfl, givesNothing_modify rfl fun _ ↦ rfl⟩
  | llmRecvPump j b =>
    obtain ⟨c, s, -, -, rfl⟩ := llmRecvPump_eq_some h
    exact ⟨rfl, rfl, rfl, rfl, givesNothing_of_map rfl⟩
  | ttsRecvPump k b =>
    obtain ⟨c, s, -, -, rfl⟩ := ttsRecvPump_eq_some h
    exact ⟨rfl, rfl, rfl, rfl, givesNothing_of_map rfl⟩
  | write =>
    obtain ⟨send, written, rfl, -⟩ := write_eq_some h
    exact ⟨rfl, rfl, rfl, rfl, givesNothing_of_map rfl⟩
  | stopWriting =>
    obtain rfl := stopWriting_eq_some h
    exact ⟨rfl, rfl, rfl, rfl, givesNothing_of_map rfl⟩

/-- In every run, the tag of the frame `readPump` holds is the stored stream. -/
theorem tagsCurrent_of_reachable {w : World} (hr : system.Reachable w) : TagsCurrent w := by
  refine hr.invariant (I := TagsCurrent) (by simp [TagsCurrent, system, World.new]) ?_
  intro w a w' _ ht h f hf
  cases a with
  | readPump b =>
    obtain ⟨-, -, hm⟩ := readPump_mic h
    cases hm with
    | keep _ hs hi => rw [hs, hi f hf]
    | enqueue _ _ _ _ hi | store _ _ _ _ hi | forget _ _ hi => simp [hi] at hf
  | audioSendWorker b =>
    obtain ⟨send, dropped, queue, pc, i, g, rfl, -⟩ := audioSendWorker_footprint h
    exact ht f hf
  | _ =>
    obtain ⟨-, hs, -, hi, -⟩ := step_mic_same h (by simp) (by simp)
    rw [hi] at hf
    rw [hs]
    exact ht f hf

/-- As long as no start stores its stream over a waiting frame, every frame reaches only the
stream it was enqueued for. -/
theorem framesStayOnStream_of_storesOnEmptyQueue (w : World)
    (hr : system.ReachableWith StoresOnEmptyQueue w) : FramesStayOnStream w := by
  suffices OnStream w from this.calls
  refine hr.invariant (I := OnStream) ?_ ?_
  · constructor <;> simp [system, World.new, FramesStayOnStream]
  · intro w a w' hr hw hp h
    cases a with
    | readPump b => exact hw.readPump (tagsCurrent_of_reachable hr.reachable) hp h
    | audioSendWorker b => exact hw.audioSendWorker h
    | _ =>
      obtain ⟨hq, hs, ha, -, hg⟩ := step_mic_same h (by simp) (by simp)
      exact hw.of_same hq hs ha hg

/-- One start, one frame of audio, the end marker, and the worker sends both and half-closes:
the stream is given exactly its own frames. -/
theorem framesStayOnStream_of_storesOnEmptyQueue_run :
    ∃ w c, FramesStayOnStream w ∧ w.stt[0]? = some c ∧ c.closeSends.length = 1 := by
  have hw : ∃ w, system.runGuarded StoresOnEmptyQueue system.init (startActions ++
      [Action.readPump (.frame (.binary [0, 0])), .readPump .next,
        .readPump (.frame (.text .endUtterance)), .readPump (.select .put)] ++
      [Action.audioSendWorker .dequeue, .audioSendWorker .next, .audioSendWorker .next,
        .audioSendWorker .sendOk, .audioSendWorker .dequeue, .audioSendWorker .next,
        .audioSendWorker .next, .audioSendWorker .sendOk, .audioSendWorker .next]) = some w ∧
      ∃ c, w.stt[0]? = some c ∧ c.closeSends.length = 1 := by
    refine ⟨_, rfl, _, rfl, rfl⟩
  obtain ⟨w, hrun, c, hc, hl⟩ := hw
  exact ⟨w, c, framesStayOnStream_of_storesOnEmptyQueue w (.runGuarded .init hrun), hc, hl⟩

/-- A barge-in that lands while the previous utterance is still queued: the second turn's
stream is passed the first turn's audio and is half-closed by the first turn's end marker. -/
theorem not_framesStayOnStream : ∃ w c f g, system.run (startActions ++
      [.readPump (.frame (.binary [0, 0])), .readPump .next,
        .readPump (.frame (.text .endUtterance)), .readPump (.select .put)] ++
      startActions ++
      [.audioSendWorker .dequeue, .audioSendWorker .next, .audioSendWorker .next,
        .audioSendWorker .sendOk, .audioSendWorker .dequeue, .audioSendWorker .next,
        .audioSendWorker .next, .audioSendWorker .sendOk, .audioSendWorker .next]) = some w ∧
    w.stt[1]? = some c ∧ f ∈ c.passed ∧ f.data = [0, 0] ∧ f.enqueuedFor = 0 ∧
    g ∈ c.closeSends ∧ g.enqueuedFor = 0 ∧ ¬ FramesStayOnStream w := by
  refine ⟨_, _, _, _, rfl, rfl, List.mem_cons_self, rfl, rfl, List.mem_cons_self, rfl, ?_⟩
  intro h
  exact absurd ((h 1 _ rfl).2 _ List.mem_cons_self) (by decide)

end BibiCore.Session
