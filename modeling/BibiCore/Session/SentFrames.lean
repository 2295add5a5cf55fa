import BibiCore.Session.MicPath
import BibiCore.Session.Utterances

/-!
# The frames a stream is sent

Frames leave `audioQueue` in the order they were put there, one at a time, and `audioSendWorker`
alone sends and half-closes. So each stt stream is sent some of the accepted frames in their order,
and nothing behind an end-of-utterance frame or a `CloseSend`.
-/

namespace BibiCore.Session

open BibiCore.Gateway World

/-- What a step puts on `audioQueue`. -/
def acceptedBy (w : World) (a : Action) : List AudioFrame :=
  match w.reader, a with
  | .offer frame, .readPump .next => if w.audioQueue.Full then [] else [frame]
  | .finish frame, .readPump (.select .put) => [frame]
  | _, _ => []

/-- Everything a run puts on `audioQueue`, in order. -/
def accepted (as : List Action) : List AudioFrame := system.emitted acceptedBy system.init as

/-- The frame the worker has dequeued and not done with. -/
def AudioPc.inHand : AudioPc → List AudioFrame
  | .got frame | .check frame _ | .sending frame _ => [frame]
  | _ => []

/-- What a stream was sent and when it was half-closed are as before the step, or it is new. -/
def SendsNothing (w w' : World) : Prop :=
  ∀ (i : Nat) (d : SttCall), w'.stt[i]? = some d →
    d.sent = [] ∧ d.closeSends = [] ∨
    ∃ c, w.stt[i]? = some c ∧ d.sent = c.sent ∧ d.closeSends = c.closeSends ∧
      (c.stream.closed = true → d.stream.closed = true)

/-! ### What a step does to the queue and the streams -/

/-- A step of `readPump` adds the frame it accepts to the queue. -/
theorem readPump_accepts {w w' : World} {a : ReadAction} (h : w.readPump a = some w') :
    w'.audioQueue.items = w.audioQueue.items ++ acceptedBy w (.readPump a) := by
  cases readStep_of_readPump h with
  | enqueue f q hr hq =>
    obtain ⟨hlt, hi⟩ := Chan.send?_eq_some.mp hq
    have hroom : ¬ w.audioQueue.Full := by
      unfold Chan.Full
      omega
    simp [acceptedBy, hr, hroom, hi]
  | dropFrame f hr =>
    cases hq : w.audioQueue.send? f with
    | none => simp [acceptedBy, hr, Chan.send?_eq_none.mp hq]
    | some q =>
      -- with room in the queue the step is the other one
      simp only [World.readPump, hr, hq, Option.some.injEq] at h
      have hi := (Chan.send?_eq_some.mp hq).2
      rw [← congrArg World.audioQueue h] at hi
      simp at hi
  | enqueueFinish f q hr hq => simp [acceptedBy, hr, (Chan.send?_eq_some.mp hq).2]
  | report _ _ _ _ hr hv | notify _ _ _ hr hv | openFailed _ _ hr hv =>
    obtain ⟨send, dropped, rfl, -⟩ := sendJSON_eq_some hv
    simp [acceptedBy, hr]
  | noStream _ hr | audio _ _ hr | malformed hr | other _ hr | start _ hr | setVoice _ hr
  | noUtterance hr | endUtterance _ hr | readError hr | addTurn hr | swap _ hr
  | closeLLM _ _ _ hr | noLLM _ _ hr | closeTTS _ _ _ hr | noTTS _ _ hr | drainJob _ _ _ _ hr
  | interrupted _ hr | notInterrupted _ hr | closeOld _ _ hr | noOld _ hr | opened _ hr
  | openError _ hr | storeNil hr | store _ hr | finishDone _ hr | returned hr =>
    simp [acceptedBy, hr]

/-- Only `readPump` accepts frames. -/
theorem acceptedBy_eq_nil {w : World} {a : Action} (hr : ∀ b, a ≠ .readPump b) :
    acceptedBy w a = [] := by
  unfold acceptedBy
  split
  · exact absurd rfl (hr _)
  · exact absurd rfl (hr _)
  · rfl

/-- Whoever is not the worker leaves its hand alone and adds to the queue what it accepts. -/
theorem step_accepts {w w' : World} {a : Action} (h : system.step w a = some w')
    (ha : ∀ b, a ≠ .audioSendWorker b) :
    w'.audioWorker = w.audioWorker ∧
      w'.audioQueue.items = w.audioQueue.items ++ acceptedBy w a := by
  by_cases hr : ∃ b, a = .readPump b
  · obtain ⟨b, rfl⟩ := hr
    exact ⟨(readPump_mic h).1, readPump_accepts h⟩
  · have hr : ∀ b, a ≠ .readPump b := fun b hb ↦ hr ⟨b, hb⟩
    obtain ⟨hq, -, hw, -⟩ := step_mic_same h hr ha
    rw [acceptedBy_eq_nil hr, List.append_nil, hq]
    exact ⟨hw, rfl⟩

/-- A change of a call never clears its closed flag. -/
theorem SttChange.closed {parentDone : Bool} {c d : SttCall} (h : SttChange parentDone c d)
    (hc : c.stream.closed = true) : d.stream.closed = true := by
  cases h with
  | keep hs => rw [hs, hc]
  | halfClose hs => rw [hs]; rfl
  | close h => rw [h]; rfl
  | take e hs => rw [(Stream.next?_eq_some hs).2, hc]
  | pump a hs => rw [(Stream.recvPump_frame hs).1, hc]

/-- Whoever is not the worker sends nothing. -/
theorem step_sendsNothing {w w' : World} {a : Action} (h : system.step w a = some w')
    (ha : ∀ b, a ≠ .audioSendWorker b) : SendsNothing w w' := by
  have hg : GivesNothing w w' := by
    by_cases hr : ∃ b, a = .readPump b
    · obtain ⟨b, rfl⟩ := hr
      exact (readPump_mic h).2.1
    · obtain ⟨-, -, -, -, hg⟩ := step_mic_same h (fun b hb ↦ hr ⟨b, hb⟩) ha
      exact hg
  intro i d hd
  rcases hg i d hd with hg | ⟨c, hc, hg⟩
  · simp only [SttCall.given, Prod.mk.injEq] at hg
    exact .inl hg.2
  · rcases (step_sttChanges h).1 i d hd with ⟨turn, rfl⟩ | ⟨c', hc', hchange⟩
    · exact .inl ⟨rfl, rfl⟩
    · obtain rfl : c = c' := Option.some.inj (hc.symm.trans hc')
      simp only [SttCall.given, Prod.mk.injEq] at hg
      exact .inr ⟨c, hc, hg.2.1, hg.2.2, hchange.closed⟩

private theorem sendsNothing_modify {w w' : World} {i : Nat} {g : SttCall → SttCall}
    (h : w'.stt = w.stt.modify i g)
    (hg : ∀ c, (g c).sent = c.sent ∧ (g c).closeSends = c.closeSends ∧ (g c).stream = c.stream) :
    SendsNothing w w' := by
  intro k d hd
  rw [h] at hd
  rcases List.getElem?_modify_eq_some.mp hd with ⟨-, hd⟩ | ⟨rfl, c, hc, rfl⟩
  · exact .inr ⟨d, hd, rfl, rfl, id⟩
  · obtain ⟨hs, hcs, hst⟩ := hg c
    exact .inr ⟨c, hc, hs, hcs, fun hcl ↦ hst ▸ hcl⟩

private theorem sendsNothing_same {w w' : World} (h : w'.stt = w.stt) : SendsNothing w w' :=
  fun _ d hd ↦ .inr ⟨d, h ▸ hd, rfl, rfl, id⟩

/-! ### Frames in their order -/

/-- The accepted frames are those taken so far, the one in the worker's hand and the queue, and
every stream was sent some of those taken, in their order. -/
def InOrder (frames : List AudioFrame) (w : World) : Prop :=
  ∃ taken, frames = taken ++ w.audioWorker.inHand ++ w.audioQueue.items ∧
    ∀ (i : Nat) (c : SttCall), w.stt[i]? = some c → c.sent.Sublist taken

private theorem SendsNothing.sublist {w w' : World} {taken : List AudioFrame}
    (hg : SendsNothing w w')
    (h : ∀ (i : Nat) (c : SttCall), w.stt[i]? = some c → c.sent.Sublist taken) :
    ∀ (i : Nat) (d : SttCall), w'.stt[i]? = some d → d.sent.Sublist taken := by
  intro i d hd
  rcases hg i d hd with ⟨hs, -⟩ | ⟨c, hc, hs, -⟩
  · rw [hs]
    exact List.nil_sublist _
  · rw [hs]
    exact h i c hc

private theorem InOrder.layDown {w w' : World} {frames : List AudioFrame} (hw : InOrder frames w)
    (hq : w'.audioQueue = w.audioQueue) (hh : w'.audioWorker.inHand = [])
    (hs : ∀ taken, (∀ (i : Nat) (c : SttCall), w.stt[i]? = some c → c.sent.Sublist taken) →
      ∀ (i : Nat) (d : SttCall), w'.stt[i]? = some d →
        d.sent.Sublist (taken ++ w.audioWorker.inHand)) : InOrder frames w' := by
  obtain ⟨taken, hf, hsent⟩ := hw
  refine ⟨taken ++ w.audioWorker.inHand, ?_, hs taken hsent⟩
  rw [hf, hq, hh, List.append_nil]

private theorem InOrder.keep {w w' : World} {frames : List AudioFrame} (hw : InOrder frames w)
    (hq : w'.audioQueue = w.audioQueue) (hh : w'.audioWorker.inHand = w.audioWorker.inHand)
    (hg : SendsNothing w w') : InOrder frames w' := by
  obtain ⟨taken, hf, hsent⟩ := hw
  exact ⟨taken, by rw [hf, hq, hh], hg.sublist hsent⟩

private theorem InOrder.skip {w w' : World} {frames : List AudioFrame} (hw : InOrder frames w)
    (hq : w'.audioQueue = w.audioQueue) (hh : w'.audioWorker.inHand = []) (hg : SendsNothing w w') :
    InOrder frames w' :=
  hw.layDown hq hh fun _ h i d hd ↦ (hg.sublist h i d hd).trans (List.sublist_append_left _ _)

/-- A step of the worker keeps the order. -/
theorem InOrder.audioSendWorker {w w' : World} {a : AudioAction} {frames : List AudioFrame}
    (hw : InOrder frames w) (h : w.audioSendWorker a = some w') : InOrder frames w' := by
  cases audioStep_of_audioSendWorker h with
  | quit hp => exact hw.keep rfl (by rw [hp]; rfl) (sendsNothing_same rfl)
  | dequeue frame q hp hq =>
    obtain ⟨taken, hf, hsent⟩ := hw
    refine ⟨taken, ?_, hsent⟩
    rw [hf, hp, hq]
    simp [AudioPc.inHand]
  | noStream frame hp => exact hw.skip rfl rfl (sendsNothing_same rfl)
  | pass frame i hp =>
    exact hw.keep rfl (by rw [hp]; rfl) (sendsNothing_modify rfl fun _ ↦ ⟨rfl, rfl, rfl⟩)
  | check frame i hp =>
    by_cases hc : sttClosed w.stt i = true
    · exact hw.skip rfl (by simp [hc, AudioPc.inHand]) (sendsNothing_same rfl)
    · exact hw.keep rfl (by simp [hc, hp, AudioPc.inHand]) (sendsNothing_same rfl)
  | sendOk frame i hp =>
    have hh : w.audioWorker.inHand = [frame] := by rw [hp]; rfl
    refine hw.layDown rfl ?_ fun taken hsent k d hd ↦ ?_
    · show AudioPc.inHand (if frame.closeSend then _ else _) = []
      split <;> rfl
    · rw [hh]
      rcases List.getElem?_modify_eq_some.mp hd with ⟨-, hd⟩ | ⟨rfl, c, hc, rfl⟩
      · exact (hsent k d hd).trans (List.sublist_append_left _ _)
      · exact (hsent k c hc).append (List.Sublist.refl [frame])
  | sendError frame i message hp =>
    refine hw.skip rfl ?_ (sendsNothing_same rfl)
    show AudioPc.inHand (if _ then _ else _) = []
    split <;> rfl
  | report message b v hp hv =>
    obtain ⟨send, dropped, rfl, -⟩ := sendJSON_eq_some hv
    exact hw.keep rfl (by rw [hp]; rfl) (sendsNothing_same rfl)
  | closeSend frame i hp =>
    obtain ⟨taken, hf, hsent⟩ := hw
    refine ⟨taken, by rw [hf, hp]; rfl, fun k d hd ↦ ?_⟩
    rcases List.getElem?_modify_eq_some.mp hd with ⟨-, hd⟩ | ⟨rfl, c, hc, rfl⟩
    · exact hsent k d hd
    · exact hsent k c hc

/-- In every run, frames are taken and sent in the order they were accepted in. -/
theorem inOrder_of_run {as : List Action} {w : World} (h : system.run as = some w) :
    InOrder (accepted as) w := by
  refine TransitionSystem.run_induction (J := fun as w ↦ InOrder (accepted as) w) ?_ ?_ h
  · exact ⟨[], rfl, by simp [system, World.new]⟩
  · intro as s a t hrun hs hstep
    have he : accepted (as ++ [a]) = accepted as ++ acceptedBy s a :=
      TransitionSystem.emitted_concat hrun hstep
    rw [he]
    by_cases ha : ∃ b, a = .audioSendWorker b
    · obtain ⟨b, rfl⟩ := ha
      rw [acceptedBy_eq_nil (by simp), List.append_nil]
      exact hs.audioSendWorker hstep
    · have ha : ∀ b, a ≠ .audioSendWorker b := fun b hb ↦ ha ⟨b, hb⟩
      obtain ⟨hw, hq⟩ := step_accepts hstep ha
      obtain ⟨taken, hf, hsent⟩ := hs
      refine ⟨taken, ?_, (step_sendsNothing hstep ha).sublist hsent⟩
      rw [hf, hw, hq]
      simp

/-! ### The end of an utterance -/

/-- `readPump` is about to put the frame on `audioQueue`. -/
def ReadPc.Offers (r : ReadPc) (f : AudioFrame) : Prop := r = .offer f ∨ r = .finish f

/-- The frame is on its way to a stream. -/
def OnItsWay (w : World) (f : AudioFrame) : Prop :=
  w.reader.Offers f ∨ f ∈ w.audioQueue.items ∨ f ∈ w.audioWorker.inHand

/-- What a stream has been sent ends with its end-of-utterance frame, if it has been sent one; then
it is closed, or about to be. It is closed once `CloseSend` was called, and the worker sends on it
only before either. -/
structure SttCall.EndsOnce (worker : AudioPc) (i : Nat) (c : SttCall) : Prop where
  last : ∀ f ∈ c.sent.dropLast, f.endOfUtterance = false
  closed : c.closeSends ≠ [] → c.stream.closed = true
  ended : (∃ f ∈ c.sent, f.endOfUtterance = true) →
    c.stream.closed = true ∨ ∃ f, worker = .closeSend f i
  sending : (∃ f, worker = .sending f i) →
    c.closeSends = [] ∧ ∀ f ∈ c.sent, f.endOfUtterance = false

/-- The frames on their way half-close the stream if and only if they end the utterance, and every
stream ends once. -/
structure EndsOnce (w : World) : Prop where
  marked : ∀ f, OnItsWay w f → f.closeSend = f.endOfUtterance
  calls : ∀ (i : Nat) (c : SttCall), w.stt[i]? = some c → c.EndsOnce w.audioWorker i

private theorem SttCall.EndsOnce.keep {worker worker' : AudioPc} {i : Nat} {c d : SttCall}
    (hc : c.EndsOnce worker i) (hs : d.sent = c.sent) (hcs : d.closeSends = c.closeSends)
    (hcl : c.stream.closed = true → d.stream.closed = true)
    (hold : ∀ f, worker = .closeSend f i → ∃ f, worker' = .closeSend f i)
    (henter : ∀ f, worker' = .sending f i →
      c.closeSends = [] ∧ ∀ f ∈ c.sent, f.endOfUtterance = false) : d.EndsOnce worker' i where
  last := hs ▸ hc.last
  closed h := hcl (hc.closed (hcs ▸ h))
  ended h := by
    rw [hs] at h
    exact (hc.ended h).imp hcl fun ⟨f, hf⟩ ↦ hold f hf
  sending := fun ⟨f, hf⟩ ↦ by
    rw [hs, hcs]
    exact henter f hf

private theorem SttCall.EndsOnce.of_nil {worker : AudioPc} {i : Nat} {c : SttCall}
    (hs : c.sent = []) (hcs : c.closeSends = []) : c.EndsOnce worker i where
  last := by simp [hs]
  closed h := absurd hcs h
  ended := by simp [hs]
  sending _ := ⟨hcs, by simp [hs]⟩

private theorem EndsOnce.keepCalls {w w' : World} (hw : EndsOnce w) (hg : SendsNothing w w')
    (hold : ∀ f i, w.audioWorker = .closeSend f i → ∃ f, w'.audioWorker = .closeSend f i)
    (henter : ∀ f i, w'.audioWorker = .sending f i → ∀ c, w.stt[i]? = some c →
      c.closeSends = [] ∧ ∀ f ∈ c.sent, f.endOfUtterance = false) :
    ∀ (i : Nat) (d : SttCall), w'.stt[i]? = some d → d.EndsOnce w'.audioWorker i := by
  intro i d hd
  rcases hg i d hd with ⟨hs, hcs⟩ | ⟨c, hc, hs, hcs, hcl⟩
  · exact .of_nil hs hcs
  · exact (hw.calls i c hc).keep hs hcs hcl (fun f hf ↦ hold f i hf) fun f hf ↦ henter f i hf c hc

private theorem readPump_offers {w w' : World} {a : ReadAction} (h : w.readPump a = some w')
    {f : AudioFrame} (hf : w'.reader.Offers f) : f.closeSend = f.endOfUtterance := by
  cases readStep_of_readPump h with
  | audio | endUtterance =>
    simp only [ReadPc.Offers, reduceCtorEq, ReadPc.offer.injEq, ReadPc.finish.injEq, or_false,
      false_or] at hf
    rw [← hf]
  | setVoice _ hr | noUtterance hr => simp [ReadPc.Offers, hr] at hf
  | _ => simp [ReadPc.Offers] at hf

/-- What is accepted was offered. -/
theorem offers_of_mem_acceptedBy {w : World} {a : Action} {f : AudioFrame}
    (h : f ∈ acceptedBy w a) : w.reader.Offers f := by
  unfold acceptedBy at h
  split at h
  · next frame hr =>
    split at h
    · cases h
    · exact .inl (List.mem_singleton.mp h ▸ hr)
  · next frame hr => exact .inr (List.mem_singleton.mp h ▸ hr)
  · cases h

/-- Whoever is not the worker keeps every stream ending once. -/
theorem EndsOnce.step {w w' : World} {a : Action} (hw : EndsOnce w)
    (h : system.step w a = some w') (ha : ∀ b, a ≠ .audioSendWorker b) : EndsOnce w' := by
  obtain ⟨hworker, hq⟩ := step_accepts h ha
  refine ⟨fun f hf ↦ ?_, ?_⟩
  · rcases hf with hf | hf | hf
    · by_cases hr : ∃ b, a = .readPump b
      · obtain ⟨b, rfl⟩ := hr
        exact readPump_offers h hf
      · obtain ⟨-, -, -, hreader, -⟩ := step_mic_same h (fun b hb ↦ hr ⟨b, hb⟩) ha
        exact hw.marked f (.inl (hreader ▸ hf))
    · rw [hq] at hf
      rcases List.mem_append.mp hf with hf | hf
      · exact hw.marked f (.inr (.inl hf))
      · exact hw.marked f (.inl (offers_of_mem_acceptedBy hf))
    · exact hw.marked f (.inr (.inr (hworker ▸ hf)))
  · rw [hworker]
    have hg := hw.keepCalls (step_sendsNothing h ha)
    rw [hworker] at hg
    exact hg (fun f i hf ↦ ⟨f, hf⟩) fun f i hf c hc ↦ (hw.calls i c hc).sending ⟨f, hf⟩

private theorem audioSendWorker_subset {w w' : World} {a : AudioAction}
    (h : w.audioSendWorker a = some w') :
    w'.reader = w.reader ∧ w'.audioWorker.inHand ++ w'.audioQueue.items ⊆
      w.audioWorker.inHand ++ w.audioQueue.items := by
  cases audioStep_of_audioSendWorker h with
  | dequeue frame q hp hq =>
    refine ⟨rfl, ?_⟩
    rw [hp, hq]
    exact List.Subset.refl _
  | check frame i hp =>
    refine ⟨rfl, ?_⟩
    by_cases hc : sttClosed w.stt i = true
    all_goals simp [hp, hc, AudioPc.inHand]
  | sendOk frame i hp =>
    refine ⟨rfl, ?_⟩
    by_cases hc : frame.closeSend = true
    all_goals simp [hp, hc, AudioPc.inHand]
  | sendError frame i message hp =>
    refine ⟨rfl, ?_⟩
    by_cases hc : sttClosed w.stt i = true ∨ w.sttStream ≠ some i
    all_goals simp [hp, hc, AudioPc.inHand]
  | report message b v hp hv =>
    obtain ⟨send, dropped, rfl, -⟩ := sendJSON_eq_some hv
    exact ⟨rfl, by simp [hp, AudioPc.inHand]⟩
  | quit hp | noStream frame hp | pass frame i hp | closeSend frame i hp =>
    exact ⟨rfl, by simp [hp, AudioPc.inHand]⟩

private theorem audioSendWorker_onItsWay {w w' : World} {a : AudioAction}
    (h : w.audioSendWorker a = some w') {f : AudioFrame} (hf : OnItsWay w' f) : OnItsWay w f := by
  obtain ⟨hr, hsub⟩ := audioSendWorker_subset h
  have hin : f ∈ w'.audioWorker.inHand ++ w'.audioQueue.items → OnItsWay w f := fun hin ↦ by
    rcases List.mem_append.mp (hsub hin) with hw | hq
    · exact .inr (.inr hw)
    · exact .inr (.inl hq)
  rcases hf with hf | hf | hf
  · exact .inl (hr ▸ hf)
  · exact hin (List.mem_append_right _ hf)
  · exact hin (List.mem_append_left _ hf)

/-- A step of the worker keeps every stream ending once. -/
theorem EndsOnce.audioSendWorker {w w' : World} {a : AudioAction} (hw : EndsOnce w)
    (h : w.audioSendWorker a = some w') : EndsOnce w' := by
  refine ⟨fun f hf ↦ hw.marked f (audioSendWorker_onItsWay h hf), ?_⟩
  cases audioStep_of_audioSendWorker h with
  | quit hp | dequeue frame q hp | noStream frame hp =>
    exact hw.keepCalls (sendsNothing_same rfl) (by simp [hp]) (by simp)
  | pass frame i hp =>
    exact hw.keepCalls (sendsNothing_modify rfl fun _ ↦ ⟨rfl, rfl, rfl⟩) (by simp [hp]) (by simp)
  | report message b v hp hv =>
    obtain ⟨send, dropped, rfl, -⟩ := sendJSON_eq_some hv
    exact hw.keepCalls (sendsNothing_same rfl) (by simp [hp]) (by simp)
  | sendError frame i message hp =>
    refine hw.keepCalls (sendsNothing_same rfl) (by simp [hp]) fun f k hk ↦ ?_
    by_cases hc : sttClosed w.stt i = true ∨ w.sttStream ≠ some i
    all_goals simp [hc] at hk
  | check frame i hp =>
    refine hw.keepCalls (sendsNothing_same rfl) (by simp [hp]) fun f k hk c hc ↦ ?_
    by_cases hcl : sttClosed w.stt i = true
    · simp [hcl] at hk
    · -- the stream is open, and no `CloseSend` is on its way
      obtain ⟨rfl, rfl⟩ : frame = f ∧ i = k := by simpa [hcl] using hk
      have hopen : c.stream.closed ≠ true := by simpa [sttClosed, hc] using hcl
      have hcall := hw.calls i c hc
      refine ⟨?_, fun g hg ↦ ?_⟩
      · by_contra hne
        exact hopen (hcall.closed hne)
      · rw [← Bool.not_eq_true]
        intro hend
        rcases hcall.ended ⟨g, hg, hend⟩ with hclosed | ⟨f, hf⟩
        · exact hopen hclosed
        · rw [hp] at hf
          cases hf
  | sendOk frame i hp =>
    intro k d hd
    have hmark := hw.marked frame (.inr (.inr (by rw [hp]; exact List.mem_singleton_self _)))
    have henter (k : Nat) (f : AudioFrame) :
        (if frame.closeSend then AudioPc.closeSend frame i else .idle) ≠ .sending f k := by
      split <;> simp
    rcases List.getElem?_modify_eq_some.mp hd with ⟨-, hd⟩ | ⟨rfl, c, hc, rfl⟩
    · exact (hw.calls k d hd).keep rfl rfl id (by simp [hp]) fun f hf ↦ absurd hf (henter k f)
    · have hcall := hw.calls k c hc
      obtain ⟨hcs, hopen⟩ := hcall.sending ⟨frame, hp⟩
      refine ⟨?_, hcall.closed, fun ⟨f, hf, hend⟩ ↦ ?_, fun ⟨f, hf⟩ ↦ absurd hf (henter k f)⟩
      · simpa [SttCall.accept] using hopen
      · rcases List.mem_append.mp hf with hf | hf
        · rw [hopen f hf] at hend
          cases hend
        · obtain rfl := List.mem_singleton.mp hf
          exact .inr ⟨f, by simp [hmark, hend]⟩
  | closeSend frame i hp =>
    intro k d hd
    rcases List.getElem?_modify_eq_some.mp hd with ⟨hne, hd⟩ | ⟨rfl, c, hc, rfl⟩
    · refine (hw.calls k d hd).keep rfl rfl id (fun f hf ↦ ?_) (by simp)
      rw [hp] at hf
      cases hf
      exact absurd rfl hne
    · exact ⟨(hw.calls k c hc).last, fun _ ↦ rfl, fun _ ↦ .inl rfl, by simp⟩

/-- In every run every stream ends once. -/
theorem endsOnce_of_reachable {w : World} (hr : system.Reachable w) : EndsOnce w := by
  refine hr.invariant (I := EndsOnce) ?_ fun s a t _ hs h ↦ ?_
  · constructor
    · simp [OnItsWay, ReadPc.Offers, AudioPc.inHand, system, World.new]
    · simp [system, World.new]
  · by_cases ha : ∃ b, a = .audioSendWorker b
    · obtain ⟨b, rfl⟩ := ha
      exact hs.audioSendWorker h
    · exact hs.step h fun b hb ↦ ha ⟨b, hb⟩

/-! ### What a stream is sent -/

/-- In every run, the frames successfully sent on an stt stream are some of the frames accepted
into `audioQueue`, in the order of acceptance; none of them but the last ends the utterance; and
once `CloseSend` has been called on the stream the worker is never again in `Send` on it. -/
theorem sent_in_order (as : List Action) (w : World) (h : system.run as = some w) (i : Nat)
    (c : SttCall) (hc : w.stt[i]? = some c) :
    c.sent.Sublist (accepted as) ∧ (∀ f ∈ c.sent.dropLast, f.endOfUtterance = false) ∧
      (c.closeSends ≠ [] → ∀ f, w.audioWorker ≠ .sending f i) := by
  obtain ⟨taken, hf, hsent⟩ := inOrder_of_run h
  have hcall := (endsOnce_of_reachable (TransitionSystem.reachable_of_run h)).calls i c hc
  refine ⟨?_, hcall.last, fun hcs f hsending ↦ ?_⟩
  · rw [hf, List.append_assoc]
    exact (hsent i c hc).trans (List.sublist_append_left _ _)
  · exact hcs (hcall.sending ⟨f, hsending⟩).1

/-- A client that ends its utterance twice: the second marker is accepted and not sent. -/
def endTwiceActions : List Action :=
  startActions ++ [Action.readPump (.frame (.binary [0, 0])), .readPump .next,
    .audioSendWorker .dequeue, .audioSendWorker .next, .audioSendWorker .next,
    .audioSendWorker .sendOk] ++ endUtteranceActions ++
    [Action.readPump (.frame (.text .endUtterance)), .readPump (.select .put),
      .audioSendWorker .dequeue, .audioSendWorker .next, .audioSendWorker .next]

/-- Three frames are accepted, two are sent, and the stream is half-closed. -/
theorem sent_in_order_endTwice : ∃ (w : World) (c : SttCall),
    system.run endTwiceActions = some w ∧ w.stt[0]? = some c ∧ c.closeSends ≠ [] ∧
    (accepted endTwiceActions).length = 3 ∧ c.sent.length = 2 ∧
    c.sent.Sublist (accepted endTwiceActions) ∧
      (∀ f ∈ c.sent.dropLast, f.endOfUtterance = false) ∧
      (c.closeSends ≠ [] → ∀ f, w.audioWorker ≠ .sending f 0) := by
  have hw : ∃ w c, system.run endTwiceActions = some w ∧ w.stt[0]? = some c ∧
      c.closeSends ≠ [] ∧ (accepted endTwiceActions).length = 3 ∧ c.sent.length = 2 :=
    ⟨_, _, rfl, rfl, List.cons_ne_nil _ _, rfl, rfl⟩
  obtain ⟨w, c, hrun, hc, hcs, ha, hs⟩ := hw
  exact ⟨w, c, hrun, hc, hcs, ha, hs, sent_in_order endTwiceActions w hrun 0 c hc⟩

end BibiCore.Session
