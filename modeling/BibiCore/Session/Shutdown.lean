import BibiCore.Session.Interrupts
import BibiCore.Session.Talk

/-!
# The end of a session

`Run`, `session.go:139`: when `readPump` returns, `s.cancel()` is the one signal that stops every
other goroutine. Each of them selects on `s.ctx.Done()` wherever it could wait, so that nothing
keeps the session alive but what the backends still send, and no more than for a while.
-/

namespace BibiCore.Gateway

/-- How many more steps `recvPump` takes at most when the backend sends nothing more, an event on
`Events` counting `event`. -/
def PumpPc.remaining {ε : Type} (event : Nat) : PumpPc ε → Nat
  | .deliver _ => 2 * event + 5
  | .recv => event + 4
  | .failed _ => event + 3
  | .emitError _ _ => event + 2
  | .closing _ => 1
  | .done _ => 0

/-- The same with the events on `Events`. -/
def Stream.remaining {μ ε : Type} (event : Nat) (s : Stream μ ε) : Nat :=
  s.pump.remaining event + event * s.events.items.length

/-- A message from the backend. -/
def PumpAction.isMessage {μ : Type} : PumpAction μ → Bool
  | .message _ => true
  | _ => false

/-- A step of `recvPump` is one less to take, but for a message, which has to be delivered and
handled. -/
theorem Stream.remaining_recvPump {μ ε : Type} {spec : PumpSpec μ ε} {parentDone : Bool}
    {s t : Stream μ ε} {a : PumpAction μ} {event fee : Nat} (hfee : event + 2 ≤ fee)
    (h : s.recvPump spec parentDone a = some t) :
    t.remaining event + 1 ≤ s.remaining event + if a.isMessage = true then fee else 0 := by
  cases pumpStep_of_recvPump h with
  | message m hp =>
    simp only [remaining, PumpPc.remaining, hp, PumpAction.isMessage, if_true]
    omega
  | put e c hp hc | errorSent _ _ c hp hc =>
    have hlen := congrArg List.length (Chan.send?_eq_some.mp hc).2
    simp only [List.length_append, List.length_singleton] at hlen
    simp only [remaining, PumpPc.remaining, hp, hlen, Nat.mul_add]
    omega
  | contextDone hp hc =>
    rcases hp with hp | ⟨e, hp⟩
    · simp only [remaining, PumpPc.remaining, hp]
      omega
    · simp only [remaining, PumpPc.remaining, hp]
      omega
  | eof hp | error message hp | timeout hp | callOver hp | closedByCaller message hp hc
  | report message hp hc | errorDropped code message hp hf | close r hp =>
    simp only [remaining, PumpPc.remaining, hp]
    omega

/-- A receive of the consumer takes one event off. -/
theorem Stream.remaining_next? {μ ε : Type} {s t : Stream μ ε} {e : ε} (event : Nat)
    (h : s.next? = some (e, t)) : t.remaining event + event = s.remaining event := by
  obtain ⟨hi, ht⟩ := next?_eq_some h
  have hpump : t.pump = s.pump := by rw [ht]
  rw [remaining, remaining, hi, hpump, List.length_cons, Nat.mul_add]
  omega

/-- A `recvPump` whose context is done can always go on until `Events` is closed. -/
theorem Stream.eventsClosed_of_stalled {μ ε : Type} (spec : PumpSpec μ ε) {parentDone : Bool}
    {s : Stream μ ε} (hd : s.ContextDone parentDone)
    (h : ∀ a : PumpAction μ, a.isMessage = false → s.recvPump spec parentDone a = none) :
    s.eventsClosed = true := by
  unfold eventsClosed
  cases hp : s.pump with
  | done r => rfl
  | recv => simpa [recvPump, hp] using h .eof rfl
  | deliver e => simpa [recvPump, hp, hd] using h .contextDone rfl
  | closing r => simpa [recvPump, hp] using h .next rfl
  | failed message =>
    have hnext := h .next rfl
    simp only [recvPump, hp] at hnext
    split at hnext <;> cases hnext
  | emitError code message =>
    have hnext := h .next rfl
    simp only [recvPump, hp] at hnext
    split at hnext <;> cases hnext

/-- The range over a closed `Events` takes the next event or is over. -/
theorem Stream.next?_or_rangeOver {μ ε : Type} {s : Stream μ ε} (h : s.eventsClosed = true) :
    (∃ e t, s.next? = some (e, t)) ∨ s.next? = none ∧ s.rangeOver := by
  unfold next?
  cases hr : s.events.recv? with
  | some p => exact .inl ⟨p.1, _, rfl⟩
  | none => exact .inr ⟨rfl, h, Chan.recv?_eq_none.mp hr⟩

end BibiCore.Gateway

namespace BibiCore.Session

open BibiCore.Gateway World

/-! ### How much is left to do -/

/-- How many more steps `audioSendWorker` takes at most, a message on `s.send` counting one. -/
def AudioPc.remaining : AudioPc → Nat
  | .got _ => 6
  | .check _ _ => 5
  | .sending _ _ => 4
  | .report _ => 3
  | .closeSend _ _ => 2
  | .idle => 1
  | .done => 0

/-- The same for a `forwardTranscripts` goroutine, which may open an llm stream. -/
def TranscriptsPc.remaining : TranscriptsPc → Nat
  | .check _ _ => 37
  | .forward _ _ => 36
  | .chatCheck _ _ => 34
  | .chatSnapshot _ _ => 33
  | .chatOpening _ _ _ => 32
  | .chatFailed _ | .chatPublish _ _ => 3
  | .unstarted | .starting => 2
  | .ranging _ => 1
  | .done => 0

/-- The same for a `forwardLLMEvents` goroutine, which may make a job. -/
def LlmEventsPc.remaining : LlmEventsPc → Nat
  | .check _ => 23
  | .handle _ => 22
  | .unstarted | .ranging => 1
  | .done => 0

/-- The same for `synthesizeAndSend`. -/
def JobPc.remaining : JobPc → Nat
  | .check _ _ => 10
  | .sendText _ _ => 9
  | .sendFormat _ _ => 7
  | .sendAudio _ | .publish => 5
  | .store => 4
  | .ranging _ | .report _ _ => 3
  | .clear | .closeStale => 2

/-- The same for `ttsWorker`, which may open a tts stream. -/
def TtsPc.remaining : TtsPc → Nat
  | .got _ => 20
  | .synthesize _ => 19
  | .opening _ _ => 18
  | .openFailed _ => 3
  | .job _ pc => pc.remaining
  | .idle => 1
  | .done => 0

def SttCall.remaining (c : SttCall) : Nat := c.forwarder.remaining + c.stream.remaining 37

def LlmCall.remaining (c : LlmCall) : Nat := c.forwarder.remaining + c.stream.remaining 23

def TtsCall.remaining (c : TtsCall) : Nat := c.stream.remaining 8

namespace World

/-- How many more steps the session takes at most once its context is done, when the backends
send nothing more. -/
def remaining (w : World) : Nat :=
  w.audioWorker.remaining + 6 * w.audioQueue.items.length +
    (w.ttsWorker.remaining + 20 * w.ttsQueue.items.length) +
    (w.send.items.length + w.writing.toNat) +
    ((w.stt.map SttCall.remaining).sum + (w.llm.map LlmCall.remaining).sum +
      (w.tts.map TtsCall.remaining).sum)

/-- Every goroutine has returned and every `Events` is closed. -/
structure WoundDown (w : World) : Prop where
  reader : w.reader = .done
  audioWorker : w.audioWorker = .done
  ttsWorker : w.ttsWorker = .done
  writing : w.writing = false
  stt : ∀ c ∈ w.stt, c.forwarder = .done ∧ c.stream.eventsClosed = true
  llm : ∀ c ∈ w.llm, c.forwarder = .done ∧ c.stream.eventsClosed = true
  tts : ∀ c ∈ w.tts, c.stream.eventsClosed = true

end World

/-- A message from a backend. -/
def Action.isMessage : Action → Bool
  | .sttRecvPump _ a => a.isMessage
  | .llmRecvPump _ a => a.isMessage
  | .ttsRecvPump _ a => a.isMessage
  | _ => false

/-! ### Every step is one less -/

section

variable {w w' : World}

private theorem sendJSON_length {v : World} {o : Origin} {m : ControlMessage} {b : Branch}
    (h : w.sendJSON o m b = some v) :
    ∃ send dropped, v = { w with send := send, dropped := dropped } ∧
      send.items.length ≤ w.send.items.length + 1 := by
  obtain ⟨send, dropped, rfl, hs⟩ := sendJSON_eq_some h
  refine ⟨send, dropped, rfl, ?_⟩
  rcases hs with ⟨hs, -⟩ | ⟨rfl, -⟩ | ⟨rfl, -⟩
  · rw [hs, List.length_append, List.length_singleton]
  · omega
  · omega

private theorem stt_remaining_modify {i : Nat} {g : SttCall → SttCall}
    (hg : ∀ c, (g c).remaining = c.remaining) :
    (w.stt.modify i g).map SttCall.remaining = w.stt.map SttCall.remaining :=
  List.map_modify_of_eq fun c _ ↦ hg c

private theorem remaining_audioSendWorker {a : AudioAction}
    (h : w.audioSendWorker a = some w') : w'.remaining + 1 ≤ w.remaining := by
  cases audioStep_of_audioSendWorker h with
  | dequeue frame q hp hq =>
    simp only [remaining, hp, hq, AudioPc.remaining, List.length_cons]
    omega
  | pass frame i hp =>
    simp only [remaining, hp, AudioPc.remaining]
    rw [stt_remaining_modify (g := SttCall.pass frame) fun c ↦ rfl]
    omega
  | closeSend frame i hp =>
    simp only [remaining, hp, AudioPc.remaining]
    rw [stt_remaining_modify (g := SttCall.closeSend frame) fun c ↦ rfl]
    omega
  | sendOk frame i hp =>
    simp only [remaining, hp]
    rw [stt_remaining_modify (g := SttCall.accept frame) fun c ↦ rfl]
    split <;> simp only [AudioPc.remaining] <;> omega
  | check frame i hp | sendError frame i message hp =>
    simp only [remaining, hp]
    split <;> simp only [AudioPc.remaining] <;> omega
  | report message b v hp hv =>
    obtain ⟨send, dropped, rfl, hlen⟩ := sendJSON_length hv
    simp only [remaining, hp, AudioPc.remaining]
    omega
  | quit hp | noStream frame hp =>
    simp only [remaining, hp, AudioPc.remaining]
    omega

private theorem stt_remaining_goto {i : Nat} {c : SttCall} {pc : TranscriptsPc}
    (pc' : TranscriptsPc) (hc : w.stt[i]? = some c) (hp : c.forwarder = pc) :
    ((w.stt.modify i (SttCall.goto pc')).map SttCall.remaining).sum + pc.remaining =
      (w.stt.map SttCall.remaining).sum + pc'.remaining := by
  have hsum := List.sum_map_modify (f := SttCall.remaining) (g := SttCall.goto pc') hc
  simp only [SttCall.remaining, SttCall.goto, hp] at hsum ⊢
  omega

private theorem remaining_gotoTranscripts {i : Nat} {c : SttCall} {pc pc' : TranscriptsPc}
    (hc : w.stt[i]? = some c) (hp : c.forwarder = pc) (hle : pc'.remaining + 1 ≤ pc.remaining) :
    (w.gotoTranscripts i pc').remaining + 1 ≤ w.remaining := by
  have hsum := stt_remaining_goto pc' hc hp
  simp only [remaining, gotoTranscripts]
  omega

private theorem remaining_forwardTranscripts {i : Nat} {a : TranscriptsAction}
    (h : w.forwardTranscripts i a = some w') : w'.remaining + 1 ≤ w.remaining := by
  obtain ⟨c, hc, hstep⟩ := transcriptsStep_of_forwardTranscripts h
  cases hstep with
  | take turn event s hp hs =>
    have hsum := List.sum_map_modify (f := SttCall.remaining)
      (g := fun c ↦ { c with stream := s, forwarder := .check turn event }) hc
    have hnext := Stream.remaining_next? 37 hs
    simp only [SttCall.remaining, hp, TranscriptsPc.remaining] at hsum
    simp only [remaining]
    omega
  | forward turn event b v hp hv =>
    obtain ⟨send, dropped, rfl, hlen⟩ := sendJSON_length hv
    have hsum := stt_remaining_goto (afterTranscript turn event) hc hp
    have hforward : (TranscriptsPc.forward turn event).remaining = 36 := rfl
    have hafter : (afterTranscript turn event).remaining ≤ 34 := by
      cases event <;> simp [afterTranscript, TranscriptsPc.remaining]
    simp only [remaining, gotoTranscripts]
    omega
  | chatFailed turn b v hp hv =>
    obtain ⟨send, dropped, rfl, hlen⟩ := sendJSON_length hv
    have hsum := stt_remaining_goto (.ranging turn) hc hp
    simp only [TranscriptsPc.remaining] at hsum
    simp only [remaining, gotoTranscripts]
    omega
  | startChat turn prompt history hp =>
    have hsum := stt_remaining_goto (.chatPublish turn w.llm.length) hc hp
    have hnew : (LlmCall.opened i turn prompt history).remaining = 28 := rfl
    simp only [TranscriptsPc.remaining] at hsum
    simp only [remaining, gotoTranscripts, List.map_append, List.sum_append, List.map_singleton,
      List.sum_singleton, hnew]
    omega
  | publish turn j hp hl =>
    have hsum := stt_remaining_goto (.ranging turn) hc hp
    have hllm : ((w.llm.modify j fun l ↦ { l with forwarder := .ranging }).map
        LlmCall.remaining).sum ≤ (w.llm.map LlmCall.remaining).sum + 1 :=
      List.sum_map_modify_le fun d _ ↦ by
        simp only [LlmCall.remaining, LlmEventsPc.remaining]
        omega
    simp only [TranscriptsPc.remaining] at hsum
    simp only [remaining, gotoTranscripts]
    omega
  | load hp | rangeOver _ hp | stale _ _ hp | pass _ _ hp | chatStale _ _ hp | chatPass _ _ hp
  | snapshot _ _ hp | startError _ _ _ hp =>
    exact remaining_gotoTranscripts hc hp (by simp [TranscriptsPc.remaining])

private theorem remaining_forwardLLMEvents {j : Nat} {a : LlmEventsAction}
    (h : w.forwardLLMEvents j a = some w') : w'.remaining + 1 ≤ w.remaining := by
  obtain ⟨c, hc, hstep⟩ := llmEventsStep_of_forwardLLMEvents h
  cases hstep with
  | take event s hp hs =>
    have hsum := List.sum_map_modify (f := LlmCall.remaining)
      (g := fun c ↦ { c with stream := s, forwarder := .check event }) hc
    have hnext := Stream.remaining_next? 23 hs
    simp only [LlmCall.remaining, hp, LlmEventsPc.remaining] at hsum
    simp only [remaining]
    omega
  | enqueue text q hp hq =>
    have hsum := List.sum_map_modify (f := LlmCall.remaining)
      (g := LlmCall.offer text w.ttsQueue.items.length) hc
    have hlen := congrArg List.length (Chan.send?_eq_some.mp hq).2
    simp only [List.length_append, List.length_singleton] at hlen
    simp only [LlmCall.remaining, LlmCall.offer, hp, LlmEventsPc.remaining] at hsum
    simp only [remaining, hlen]
    omega
  | dropChunk text hp hq =>
    have hsum := List.sum_map_modify (f := LlmCall.remaining)
      (g := LlmCall.offer text w.ttsQueue.items.length) hc
    simp only [LlmCall.remaining, LlmCall.offer, hp, LlmEventsPc.remaining] at hsum
    simp only [remaining]
    omega
  | complete hp hl =>
    have hsum := List.sum_map_modify (f := LlmCall.remaining) (g := LlmCall.settle) hc
    simp only [LlmCall.remaining, LlmCall.settle, hp, LlmEventsPc.remaining] at hsum
    simp only [remaining]
    omega
  | report code message b v hp hv =>
    obtain ⟨send, dropped, rfl, hlen⟩ := sendJSON_length hv
    have hsum := List.sum_map_modify (f := LlmCall.remaining) (g := LlmCall.settle) hc
    simp only [LlmCall.remaining, LlmCall.settle, hp, LlmEventsPc.remaining] at hsum
    simp only [remaining]
    omega
  | rangeOver hp | stale _ hp =>
    have hsum := List.sum_map_modify (f := LlmCall.remaining) (g := LlmCall.finish) hc
    simp only [LlmCall.remaining, LlmCall.finish, hp, LlmEventsPc.remaining] at hsum
    simp only [remaining]
    omega
  | pass event hp ht =>
    have hsum := List.sum_map_modify (f := LlmCall.remaining)
      (g := fun c ↦ { c with forwarder := .handle event }) hc
    simp only [LlmCall.remaining, hp, LlmEventsPc.remaining] at hsum
    simp only [remaining]
    omega

private theorem tts_remaining_modify {k : Nat} {g : TtsCall → TtsCall}
    (hg : ∀ c, (g c).remaining = c.remaining) :
    (w.tts.modify k g).map TtsCall.remaining = w.tts.map TtsCall.remaining :=
  List.map_modify_of_eq fun c _ ↦ hg c

private theorem remaining_ttsWorkerStep {a : TtsAction} (h : w.ttsWorkerStep a = some w') :
    w'.remaining + 1 ≤ w.remaining := by
  cases ttsStep_of_ttsWorkerStep h with
  | dequeue job q hp hq =>
    simp only [remaining, hp, hq, TtsPc.remaining, List.length_cons]
    omega
  | opened job voice hp =>
    have hnew : (TtsCall.opened job voice).remaining = 12 := rfl
    simp only [remaining, hp, TtsPc.remaining, JobPc.remaining, List.map_append, List.sum_append,
      List.map_singleton, List.sum_singleton, hnew]
    omega
  | take k c sent chunk s hp hc hs =>
    have hsum := List.sum_map_modify (f := TtsCall.remaining)
      (g := fun c ↦ { c with stream := s }) hc
    have hnext := Stream.remaining_next? 8 hs
    simp only [TtsCall.remaining] at hsum
    simp only [remaining, hp, TtsPc.remaining, JobPc.remaining]
    omega
  | sendAudio k c data q hp hc hq =>
    have hlen := congrArg List.length (Chan.send?_eq_some.mp hq).2
    simp only [List.length_append, List.length_singleton] at hlen
    simp only [remaining, hp, TtsPc.remaining, JobPc.remaining, hlen]
    omega
  | openFailed _ b v hp hv | report _ _ _ _ b v hp _ hv | sendText _ _ _ _ b v hp _ hv
  | sendFormat _ _ _ _ b v hp _ hv =>
    obtain ⟨send, dropped, rfl, hlen⟩ := sendJSON_length hv
    simp only [remaining, hp, TtsPc.remaining, JobPc.remaining]
    omega
  | recheckPassed k c hp hc ht =>
    simp only [remaining, hp, TtsPc.remaining, JobPc.remaining]
    rw [tts_remaining_modify (g := fun c ↦ { c with checked := some w.currentTurn }) fun _ ↦ rfl]
    omega
  | store k c hp hc =>
    simp only [remaining, hp, TtsPc.remaining, JobPc.remaining]
    rw [tts_remaining_modify (g := fun c ↦ { c with published := true }) fun _ ↦ rfl]
    omega
  | closeStale k c hp hc =>
    simp only [remaining, hp, TtsPc.remaining, JobPc.remaining]
    rw [tts_remaining_modify (g := TtsCall.closeStale) fun _ ↦ rfl]
    omega
  | gotAudio k c sent data format hp hc ht =>
    simp only [remaining, hp]
    cases sent <;> simp only [TtsPc.remaining, JobPc.remaining, if_true, Bool.false_eq_true,
      if_false] <;> omega
  | quit hp | skipJob _ hp | startJob _ hp | loadVoice _ hp | openError _ _ hp
  | recheckFailed _ _ hp | rangeOver _ _ _ hp | stopStale _ _ _ _ hp | gotError _ _ _ _ _ hp
  | sendDone _ _ _ hp | clear _ _ hp =>
    simp only [remaining, hp, TtsPc.remaining, JobPc.remaining]
    omega

/-- Once the context is done every step but a message is one less to take. -/
theorem step_remaining {a : Action} (hr : w.reader = .done) (h : system.step w a = some w') :
    w'.remaining + 1 ≤ w.remaining + if a.isMessage = true then 39 else 0 := by
  cases a with
  | readPump b =>
    replace h : w.readPump b = some w' := h
    simp [readPump, hr] at h
  | audioSendWorker b => exact remaining_audioSendWorker h
  | forwardTranscripts i b => exact remaining_forwardTranscripts h
  | forwardLLMEvents j b => exact remaining_forwardLLMEvents h
  | ttsWorker b => exact remaining_ttsWorkerStep h
  | sttRecvPump i b =>
    obtain ⟨c, s, hc, hs, rfl⟩ := sttRecvPump_eq_some h
    have hsum := List.sum_map_modify (f := SttCall.remaining)
      (g := fun c ↦ { c with stream := s }) hc
    have hpump : s.remaining 37 + 1 ≤ c.stream.remaining 37 +
        if Action.isMessage (.sttRecvPump i b) = true then 39 else 0 :=
      Stream.remaining_recvPump (by decide) hs
    simp only [SttCall.remaining] at hsum
    simp only [remaining]
    omega
  | llmRecvPump j b =>
    obtain ⟨c, s, hc, hs, rfl⟩ := llmRecvPump_eq_some h
    have hsum := List.sum_map_modify (f := LlmCall.remaining)
      (g := fun c ↦ { c with stream := s }) hc
    have hpump : s.remaining 23 + 1 ≤ c.stream.remaining 23 +
        if Action.isMessage (.llmRecvPump j b) = true then 39 else 0 :=
      Stream.remaining_recvPump (by decide) hs
    simp only [LlmCall.remaining] at hsum
    simp only [remaining]
    omega
  | ttsRecvPump k b =>
    obtain ⟨c, s, hc, hs, rfl⟩ := ttsRecvPump_eq_some h
    have hsum := List.sum_map_modify (f := TtsCall.remaining)
      (g := fun c ↦ { c with stream := s }) hc
    have hpump : s.remaining 8 + 1 ≤ c.stream.remaining 8 +
        if Action.isMessage (.ttsRecvPump k b) = true then 39 else 0 :=
      Stream.remaining_recvPump (by decide) hs
    simp only [TtsCall.remaining] at hsum
    simp only [remaining]
    omega
  | write =>
    replace h : w.write = some w' := h
    unfold write at h
    split at h
    · split at h <;> cases h
      next p q hq =>
        have hlen := congrArg List.length (Chan.recv?_eq_some.mp hq)
        simp only [List.length_cons] at hlen
        simp only [remaining, hlen]
        omega
    · cases h
  | stopWriting =>
    simp only [system, step] at h
    split at h <;> cases h
    next hw =>
      simp only [remaining, hw, Bool.toNat_true, Bool.toNat_false]
      omega

/-! ### Who looks after what -/

/-- No move leads back behind the `go` statement. -/
theorem TranscriptsPc.Moves.ne_unstarted {turn : Nat} {pc pc' : TranscriptsPc}
    (h : pc.Moves turn pc') : pc' ≠ .unstarted := by
  cases h with
  | sent t event => cases event <;> simp [afterTranscript]
  | _ => simp

/-- Only `Run` cancels the session, after `readPump` has returned. -/
theorem reader_of_cancelled (hr : system.Reachable w) (hc : w.cancelled = true) :
    w.reader = .done := by
  refine hr.invariant (I := fun w ↦ w.cancelled = true → w.reader = .done)
    (fun hc ↦ by cases hc) (fun w a w' _ hw h hc ↦ ?_) hc
  by_cases ha : ∃ b, a = .readPump b
  · obtain ⟨b, rfl⟩ := ha
    have done_of {pc : ReadPc} (hr : w.reader = pc) (hc : w.cancelled = true) : pc = .done :=
      hr.symm.trans (hw hc)
    cases readStep_of_readPump h with
    | returned hr => rfl
    | report _ _ _ _ hr hv | notify _ _ _ hr hv | openFailed _ _ hr hv =>
      obtain ⟨send, dropped, rfl, -⟩ := sendJSON_eq_some hv
      cases done_of hr hc
    | setVoice _ hr | noUtterance hr | noStream _ hr | audio _ _ hr | malformed hr | other _ hr
    | start _ hr | endUtterance _ hr | readError hr | enqueue _ _ hr | dropFrame _ hr
    | addTurn hr | swap _ hr | closeLLM _ _ _ hr | noLLM _ _ hr | closeTTS _ _ _ hr
    | noTTS _ _ hr | drainJob _ _ _ _ hr | interrupted _ hr | notInterrupted _ hr
    | closeOld _ _ hr | noOld _ hr | opened _ hr | openError _ hr | storeNil hr | store _ hr
    | enqueueFinish _ _ hr | finishDone _ hr => cases done_of hr hc
  · have hsame := step_sameInterrupts h fun b hb ↦ ha ⟨b, hb⟩
    rw [hsame.reader]
    exact hw (hsame.cancelled ▸ hc)

/-- A goroutine that has not been started is one `startLLMChat` is about to start. -/
theorem publisher_of_unstarted (hr : system.Reachable w) {j : Nat} {c : LlmCall}
    (hc : w.llm[j]? = some c) (hu : c.forwarder = .unstarted) :
    ∃ i t : Nat, w.forwarders[i]? = some (.chatPublish t j) := by
  refine hr.invariant (I := fun w ↦ ∀ (j : Nat) (c : LlmCall), w.llm[j]? = some c →
    c.forwarder = .unstarted → ∃ i t : Nat, w.forwarders[i]? = some (.chatPublish t j))
    (fun j c hc _ ↦ by simp [system, World.new] at hc) (fun w a w' hr hw h j c hc hu ↦ ?_) j c hc hu
  have hl := linked_of_reachable hr
  -- a call that was touched and is still unstarted was unstarted before
  have old {l : Nat} {g : LlmCall → LlmCall} (hllm : w'.llm = w.llm.modify l g)
      (hg : ∀ d, w.llm[l]? = some d → (g d).forwarder = .unstarted → d.forwarder = .unstarted) :
      ∃ d, w.llm[j]? = some d ∧ d.forwarder = .unstarted := by
    rw [hllm] at hc
    rcases List.getElem?_modify_eq_some.mp hc with ⟨-, hc⟩ | ⟨rfl, d, hd, rfl⟩
    · exact ⟨c, hc, hu⟩
    · exact ⟨d, hd, hg d hd hu⟩
  have same (hllm : w'.llm = w.llm) : w.llm[j]? = some c := hllm ▸ hc
  have keep {d : LlmCall} (hd : w.llm[j]? = some d) (hdu : d.forwarder = .unstarted)
      (hf : w'.forwarders = w.forwarders) :
      ∃ i t : Nat, w'.forwarders[i]? = some (.chatPublish t j) :=
    hf ▸ hw j d hd hdu
  have keepSet {d : LlmCall} {i : Nat} {pc pc' : TranscriptsPc} (hd : w.llm[j]? = some d)
      (hdu : d.forwarder = .unstarted) (hi : w.forwarders[i]? = some pc)
      (hne : ∀ t, pc ≠ .chatPublish t j) (hf : w'.forwarders = w.forwarders.set i pc') :
      ∃ i t : Nat, w'.forwarders[i]? = some (.chatPublish t j) := by
    obtain ⟨k, t, hk⟩ := hw j d hd hdu
    exact ⟨k, t, hf ▸ List.getElem?_set_of_ne_entry hk hi (hne t)⟩
  have h := step_chatStep h
  cases h with
  | addTurn _ h | swap _ _ _ h | read _ _ h | rest h =>
    exact keep (same (congrArg ChatView.llm h)) hu (congrArg ChatView.forwarders h)
  | close turn l tts hr h =>
    obtain ⟨d, hd, hdu⟩ := old (congrArg ChatView.llm h) fun _ _ hu ↦ hu
    exact keep hd hdu (congrArg ChatView.forwarders h)
  | complete l d _ hd hdone h =>
    obtain ⟨e, he, heu⟩ := old (congrArg ChatView.llm h) fun _ _ hu ↦ by cases hu
    exact keep he heu (congrArg ChatView.forwarders h)
  | llmEvents l d g hd hg h =>
    obtain ⟨e, he, heu⟩ := old (congrArg ChatView.llm h) fun e he hu ↦ by
      obtain rfl : d = e := Option.some.inj (hd.symm.trans he)
      exact absurd hu hg.published.2
    exact keep he heu (congrArg ChatView.forwarders h)
  | pump l d s b hd hs h =>
    obtain ⟨e, he, heu⟩ := old (congrArg ChatView.llm h) fun _ _ hu ↦ hu
    exact keep he heu (congrArg ChatView.forwarders h)
  | opened turn hr h =>
    obtain ⟨i, t, hi⟩ := hw j c (same (congrArg ChatView.llm h)) hu
    have hf : w'.forwarders = w.forwarders ++ [.unstarted] := congrArg ChatView.forwarders h
    exact ⟨i, t, hf ▸ List.getElem?_concat_eq_some.mpr (.inl hi)⟩
  | stored i hr h =>
    exact keepSet (same (congrArg ChatView.llm h)) hu (hl.storing i hr) (by simp)
      (congrArg ChatView.forwarders h)
  | transcripts i pc pc' hf hp _ _ _ h =>
    refine keepSet (same (congrArg ChatView.llm h)) hu hf (fun t ht ↦ ?_)
      (congrArg ChatView.forwarders h)
    simp [ht] at hp
  | startChat i turn prompt history hf h =>
    have hllm : w'.llm = w.llm ++ [LlmCall.opened i turn prompt history] :=
      congrArg ChatView.llm h
    have hset : w'.forwarders = w.forwarders.set i (.chatPublish turn w.llm.length) :=
      congrArg ChatView.forwarders h
    rcases List.getElem?_concat_eq_some.mp (hllm ▸ hc) with hd | ⟨rfl, rfl⟩
    · exact keepSet hd hu hf (by simp) hset
    · exact ⟨i, turn, hset ▸ List.getElem?_set_self (List.getElem?_eq_some_iff.mp hf).1⟩
  | publish i turn l ha hf h =>
    obtain ⟨d, hd, hdu⟩ := old (congrArg ChatView.llm h) fun _ _ hu ↦ by cases hu
    have hne : j ≠ l := by
      rintro rfl
      have hllm : w'.llm = w.llm.modify j fun c ↦ { c with forwarder := .ranging } :=
        congrArg ChatView.llm h
      rw [hllm, List.getElem?_modify_eq, hd] at hc
      cases hc
      cases hu
    refine keepSet hd hdu hf (fun t ht ↦ ?_) (congrArg ChatView.forwarders h)
    cases ht
    exact hne rfl

/-- The same for a goroutine of an stt stream, which `startStream` is about to start. -/
theorem storing_of_unstarted (hr : system.Reachable w) {i : Nat} {c : SttCall}
    (hc : w.stt[i]? = some c) (hu : c.forwarder = .unstarted) : w.reader = .store i := by
  refine hr.invariant (I := fun w ↦ ∀ (i : Nat) (c : SttCall), w.stt[i]? = some c →
    c.forwarder = .unstarted → w.reader = .store i)
    (fun i c hc _ ↦ by simp [system, World.new] at hc) (fun w a w' _ hw h i c hc hu ↦ ?_) i c hc hu
  have hw (d : Talk) (hd : w.talk.calls[i]? = some d) (hdu : d.forwarder = .unstarted) :
      w.reader = .store i := by
    rw [World.talk, List.getElem?_map] at hd
    obtain ⟨e, he, rfl⟩ := Option.map_eq_some_iff.mp hd
    exact hw i e he hdu
  have hc : w'.talk.calls[i]? = some c.talk := by simp [World.talk, hc]
  cases step_talkStep h with
  | opened turn hr hr' ht =>
    rw [ht] at hc
    rcases List.getElem?_concat_eq_some.mp hc with hc | ⟨rfl, -⟩
    · cases hr.symm.trans (hw c.talk hc hu)
    · rw [hr', World.talk, List.length_map]
  | stored k hr ht =>
    rw [ht] at hc
    rcases List.getElem?_modify_eq_some.mp hc with ⟨hne, hc⟩ | ⟨-, d, -, hd⟩
    · cases hr.symm.trans (hw c.talk hc hu)
      exact absurd rfl hne
    · have hstarting : TranscriptsPc.starting = c.forwarder := congrArg Talk.forwarder hd
      cases hstarting.trans hu
  | move k d pc sent ha hd hm hs ht =>
    obtain ⟨b, rfl⟩ := ha
    rw [ht] at hc
    rcases List.getElem?_set_eq_some.mp hc with ⟨-, hc⟩ | ⟨-, -, hc⟩
    · rw [(step_sameInterrupts h (by simp)).reader]
      exact hw c.talk hc hu
    · have hpc : pc = c.forwarder := congrArg Talk.forwarder hc
      exact absurd (hpc.trans hu) hm.ne_unstarted
  | rest ht =>
    have hreader := hw c.talk (ht ▸ hc) hu
    by_cases ha : ∃ b, a = .readPump b
    · -- the one step that is left to `readPump` starts the goroutine
      obtain ⟨b, rfl⟩ := ha
      replace h : w.readPump b = some w' := h
      unfold readPump at h
      simp only [hreader] at h
      cases b <;> cases h
      rw [World.talk, List.getElem?_map] at hc
      obtain ⟨d, hd, hdc⟩ := Option.map_eq_some_iff.mp hc
      rcases List.getElem?_modify_eq_some.mp hd with ⟨hne, -⟩ | ⟨-, e, -, rfl⟩
      · exact absurd rfl hne
      · have hstarting : TranscriptsPc.starting = c.forwarder := congrArg Talk.forwarder hdc
        cases hstarting.trans hu
    · rw [(step_sameInterrupts h fun b hb ↦ ha ⟨b, hb⟩).reader]
      exact hreader

/-! ### Nothing waits for ever -/

private theorem sendJSON_done (hc : w.cancelled = true) (o : Origin) (m : ControlMessage) :
    w.sendJSON o m .done = some w := by
  simp [sendJSON, hc]

private theorem audioWorker_of_stalled (hc : w.cancelled = true)
    (hs : ∀ b, w.audioSendWorker b = none) : w.audioWorker = .done := by
  cases hp : w.audioWorker with
  | done => rfl
  | idle => simpa [audioSendWorker, hp, hc] using hs .quit
  | got frame =>
    have hnext := hs .next
    cases hst : w.sttStream <;> simp [audioSendWorker, hp, hst] at hnext
  | check frame i => simpa [audioSendWorker, hp] using hs .next
  | sending frame i => simpa [audioSendWorker, hp] using hs .sendOk
  | report message =>
    simpa [audioSendWorker, hp, sendError, sendJSON_done hc] using hs (.select .done)
  | closeSend frame i => simpa [audioSendWorker, hp] using hs .next

private theorem job_of_stalled (hc : w.cancelled = true) {k : Nat} {c : TtsCall} {pc : JobPc}
    (he : c.stream.eventsClosed = true)
    (hs : ∀ b, w.synthesizeStep k c pc b = none) : False := by
  cases pc with
  | publish =>
    have hnext := hs .next
    simp only [synthesizeStep] at hnext
    split at hnext <;> cases hnext
  | store | closeStale | clear => simpa [synthesizeStep] using hs .next
  | ranging sent =>
    have hnext := hs .next
    rcases Stream.next?_or_rangeOver he with ⟨chunk, s, hn⟩ | ⟨hn, ho⟩
    · simp [synthesizeStep, hn] at hnext
    · simp [synthesizeStep, hn, ho] at hnext
  | check sent chunk =>
    have hnext := hs .next
    simp only [synthesizeStep] at hnext
    split at hnext
    · cases hnext
    · cases chunk <;> cases hnext
  | report code message | sendText data format | sendFormat data format =>
    simpa [synthesizeStep, sendError, sendJSON_done hc] using hs (.select .done)
  | sendAudio data => simpa [synthesizeStep, hc] using hs (.select .done)

private theorem ttsWorker_of_stalled (hr : system.Reachable w) (hc : w.cancelled = true)
    (he : ∀ c ∈ w.tts, c.stream.eventsClosed = true) (hs : ∀ b, w.ttsWorkerStep b = none) :
    w.ttsWorker = .done := by
  cases hp : w.ttsWorker with
  | done => rfl
  | idle => simpa [ttsWorkerStep, hp, hc] using hs .quit
  | got job | synthesize job => simpa [ttsWorkerStep, hp] using hs .next
  | opening job voice => simpa [ttsWorkerStep, hp] using hs .startError
  | openFailed job =>
    simpa [ttsWorkerStep, hp, sendError, sendJSON_done hc] using hs (.select .done)
  | job k pc =>
    have hlt : k < w.tts.length := newest_of_job hr hp ▸ Nat.lt_succ_self k
    have hk := List.getElem?_eq_getElem hlt
    have hstep (b : TtsAction) : w.synthesizeStep k w.tts[k] pc b = none := by
      simpa [ttsWorkerStep, hp, hk] using hs b
    exact (job_of_stalled hc (he _ (List.mem_of_getElem? hk)) hstep).elim

private theorem forwardTranscripts_of_stalled (hc : w.cancelled = true)
    (hlock : w.locked = false) {i : Nat} {c : SttCall} (hi : w.stt[i]? = some c)
    (hu : c.forwarder ≠ .unstarted) (he : c.stream.eventsClosed = true)
    (hs : ∀ b, w.forwardTranscripts i b = none) : c.forwarder = .done := by
  have hs (b : TranscriptsAction) : w.transcriptsStep i c b = none := by
    simpa [forwardTranscripts, hi] using hs b
  cases hp : c.forwarder with
  | done => rfl
  | unstarted => exact absurd hp hu
  | starting | check turn event | chatCheck turn prompt =>
    simpa [transcriptsStep, hp] using hs .next
  | chatSnapshot turn prompt | chatPublish turn j =>
    simpa [transcriptsStep, hp, hlock] using hs .next
  | ranging turn =>
    have hnext := hs .next
    rcases Stream.next?_or_rangeOver he with ⟨event, s, hn⟩ | ⟨hn, ho⟩
    · simp [transcriptsStep, hp, hn] at hnext
    · simp [transcriptsStep, hp, hn, ho] at hnext
  | forward turn event => simpa [transcriptsStep, hp, sendJSON_done hc] using hs (.select .done)
  | chatOpening turn prompt history => simpa [transcriptsStep, hp] using hs .startError
  | chatFailed turn =>
    simpa [transcriptsStep, hp, sendError, sendJSON_done hc] using hs (.select .done)

private theorem forwardLLMEvents_of_stalled (hc : w.cancelled = true)
    (hlock : w.locked = false) {j : Nat} {c : LlmCall} (hj : w.llm[j]? = some c)
    (hu : c.forwarder ≠ .unstarted) (he : c.stream.eventsClosed = true)
    (hs : ∀ b, w.forwardLLMEvents j b = none) : c.forwarder = .done := by
  have hs (b : LlmEventsAction) : w.llmEventsStep j c b = none := by
    simpa [forwardLLMEvents, hj] using hs b
  cases hp : c.forwarder with
  | done => rfl
  | unstarted => exact absurd hp hu
  | ranging =>
    have hnext := hs .next
    rcases Stream.next?_or_rangeOver he with ⟨event, s, hn⟩ | ⟨hn, ho⟩
    · simp [llmEventsStep, hp, hn] at hnext
    · simp [llmEventsStep, hp, hn, ho] at hnext
  | check event =>
    have hnext := hs .next
    simp only [llmEventsStep, hp] at hnext
    split at hnext <;> cases hnext
  | handle event =>
    cases event with
    | chunk text =>
      have hnext := hs .next
      simp only [llmEventsStep, hp] at hnext
      split at hnext <;> cases hnext
    | done => simpa [llmEventsStep, hp, hlock] using hs .next
    | error code message =>
      simpa [llmEventsStep, hp, sendError, sendJSON_done hc] using hs (.select .done)

/-- Where only a message could still come, everything has come to its end. -/
theorem woundDown_of_stalled (hr : system.Reachable w) (hc : w.cancelled = true)
    (hs : system.Stalled (fun a ↦ !a.isMessage) w) : w.WoundDown := by
  have hreader := reader_of_cancelled hr hc
  have hstt : ∀ c ∈ w.stt, c.stream.eventsClosed = true := by
    intro c hmem
    obtain ⟨i, hi⟩ := List.mem_iff_getElem?.mp hmem
    refine Stream.eventsClosed_of_stalled sttPump (.inr hc) fun b hb ↦ ?_
    simpa [system, step, sttRecvPump, hi] using
      hs (.sttRecvPump i b) (by simp [Action.isMessage, hb])
  have hllm : ∀ c ∈ w.llm, c.stream.eventsClosed = true := by
    intro c hmem
    obtain ⟨j, hj⟩ := List.mem_iff_getElem?.mp hmem
    refine Stream.eventsClosed_of_stalled llmPump (.inr hc) fun b hb ↦ ?_
    simpa [system, step, llmRecvPump, hj] using
      hs (.llmRecvPump j b) (by simp [Action.isMessage, hb])
  have htts : ∀ c ∈ w.tts, c.stream.eventsClosed = true := by
    intro c hmem
    obtain ⟨k, hk⟩ := List.mem_iff_getElem?.mp hmem
    refine Stream.eventsClosed_of_stalled ttsPump (.inr hc) fun b hb ↦ ?_
    simpa [system, step, ttsRecvPump, hk] using
      hs (.ttsRecvPump k b) (by simp [Action.isMessage, hb])
  have hworker := ttsWorker_of_stalled hr hc htts fun b ↦ hs (.ttsWorker b) rfl
  have hlock : w.locked = false := by simp [locked, hworker]
  have hforwarders : ∀ c ∈ w.stt, c.forwarder = .done := by
    intro c hmem
    obtain ⟨i, hi⟩ := List.mem_iff_getElem?.mp hmem
    refine forwardTranscripts_of_stalled hc hlock hi (fun hu ↦ ?_) (hstt c hmem)
      fun b ↦ hs (.forwardTranscripts i b) rfl
    cases hreader.symm.trans (storing_of_unstarted hr hi hu)
  have hanswers : ∀ c ∈ w.llm, c.forwarder = .done := by
    intro c hmem
    obtain ⟨j, hj⟩ := List.mem_iff_getElem?.mp hmem
    refine forwardLLMEvents_of_stalled hc hlock hj (fun hu ↦ ?_) (hllm c hmem)
      fun b ↦ hs (.forwardLLMEvents j b) rfl
    -- whoever is to start it has returned
    obtain ⟨i, t, hi⟩ := publisher_of_unstarted hr hj hu
    rw [forwarders, List.getElem?_map] at hi
    obtain ⟨d, hd, hpublish⟩ := Option.map_eq_some_iff.mp hi
    cases hpublish.symm.trans (hforwarders d (List.mem_of_getElem? hd))
  constructor
  case reader => exact hreader
  case audioWorker => exact audioWorker_of_stalled hc fun b ↦ hs (.audioSendWorker b) rfl
  case ttsWorker => exact hworker
  case writing => simpa [system, step] using hs .stopWriting rfl
  case stt => exact fun c hmem ↦ ⟨hforwarders c hmem, hstt c hmem⟩
  case llm => exact fun c hmem ↦ ⟨hanswers c hmem, hllm c hmem⟩
  case tts => exact htts

private theorem recvPump_of_eventsClosed {μ ε : Type} {spec : PumpSpec μ ε} {parentDone : Bool}
    {s : Gateway.Stream μ ε} (he : s.eventsClosed = true) (a : PumpAction μ) :
    s.recvPump spec parentDone a = none := by
  cases hp : s.pump with
  | done r => simp [Stream.recvPump, hp]
  | _ => simp [Stream.eventsClosed, hp] at he

/-- A session that has come to its end does nothing more. -/
theorem World.WoundDown.stalled (h : w.WoundDown) (a : Action) : system.step w a = none := by
  cases a with
  | readPump b => simp [system, step, readPump, h.reader]
  | audioSendWorker b => simp [system, step, audioSendWorker, h.audioWorker]
  | ttsWorker b => simp [system, step, ttsWorkerStep, h.ttsWorker]
  | write | stopWriting => simp [system, step, write, h.writing]
  | forwardTranscripts i b =>
    cases hi : w.stt[i]? with
    | none => simp [system, step, forwardTranscripts, hi]
    | some c =>
      have hdone := (h.stt c (List.mem_of_getElem? hi)).1
      simp [system, step, forwardTranscripts, transcriptsStep, hi, hdone]
  | forwardLLMEvents j b =>
    cases hj : w.llm[j]? with
    | none => simp [system, step, forwardLLMEvents, hj]
    | some c =>
      have hdone := (h.llm c (List.mem_of_getElem? hj)).1
      simp [system, step, forwardLLMEvents, llmEventsStep, hj, hdone]
  | sttRecvPump i b =>
    cases hi : w.stt[i]? with
    | none => simp [system, step, sttRecvPump, hi]
    | some c =>
      have hclosed := (h.stt c (List.mem_of_getElem? hi)).2
      simp [system, step, sttRecvPump, hi, recvPump_of_eventsClosed hclosed]
  | llmRecvPump j b =>
    cases hj : w.llm[j]? with
    | none => simp [system, step, llmRecvPump, hj]
    | some c =>
      have hclosed := (h.llm c (List.mem_of_getElem? hj)).2
      simp [system, step, llmRecvPump, hj, recvPump_of_eventsClosed hclosed]
  | ttsRecvPump k b =>
    cases hk : w.tts[k]? with
    | none => simp [system, step, ttsRecvPump, hk]
    | some c =>
      have hclosed := h.tts c (List.mem_of_getElem? hk)
      simp [system, step, ttsRecvPump, hk, recvPump_of_eventsClosed hclosed]

/-- What a session whose context is done stays. -/
private structure Cancelled (w : World) : Prop where
  reachable : system.Reachable w
  cancelled : w.cancelled = true

private theorem Cancelled.step (hw : Cancelled w) {a : Action} (h : system.step w a = some w') :
    Cancelled w' ∧ w'.remaining + 1 ≤ w.remaining + if a.isMessage = true then 39 else 0 := by
  have hreader := reader_of_cancelled hw.reachable hw.cancelled
  refine ⟨⟨hw.reachable.next h, ?_⟩, step_remaining hreader h⟩
  by_cases ha : ∃ b, a = .readPump b
  · obtain ⟨b, rfl⟩ := ha
    replace h : w.readPump b = some w' := h
    simp [readPump, hreader] at h
  · rw [(step_sameInterrupts h fun b hb ↦ ha ⟨b, hb⟩).cancelled]
    exact hw.cancelled

/-- Once `Run` has cancelled the session, no run goes on for longer than the work it began with and
thirty-nine steps for each message the backends still send; where only a message could still come,
every goroutine has returned and every `Events` is closed, and there nothing can come; and from
every state of the run the session gets there by itself. -/
theorem winds_down (w u : World) (as : List Action) (hr : system.Reachable w)
    (hc : w.cancelled = true) (h : system.runFrom w as = some u) :
    as.length ≤ w.remaining + 39 * as.countP Action.isMessage ∧
      (system.Stalled (fun a ↦ !a.isMessage) u ↔ u.WoundDown) ∧
      (u.WoundDown → ∀ a, system.step u a = none) ∧
      ∃ bs v, (∀ b ∈ bs, b.isMessage = false) ∧ system.runFrom u bs = some v ∧ v.WoundDown := by
  have hlength := TransitionSystem.length_add_le (I := Cancelled) (p := Action.isMessage)
    (fun _ _ _ hi hs ↦ hi.step hs) ⟨hr, hc⟩ h
  have hu : Cancelled u := TransitionSystem.runFrom_preserves (fun _ _ _ hi hs ↦ (hi.step hs).1)
    ⟨hr, hc⟩ h
  refine ⟨by omega, ⟨woundDown_of_stalled hu.reachable hu.cancelled, fun hdown a _ ↦
    hdown.stalled a⟩, World.WoundDown.stalled, ?_⟩
  obtain ⟨bs, v, hbs, hrun, hv, hstalled⟩ := TransitionSystem.exists_runFrom_stalled
    (I := Cancelled) (p := fun a : Action ↦ !a.isMessage) (b := remaining)
    (fun s a t hi ha hs ↦ by
      obtain ⟨ht, hle⟩ := hi.step hs
      rw [if_neg (by simpa using ha)] at hle
      exact ⟨ht, hle⟩) hu
  exact ⟨bs, v, fun b hb ↦ by simpa using hbs b hb, hrun,
    woundDown_of_stalled hv.reachable hv.cancelled hstalled⟩

end

/-- The client hangs up. -/
def hangUpActions : List Action := [.readPump .readError, .readPump .next]

/-- After that, `ttsWorker` takes up the job that waits, and the backend sends one chunk more. -/
def lateActions : List Action := .ttsWorker .dequeue :: chunkActions 0 " there"

/-- A session that is hung up in the middle of an answer winds down. -/
theorem winds_down_hangUp : ∃ w u : World,
    system.run (startActions ++ finalActions 0 "hi" ++ [.forwardTranscripts 0 .next] ++
      chunkActions 0 "Hello" ++ hangUpActions) = some w ∧ system.runFrom w lateActions = some u ∧
    lateActions.length ≤ w.remaining + 39 * lateActions.countP Action.isMessage ∧
    ¬ u.WoundDown ∧
    ∃ bs v, (∀ b ∈ bs, b.isMessage = false) ∧ system.runFrom u bs = some v ∧ v.WoundDown := by
  have hw : ∃ w, system.run (startActions ++ finalActions 0 "hi" ++
      [.forwardTranscripts 0 .next] ++ chunkActions 0 "Hello" ++ hangUpActions) = some w ∧
      w.cancelled = true ∧
      (system.runFrom w lateActions).map World.writing = some true := ⟨_, rfl, rfl, rfl⟩
  obtain ⟨w, hrun, hc, hmap⟩ := hw
  obtain ⟨u, hlate, hwriting⟩ := Option.map_eq_some_iff.mp hmap
  obtain ⟨hle, -, -, hend⟩ :=
    winds_down w u lateActions (TransitionSystem.reachable_of_run hrun) hc hlate
  refine ⟨w, u, hrun, hlate, hle, fun hdown ↦ ?_, hend⟩
  cases hwriting.symm.trans hdown.writing

end BibiCore.Session
