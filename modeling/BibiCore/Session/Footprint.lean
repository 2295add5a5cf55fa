import BibiCore.Base.ListUpdate
import BibiCore.Session.System

/-!
# What each goroutine can touch

One lemma for each goroutine: its step leaves every part of the session alone that the lemma
does not name. The invariants of the later modules look inside a step only where it touches
what they speak about.
-/

namespace BibiCore.Session

open BibiCore.Gateway

/-- The control messages that no client state hangs on: transcripts and errors. -/
def ControlMessage.Plain : ControlMessage → Prop
  | .partialTranscript _ _ | .finalTranscript _ _ | .error _ _ => True
  | _ => False

/-- `send` and `dropped` after a step that put on `s.send` only control messages with property
`P`, tagged `o`. -/
structure Sends (w : World) (send : Chan Put 32) (dropped : List (ControlMessage × Nat))
    (o : Origin) (P : ControlMessage → Prop) : Prop where
  puts : ∃ new, send.items = w.send.items ++ new ∧
    ∀ p ∈ new, p.origin = o ∧ ∃ m, p.message = .text m ∧ P m
  drops : w.dropped <+: dropped

namespace Sends

variable {w : World} {o : Origin} {P : ControlMessage → Prop}

/-- A step that leaves `s.send` alone. -/
theorem refl : Sends w w.send w.dropped o P :=
  ⟨⟨[], by simp, by simp⟩, List.prefix_rfl⟩

end Sends

namespace World

/-- What one `sendJSON` does: it puts the message, sees the context done, or drops the message
on a full channel. -/
theorem sendJSON_eq_some {w w' : World} {o : Origin} {m : ControlMessage} {b : Branch}
    (h : w.sendJSON o m b = some w') :
    ∃ send dropped, w' = { w with send := send, dropped := dropped } ∧
      ((send.items = w.send.items ++ [⟨.text m, o⟩] ∧ dropped = w.dropped) ∨
        (send = w.send ∧ dropped = w.dropped ∧ w.cancelled = true) ∨
        (send = w.send ∧ dropped = w.dropped ++ [(m, w.send.items.length)] ∧ w.send.Full)) := by
  unfold sendJSON at h
  split at h
  · split at h
    · next c hc =>
      cases h
      exact ⟨c, w.dropped, rfl, .inl ⟨(Chan.send?_eq_some.mp hc).2, rfl⟩⟩
    · cases h
  · split at h
    · next hc =>
      cases h
      exact ⟨w.send, w.dropped, rfl, .inr (.inl ⟨rfl, rfl, hc⟩)⟩
    · cases h
  · split at h
    · next hf =>
      cases h
      exact ⟨w.send, _, rfl, .inr (.inr ⟨rfl, rfl, hf.1⟩)⟩
    · cases h

/-- A `sendJSON` whose select takes its first case puts the message. -/
theorem sendJSON_put_eq_some {w w' : World} {o : Origin} {m : ControlMessage}
    (h : w.sendJSON o m .put = some w') :
    ∃ send, w' = { w with send := send } ∧ send.items = w.send.items ++ [⟨.text m, o⟩] := by
  simp only [sendJSON] at h
  split at h
  · next c hc =>
    cases h
    exact ⟨c, rfl, (Chan.send?_eq_some.mp hc).2⟩
  · cases h

/-- `sendJSON` touches `s.send` and nothing else. -/
theorem sendJSON_sends {w w' : World} {o : Origin} {m : ControlMessage} {b : Branch}
    {P : ControlMessage → Prop} (hm : P m) (h : w.sendJSON o m b = some w') :
    ∃ send dropped, w' = { w with send := send, dropped := dropped } ∧
      Sends w send dropped o P := by
  obtain ⟨send, dropped, rfl, hs⟩ := sendJSON_eq_some h
  refine ⟨send, dropped, rfl, ?_⟩
  rcases hs with ⟨hs, rfl⟩ | ⟨rfl, rfl, -⟩ | ⟨rfl, rfl, -⟩
  · refine ⟨⟨_, hs, ?_⟩, List.prefix_rfl⟩
    intro p hp
    rw [List.mem_singleton.mp hp]
    exact ⟨rfl, m, rfl, hm⟩
  · exact .refl
  · exact ⟨⟨[], by simp, by simp⟩, List.prefix_append _ _⟩

/-- The send side of an stt call, which only `readPump` and `audioSendWorker` touch. -/
def sendSide (c : SttCall) :
    Nat × List AudioFrame × List AudioFrame × List AudioFrame × Bool × Bool :=
  (c.startTurn, c.passed, c.sent, c.closeSends, c.closeCalled, c.stream.closed)

end World

/-! ### `readPump` -/

/-- The turn whose `interruptCurrentTurn` has cut something and not reported it yet. -/
@[simp] def ReadPc.owing : ReadPc → Option Nat
  | .closeTTS turn _ true | .drain turn true | .notify turn => some turn
  | _ => none

/-- What a step of `readPump` can do to the stt calls. -/
inductive SttMoved (calls calls' : List SttCall) : Prop
  | keep (h : calls' = calls)
  | close (i : Nat) (h : calls' = calls.modify i SttCall.close)
  | opened (turn : Nat) (h : calls' = calls ++ [SttCall.opened turn])
  | start (i : Nat) (h : calls' = calls.modify i fun c ↦ { c with forwarder := .starting })

/-- What a step of `readPump` can do to the session. -/
inductive ReadEffect (w w' : World) : Prop
  | own (audioQueue : Chan AudioFrame 64) (sttStream : Option Nat) (format : Option AudioFormatInfo)
      (voice : Option String) (turn : Nat) (llm tts : Option Nat) (cancelled : Bool)
      (reader : ReadPc) (calls : List SttCall)
      (h : w' = { w with
        audioQueue := audioQueue, sttStream := sttStream, audioFormat := format, voice := voice
        currentTurn := turn, activeLLMStream := llm, activeTTSStream := tts
        cancelled := cancelled, reader := reader, stt := calls })
      (hs : SttMoved w.stt calls) (hc : w.cancelled = true → cancelled = true)
      (ht : w.currentTurn ≤ turn) (ho : reader.owing = w.reader.owing)
  | report (code message : String) (b : World.Branch) (v : World) (reader : ReadPc)
      (hs : w.sendError .readPump code message b = some v) (h : w' = { v with reader := reader })
      (ho : w.reader.owing = none)
  | cutLLM (turn j : Nat) (tts : Option Nat) (hr : w.reader = .closeLLM turn (some j) tts)
      (h : w' = { w with
        llm := w.llm.modify j (LlmCall.close turn), reader := .closeTTS turn tts true })
  | cutTTS (turn k : Nat) (b : Bool) (hr : w.reader = .closeTTS turn (some k) b)
      (h : w' = { w with
        tts := w.tts.modify k (TtsCall.close turn), reader := .drain turn true })
  | cutJob (turn : Nat) (b : Bool) (job : TtsJob) (q : Chan TtsJob 32)
      (hr : w.reader = .drain turn b) (hq : w.ttsQueue.items = job :: q.items)
      (h : w' = { w with
        ttsQueue := q, drained := w.drained ++ [(turn, job)], reader := .drain turn true })
  | notify (turn : Nat) (b : World.Branch) (v : World) (hr : w.reader = .notify turn)
      (hs : w.sendJSON .readPump (.interrupted turn) b = some v)
      (h : w' = { v with reader := .closeOld turn })

namespace World

private theorem own_reader {w : World} {reader : ReadPc} (ho : reader.owing = w.reader.owing) :
    ReadEffect w { w with reader := reader } :=
  .own _ _ _ _ _ _ _ _ _ _ rfl (.keep rfl) id (Nat.le_refl _) ho

/-- What `readPump` can do. -/
theorem readPump_effect {w w' : World} {a : ReadAction} (h : w.readPump a = some w') :
    ReadEffect w w' := by
  cases readStep_of_readPump h with
  | noStream _ hr | audio _ _ hr | malformed hr | other _ hr | endUtterance _ hr | readError hr
  | dropFrame _ hr | noLLM _ _ hr | interrupted _ hr | notInterrupted _ hr | noOld _ hr
  | openError _ hr | finishDone _ hr => exact own_reader (by simp [hr])
  | noUtterance => exact own_reader rfl
  | noTTS _ b hr => exact own_reader (by cases b <;> simp [hr])
  | start _ hr | enqueue _ _ hr | swap _ hr | storeNil hr | enqueueFinish _ _ hr =>
    exact .own _ _ _ _ _ _ _ _ _ _ rfl (.keep rfl) id (Nat.le_refl _) (by simp [hr])
  | setVoice => exact .own _ _ _ _ _ _ _ _ _ _ rfl (.keep rfl) id (Nat.le_refl _) rfl
  | addTurn hr =>
    exact .own _ _ _ _ _ _ _ _ _ _ rfl (.keep rfl) id (Nat.le_succ _) (by simp [hr])
  | closeOld turn i hr =>
    exact .own _ _ _ _ _ _ _ _ _ _ rfl (.close i rfl) id (Nat.le_refl _) (by simp [hr])
  | opened turn hr =>
    exact .own _ _ _ _ _ _ _ _ _ _ rfl (.opened turn rfl) id (Nat.le_refl _) (by simp [hr])
  | store i hr =>
    exact .own _ _ _ _ _ _ _ _ _ _ rfl (.start i rfl) id (Nat.le_refl _) (by simp [hr])
  | returned hr =>
    exact .own _ _ _ _ _ _ _ _ _ _ rfl (.keep rfl) (fun _ ↦ rfl) (Nat.le_refl _) (by simp [hr])
  | report code message b v hr hv => exact .report code message b v _ hv rfl (by simp [hr])
  | openFailed b v hr hv => exact .report _ _ b v _ hv rfl (by simp [hr])
  | closeLLM turn j tts hr => exact .cutLLM turn j tts hr rfl
  | closeTTS turn k b hr => exact .cutTTS turn k b hr rfl
  | drainJob turn b job q hr hq => exact .cutJob turn b job q hr hq rfl
  | notify turn b v hr hv => exact .notify turn b v hr hv rfl

end World

/-! ### The other goroutines -/

/-- What a step of `forwardTranscripts` at `pc` can do to the llm calls. -/
inductive LlmMoved (pc : TranscriptsPc) (calls calls' : List LlmCall) : Prop
  | keep (h : calls' = calls)
  | opened (opener turn : Nat) (prompt : String) (context : List BibiCore.Proto.ChatMessage)
      (h : calls' = calls ++ [LlmCall.opened opener turn prompt context])
  | publish (turn j : Nat) (hp : pc = .chatPublish turn j)
      (h : calls' = calls.modify j fun c ↦ { c with forwarder := .ranging })

/-- What a step of `ttsWorker` can do to the tts calls. -/
inductive TtsMoved (calls calls' : List TtsCall) : Prop
  | keep (h : calls' = calls)
  | opened (job : TtsJob) (voice : String) (h : calls' = calls ++ [TtsCall.opened job voice])
  | update (k : Nat) (g : TtsCall → TtsCall) (h : calls' = calls.modify k g)
      (hg : ∀ c, (g c).closedBy = c.closedBy)

namespace World

/-- What `audioSendWorker` can write. -/
theorem audioSendWorker_footprint {w w' : World} {a : AudioAction}
    (h : w.audioSendWorker a = some w') :
    ∃ send dropped queue pc i g,
      w' = { w with
        send := send, dropped := dropped, audioQueue := queue, audioWorker := pc
        stt := w.stt.modify i g } ∧
      Sends w send dropped .audioSendWorker ControlMessage.Plain ∧
      ∀ c, (g c).startTurn = c.startTurn ∧ (g c).forwarder = c.forwarder ∧
        (g c).closeCalled = c.closeCalled ∧
        ((g c).stream = c.stream ∨ (g c).stream = SttStream.closeSend c.stream) := by
  have hid (w : World) : w.stt = w.stt.modify 0 id := by simp
  cases audioStep_of_audioSendWorker h with
  | pass frame i => exact ⟨_, _, _, _, i, _, rfl, .refl, by simp [SttCall.pass]⟩
  | sendOk frame i => exact ⟨_, _, _, _, i, _, rfl, .refl, by simp [SttCall.accept]⟩
  | closeSend frame i => exact ⟨_, _, _, _, i, _, rfl, .refl, by simp [SttCall.closeSend]⟩
  | report message b v hp hv =>
    obtain ⟨send, dropped, rfl, hs⟩ :=
      sendJSON_sends (P := ControlMessage.Plain) (by trivial) hv
    exact ⟨_, _, _, _, 0, id, by rw [← hid], hs, by simp⟩
  | quit | dequeue | noStream | check | sendError =>
    exact ⟨_, _, _, _, 0, id, by rw [← hid], .refl, by simp⟩

/-- What `forwardTranscripts` can write. -/
theorem forwardTranscripts_footprint {w w' : World} {i : Nat} {a : TranscriptsAction}
    (h : w.forwardTranscripts i a = some w') :
    ∃ c send dropped active llm g, w.stt[i]? = some c ∧
      w' = { w with
        send := send, dropped := dropped, activeLLMStream := active, llm := llm
        stt := w.stt.modify i g } ∧
      Sends w send dropped (.forwardTranscripts i) ControlMessage.Plain ∧
      LlmMoved c.forwarder w.llm llm ∧ sendSide (g c) = sendSide c ∧
      ((g c).stream = c.stream ∨ ∃ e, c.stream.next? = some (e, (g c).stream)) := by
  obtain ⟨c, hc, hstep⟩ := transcriptsStep_of_forwardTranscripts h
  cases hstep with
  | take turn event s hp hs =>
    refine ⟨c, _, _, _, _, _, hc, rfl, .refl, .keep rfl, ?_, .inr ⟨event, hs⟩⟩
    rw [(Stream.next?_eq_some hs).2]
    rfl
  | forward turn event b v hp hv =>
    obtain ⟨send, dropped, rfl, hs⟩ :=
      sendJSON_sends (P := ControlMessage.Plain) (by cases event <;> trivial) hv
    exact ⟨c, _, _, _, _, _, hc, rfl, hs, .keep rfl, rfl, .inl rfl⟩
  | chatFailed turn b v hp hv =>
    obtain ⟨send, dropped, rfl, hs⟩ :=
      sendJSON_sends (P := ControlMessage.Plain) (by trivial) hv
    exact ⟨c, _, _, _, _, _, hc, rfl, hs, .keep rfl, rfl, .inl rfl⟩
  | startChat turn prompt history hp =>
    exact ⟨c, _, _, _, _, _, hc, rfl, .refl, .opened i turn prompt history rfl, rfl, .inl rfl⟩
  | publish turn j hp =>
    exact ⟨c, _, _, _, _, _, hc, rfl, .refl, .publish turn j hp rfl, rfl, .inl rfl⟩
  | load | rangeOver | stale | pass | chatStale | chatPass | snapshot | startError =>
    exact ⟨c, _, _, _, _, _, hc, rfl, .refl, .keep rfl, rfl, .inl rfl⟩

/-- What `forwardLLMEvents` can write. -/
theorem forwardLLMEvents_footprint {w w' : World} {j : Nat} {a : LlmEventsAction}
    (h : w.forwardLLMEvents j a = some w') :
    ∃ send dropped active queue history answered g,
      w' = { w with
        send := send, dropped := dropped, activeLLMStream := active, ttsQueue := queue
        history := history, answered := answered, llm := w.llm.modify j g } ∧
      Sends w send dropped (.forwardLLMEvents j) ControlMessage.Plain ∧
      ∀ c, (g c).closedBy = c.closedBy := by
  obtain ⟨c, -, hstep⟩ := llmEventsStep_of_forwardLLMEvents h
  cases hstep with
  | report code message b v hp hv =>
    obtain ⟨send, dropped, rfl, hs⟩ :=
      sendJSON_sends (P := ControlMessage.Plain) (by trivial) hv
    exact ⟨_, _, _, _, _, _, _, rfl, hs, fun _ ↦ rfl⟩
  | take | rangeOver | stale | pass | enqueue | dropChunk | complete =>
    exact ⟨_, _, _, _, _, _, _, rfl, .refl, fun _ ↦ rfl⟩

private theorem sendJSON_grows {w w' : World} {o : Origin} {m : ControlMessage} {b : Branch}
    (h : w.sendJSON o m b = some w') :
    ∃ send dropped, w' = { w with send := send, dropped := dropped } ∧
      w.send.items <+: send.items ∧ w.dropped <+: dropped := by
  obtain ⟨send, dropped, rfl, hs⟩ := sendJSON_sends (P := fun _ ↦ True) trivial h
  obtain ⟨new, hn, -⟩ := hs.puts
  exact ⟨send, dropped, rfl, hn ▸ List.prefix_append _ _, hs.drops⟩

/-- What `ttsWorker` can write. -/
theorem ttsWorkerStep_footprint {w w' : World} {a : TtsAction}
    (h : w.ttsWorkerStep a = some w') :
    ∃ send dropped queue taken active pc tts,
      w' = { w with
        send := send, dropped := dropped, ttsQueue := queue, taken := taken
        activeTTSStream := active, ttsWorker := pc, tts := tts } ∧
      w.send.items <+: send.items ∧ w.dropped <+: dropped ∧ TtsMoved w.tts tts ∧
      taken ++ queue.items = w.taken ++ w.ttsQueue.items := by
  cases ttsStep_of_ttsWorkerStep h with
  | dequeue job q hp hq =>
    exact ⟨_, _, _, _, _, _, _, rfl, List.prefix_rfl, List.prefix_rfl, .keep rfl, by simp [hq]⟩
  | opened job voice =>
    exact ⟨_, _, _, _, _, _, _, rfl, List.prefix_rfl, List.prefix_rfl, .opened job voice rfl, rfl⟩
  | openFailed _ _ _ _ hv | report _ _ _ _ _ _ _ _ hv | sendText _ _ _ _ _ _ _ _ hv
  | sendFormat _ _ _ _ _ _ _ _ hv =>
    obtain ⟨send, dropped, rfl, hs⟩ := sendJSON_grows hv
    exact ⟨_, _, _, _, _, _, _, rfl, hs.1, hs.2, .keep rfl, rfl⟩
  | sendAudio k c data q hp hc hq =>
    have hs : w.send.items <+: q.items := (Chan.send?_eq_some.mp hq).2 ▸ List.prefix_append _ _
    exact ⟨_, _, _, _, _, _, _, rfl, hs, List.prefix_rfl, .keep rfl, rfl⟩
  | recheckPassed k | store k | closeStale k | take k =>
    exact ⟨_, _, _, _, _, _, _, rfl, List.prefix_rfl, List.prefix_rfl,
      .update k _ rfl fun _ ↦ rfl, rfl⟩
  | quit | skipJob | startJob | loadVoice | openError | recheckFailed | rangeOver | stopStale
  | gotError | gotAudio | sendDone | clear =>
    exact ⟨_, _, _, _, _, _, _, rfl, List.prefix_rfl, List.prefix_rfl, .keep rfl, rfl⟩

/-- The `recvPump` of an STT stream changes that stream alone. -/
theorem sttRecvPump_eq_some {w w' : World} {i : Nat} {a : PumpAction Proto.TranscriptEvent}
    (h : w.sttRecvPump i a = some w') :
    ∃ c s, w.stt[i]? = some c ∧ c.stream.recvPump Gateway.sttPump w.cancelled a = some s ∧
      w' = { w with stt := w.stt.modify i fun c ↦ { c with stream := s } } := by
  unfold sttRecvPump at h
  split at h
  · next c hc =>
    obtain ⟨s, hs, rfl⟩ := Option.map_eq_some_iff.mp h
    exact ⟨c, s, hc, hs, rfl⟩
  · cases h

/-- The `recvPump` of an LLM stream changes that stream alone. -/
theorem llmRecvPump_eq_some {w w' : World} {j : Nat} {a : PumpAction Proto.ChatEvent}
    (h : w.llmRecvPump j a = some w') :
    ∃ c s, w.llm[j]? = some c ∧ c.stream.recvPump Gateway.llmPump w.cancelled a = some s ∧
      w' = { w with llm := w.llm.modify j fun c ↦ { c with stream := s } } := by
  unfold llmRecvPump at h
  split at h
  · next c hc =>
    obtain ⟨s, hs, rfl⟩ := Option.map_eq_some_iff.mp h
    exact ⟨c, s, hc, hs, rfl⟩
  · cases h

/-- The `recvPump` of a TTS stream changes that stream alone. -/
theorem ttsRecvPump_eq_some {w w' : World} {k : Nat} {a : PumpAction Proto.TtsAudioChunkMsg}
    (h : w.ttsRecvPump k a = some w') :
    ∃ c s, w.tts[k]? = some c ∧ c.stream.recvPump Gateway.ttsPump w.cancelled a = some s ∧
      w' = { w with tts := w.tts.modify k fun c ↦ { c with stream := s } } := by
  unfold ttsRecvPump at h
  split at h
  · next c hc =>
    obtain ⟨s, hs, rfl⟩ := Option.map_eq_some_iff.mp h
    exact ⟨c, s, hc, hs, rfl⟩
  · cases h

/-- `writePump` moves the oldest message from `s.send` to what it has written. -/
theorem write_eq_some {w w' : World} (h : w.write = some w') :
    ∃ send written, w' = { w with send := send, written := written } ∧ w'.puts = w.puts := by
  unfold write at h
  split at h
  · split at h
    · next p q hq =>
      cases h
      refine ⟨_, _, rfl, ?_⟩
      simp [puts, Chan.recv?_eq_some.mp hq]
    · cases h
  · cases h

/-- The end of `writePump` changes nothing else. -/
theorem stopWriting_eq_some {w w' : World} (h : system.step w .stopWriting = some w') :
    w' = { w with writing := false } := by
  simp only [system, step] at h
  split at h
  · cases h
    rfl
  · cases h

end World

/-- The goroutines that belong to no turn: `audioSendWorker`, the `recvPump`s and `writePump`. -/
@[simp] def Action.Background : Action → Prop
  | .audioSendWorker _ | .sttRecvPump _ _ | .llmRecvPump _ _ | .ttsRecvPump _ _ | .write
  | .stopWriting => True
  | .readPump _ | .forwardTranscripts _ _ | .forwardLLMEvents _ _ | .ttsWorker _ => False

/-- What these goroutines leave alone. -/
structure SameTurn (w w' : World) : Prop where
  turn : w'.currentTurn = w.currentTurn
  reader : w'.reader = w.reader
  ttsWorker : w'.ttsWorker = w.ttsWorker
  llm : w'.activeLLMStream = w.activeLLMStream
  tts : w'.activeTTSStream = w.activeTTSStream

/-- A background step leaves the turn. -/
theorem World.step_sameTurn {w w' : World} {a : Action} (h : system.step w a = some w')
    (ha : a.Background) : SameTurn w w' := by
  cases a with
  | audioSendWorker b =>
    obtain ⟨send, dropped, queue, pc, i, g, rfl, -⟩ := audioSendWorker_footprint h
    exact ⟨rfl, rfl, rfl, rfl, rfl⟩
  | sttRecvPump i b =>
    obtain ⟨c, s, -, -, rfl⟩ := sttRecvPump_eq_some h
    exact ⟨rfl, rfl, rfl, rfl, rfl⟩
  | llmRecvPump j b =>
    obtain ⟨c, s, -, -, rfl⟩ := llmRecvPump_eq_some h
    exact ⟨rfl, rfl, rfl, rfl, rfl⟩
  | ttsRecvPump k b =>
    obtain ⟨c, s, -, -, rfl⟩ := ttsRecvPump_eq_some h
    exact ⟨rfl, rfl, rfl, rfl, rfl⟩
  | write =>
    obtain ⟨send, written, rfl, -⟩ := write_eq_some h
    exact ⟨rfl, rfl, rfl, rfl, rfl⟩
  | stopWriting =>
    obtain rfl := stopWriting_eq_some h
    exact ⟨rfl, rfl, rfl, rfl, rfl⟩
  | readPump | forwardTranscripts | forwardLLMEvents | ttsWorker => cases ha

end BibiCore.Session
