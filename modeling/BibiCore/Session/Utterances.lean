import BibiCore.Gateway.Relay
import BibiCore.Session.Footprint

/-!
# What becomes of an ended utterance

`audioSendWorker` half-closes an stt stream after its end-of-utterance frame, `session.go:228`,
and the session waits for the answer. `CloseSend` sets the same flag as `Close`, and `recvPump`
reports no transport error once the flag is set, `internal/stt/client.go:157`.
-/

namespace BibiCore.Session

open BibiCore.Gateway World

/-! ### What a step can do to an stt call -/

/-- One call before and after a step. -/
inductive SttChange (parentDone : Bool) (c d : SttCall) : Prop
  | keep (hs : d.stream = c.stream) (hc : d.closeCalled = c.closeCalled)
  | halfClose (hs : d.stream = SttStream.closeSend c.stream) (hc : d.closeCalled = c.closeCalled)
  | close (h : d = c.close)
  | take (e : TranscriptEvent) (hs : c.stream.next? = some (e, d.stream))
      (hc : d.closeCalled = c.closeCalled)
  | pump (a : PumpAction Proto.TranscriptEvent)
      (hs : c.stream.recvPump sttPump parentDone a = some d.stream)
      (hc : d.closeCalled = c.closeCalled)

/-- Every call after the step is new, or one from before it and its change. -/
def SttChanges (w w' : World) : Prop :=
  ∀ (i : Nat) (d : SttCall), w'.stt[i]? = some d →
    (∃ turn, d = SttCall.opened turn) ∨ ∃ c, w.stt[i]? = some c ∧ SttChange w.cancelled c d

private theorem sttChanges_modify {w w' : World} {i : Nat} {g : SttCall → SttCall}
    (h : w'.stt = w.stt.modify i g)
    (hg : ∀ c, w.stt[i]? = some c → SttChange w.cancelled c (g c)) : SttChanges w w' := by
  intro k d hd
  rw [h] at hd
  rcases List.getElem?_modify_eq_some.mp hd with ⟨-, hd⟩ | ⟨rfl, c, hc, rfl⟩
  · exact .inr ⟨d, hd, .keep rfl rfl⟩
  · exact .inr ⟨c, hc, hg c hc⟩

private theorem sttChanges_same {w w' : World} (h : w'.stt = w.stt) : SttChanges w w' :=
  fun _ d hd ↦ .inr ⟨d, h ▸ hd, .keep rfl rfl⟩

private theorem sttChanges_moved {w w' : World} (h : SttMoved w.stt w'.stt) : SttChanges w w' := by
  cases h with
  | keep h => exact sttChanges_same h
  | close i h => exact sttChanges_modify h fun _ _ ↦ .close rfl
  | opened turn h =>
    intro k d hd
    rw [h] at hd
    rcases List.getElem?_concat_eq_some.mp hd with hd | ⟨-, rfl⟩
    · exact .inr ⟨d, hd, .keep rfl rfl⟩
    · exact .inl ⟨turn, rfl⟩
  | start i h => exact sttChanges_modify h fun _ _ ↦ .keep rfl rfl

/-- Every step changes every stt call in one of these ways, and no step revives the context. -/
theorem step_sttChanges {w w' : World} {a : Action} (h : system.step w a = some w') :
    SttChanges w w' ∧ (w.cancelled = true → w'.cancelled = true) := by
  cases a with
  | readPump b =>
    cases readPump_effect h with
    | own _ _ _ _ _ _ _ _ _ _ h hs hc =>
      subst h
      exact ⟨sttChanges_moved hs, hc⟩
    | report code message b v reader hs h =>
      obtain ⟨send, dropped, rfl, -⟩ := sendJSON_eq_some hs
      subst h
      exact ⟨sttChanges_same rfl, id⟩
    | cutLLM _ _ _ _ h | cutTTS _ _ _ _ h | cutJob _ _ _ _ _ _ h =>
      subst h
      exact ⟨sttChanges_same rfl, id⟩
    | notify turn b v hr hs h =>
      obtain ⟨send, dropped, rfl, -⟩ := sendJSON_eq_some hs
      subst h
      exact ⟨sttChanges_same rfl, id⟩
  | audioSendWorker b =>
    obtain ⟨send, dropped, queue, pc, i, g, rfl, -, hg⟩ := audioSendWorker_footprint h
    refine ⟨sttChanges_modify rfl fun c _ ↦ ?_, id⟩
    obtain ⟨-, -, hcl, hs⟩ := hg c
    exact hs.elim (.keep · hcl) (.halfClose · hcl)
  | forwardTranscripts i b =>
    obtain ⟨c, send, dropped, active, llm, g, hc, rfl, -, -, hg, hs⟩ :=
      forwardTranscripts_footprint h
    refine ⟨sttChanges_modify rfl fun d hd ↦ ?_, id⟩
    obtain rfl : c = d := Option.some.inj (hc.symm.trans hd)
    have hcl : (g c).closeCalled = c.closeCalled := by
      simp only [sendSide, Prod.mk.injEq] at hg
      exact hg.2.2.2.2.1
    rcases hs with hs | ⟨e, hs⟩
    · exact .keep hs hcl
    · exact .take e hs hcl
  | forwardLLMEvents j b =>
    obtain ⟨send, dropped, active, queue, history, answered, g, rfl, -⟩ :=
      forwardLLMEvents_footprint h
    exact ⟨sttChanges_same rfl, id⟩
  | ttsWorker b =>
    obtain ⟨send, dropped, queue, taken, active, pc, tts, rfl, -⟩ := ttsWorkerStep_footprint h
    exact ⟨sttChanges_same rfl, id⟩
  | sttRecvPump i b =>
    obtain ⟨c, s, hc, hs, rfl⟩ := sttRecvPump_eq_some h
    refine ⟨sttChanges_modify rfl fun d hd ↦ ?_, id⟩
    obtain rfl : c = d := Option.some.inj (hc.symm.trans hd)
    exact .pump b hs rfl
  | llmRecvPump j b =>
    obtain ⟨c, s, -, -, rfl⟩ := llmRecvPump_eq_some h
    exact ⟨sttChanges_same rfl, id⟩
  | ttsRecvPump k b =>
    obtain ⟨c, s, -, -, rfl⟩ := ttsRecvPump_eq_some h
    exact ⟨sttChanges_same rfl, id⟩
  | write =>
    obtain ⟨send, written, rfl, -⟩ := write_eq_some h
    exact ⟨sttChanges_same rfl, id⟩
  | stopWriting =>
    obtain rfl := stopWriting_eq_some h
    exact ⟨sttChanges_same rfl, id⟩

/-! ### How a stream ends -/

/-- The pump relays, and its context is done only when `Close` was called or the session's
context is. -/
structure SttCall.Sound (cancelled : Bool) (c : SttCall) : Prop where
  relays : c.stream.Relays sttPump
  accounted : c.stream.Accounted (c.closeCalled = true ∨ cancelled = true)

private theorem SttCall.Sound.change {cancelled cancelled' : Bool} {c d : SttCall}
    (hc : c.Sound cancelled) (hm : cancelled = true → cancelled' = true)
    (h : SttChange cancelled c d) : d.Sound cancelled' := by
  have hmono (hcl : d.closeCalled = c.closeCalled) :
      c.closeCalled = true ∨ cancelled = true → d.closeCalled = true ∨ cancelled' = true :=
    fun h ↦ h.imp (hcl ▸ ·) hm
  cases h with
  | keep hs hcl => exact ⟨hs ▸ hc.relays, hs ▸ hc.accounted.mono (hmono hcl)⟩
  | halfClose hs hcl =>
    have hr : (SttStream.closeSend c.stream).Relays sttPump := hc.relays
    have ha := hc.accounted.mono (hmono hcl)
    have ha' : (SttStream.closeSend c.stream).Accounted
        (d.closeCalled = true ∨ cancelled' = true) :=
      ⟨ha.cancelled, ha.contextDone, ha.errorDropped⟩
    exact ⟨hs ▸ hr, hs ▸ ha'⟩
  | close h =>
    subst h
    refine ⟨hc.relays.close, ?_⟩
    exact (hc.accounted.mono fun _ ↦ .inl rfl).close (.inl rfl)
  | take e hs hcl => exact ⟨hc.relays.next? hs, (hc.accounted.mono (hmono hcl)).next? hs⟩
  | pump a hs hcl =>
    exact ⟨hc.relays.recvPump hs,
      (hc.accounted.mono (hmono hcl)).recvPump (fun h ↦ .inr (hm h)) hs⟩

/-- In every run every stt call is sound. -/
theorem sttSound_of_reachable {w : World} (hr : system.Reachable w) :
    ∀ (i : Nat) (c : SttCall), w.stt[i]? = some c → c.Sound w.cancelled := by
  refine hr.invariant
    (I := fun w ↦ ∀ (i : Nat) (c : SttCall), w.stt[i]? = some c → c.Sound w.cancelled) ?_ ?_
  · simp [system, World.new]
  · intro w a w' _ hw h i d hd
    obtain ⟨hchange, hm⟩ := step_sttChanges h
    rcases hchange i d hd with ⟨turn, rfl⟩ | ⟨c, hc, hcd⟩
    · exact ⟨Stream.relays_opened, .opened⟩
    · exact (hw i c hc).change hm hcd

/-! ### The answer -/

/-- `Events` has carried a final transcript or an error. -/
def Answered (s : SttStream) : Prop :=
  ∃ e ∈ s.delivered, (∃ text, e = .finalEvent text) ∨ ∃ code message, e = .error code message

/-- A received message that is not a partial transcript, once delivered, is an answer. -/
theorem answered_of_mem {s : SttStream} {m : Proto.TranscriptEvent}
    (hm : mapTranscriptEvent m ∈ s.delivered) (ht : m.type ≠ .partialEvent) : Answered s := by
  refine ⟨_, hm, ?_⟩
  unfold mapTranscriptEvent
  cases hty : m.type with
  | partialEvent => exact absurd hty ht
  | finalEvent => exact .inl ⟨_, rfl⟩
  | errorEvent => exact .inr ⟨_, _, rfl⟩

/-- An stt stream that nobody closed, in a session that is not cancelled, whose backend closes
the call in good order only after a final transcript: by the time `Events` is closed it has
carried a final transcript or an error, or else nothing but partial transcripts was received and
`recvPump` saw the call fail with the closed flag set, or left by the context that gRPC ends with
the call before it saw that, or found `Events` full when it had its error to report. -/
theorem answered_or_unreported (w : World) (i : Nat) (c : SttCall) (hr : system.Reachable w)
    (hc : w.stt[i]? = some c) (hclose : c.closeCalled = false) (hctx : w.cancelled = false)
    (hclosed : c.stream.eventsClosed = true)
    (heof : c.stream.ending = some .eof → ∃ m ∈ c.stream.received, m.type = .finalEvent) :
    Answered c.stream ∨
      (∀ m ∈ c.stream.received, m.type = .partialEvent) ∧
        (c.stream.ending = some .closedByCaller ∨ c.stream.ending = some .callOver ∨
          c.stream.ending = some .errorDropped ∧ 16 ≤ c.stream.delivered.length) := by
  obtain ⟨hrelays, hacc⟩ := sttSound_of_reachable hr i c hc
  have hcaller : ¬(c.closeCalled = true ∨ w.cancelled = true) := by simp [hclose, hctx]
  obtain ⟨r, hp⟩ : ∃ r, c.stream.pump = .done r := by
    unfold Stream.eventsClosed at hclosed
    split at hclosed
    · next r hp => exact ⟨r, hp⟩
    · cases hclosed
  have hend : c.stream.ending = some r := by rw [Stream.ending, hp]
  have hhand : c.stream.inHand = [] := by rw [Stream.inHand, hp]
  by_cases hpart : ∀ m ∈ c.stream.received, m.type = .partialEvent
  · cases r with
    | eof =>
      obtain ⟨m, hm, ht⟩ := heof hend
      rw [hpart m hm] at ht
      cases ht
    | closedByCaller => exact .inr ⟨hpart, .inl hend⟩
    | errorSent =>
      simp only [Stream.Relays, hend] at hrelays
      obtain ⟨code, message, hd⟩ := hrelays
      exact .inl ⟨.error code message, by simp [hd, sttPump], .inr ⟨code, message, rfl⟩⟩
    | callOver => exact .inr ⟨hpart, .inr (.inl hend)⟩
    | errorDropped => exact .inr ⟨hpart, .inr (.inr ⟨hend, hacc.errorDropped hend⟩)⟩
    | contextDone => exact absurd (hacc.contextDone hend) hcaller
  · simp only [not_forall] at hpart
    obtain ⟨m, hm, ht⟩ := hpart
    have hnot : c.stream.ending ≠ some .contextDone := fun h ↦ hcaller (hacc.contextDone h)
    exact .inl (answered_of_mem (hrelays.mem_delivered hhand hnot hm) ht)

/-- A final transcript, then the end of the call. -/
theorem answered_or_unreported_run : ∃ (w : World) (c : SttCall), w.stt[0]? = some c ∧
    c.closeSends.length = 1 ∧
    c.stream.ending = some .eof ∧
    (Answered c.stream ∨
      (∀ m ∈ c.stream.received, m.type = .partialEvent) ∧
        (c.stream.ending = some .closedByCaller ∨ c.stream.ending = some .callOver ∨
          c.stream.ending = some .errorDropped ∧ 16 ≤ c.stream.delivered.length)) := by
  have hw : ∃ w c, system.run (startActions ++ endUtteranceActions ++
      [Action.sttRecvPump 0 (.message ⟨.finalEvent, [], none, "", ""⟩), .sttRecvPump 0 .next,
        .sttRecvPump 0 .eof, .sttRecvPump 0 .next]) = some w ∧ w.stt[0]? = some c ∧
      c.closeSends.length = 1 ∧ c.closeCalled = false ∧ w.cancelled = false ∧
        c.stream.eventsClosed = true ∧ c.stream.ending = some .eof ∧
          ∃ m ∈ c.stream.received, m.type = .finalEvent :=
    ⟨_, _, rfl, rfl, rfl, rfl, rfl, rfl, rfl, _, List.mem_cons_self, rfl⟩
  obtain ⟨w, c, hrun, hc, hs, hclose, hctx, hev, hend, hm⟩ := hw
  have hr := TransitionSystem.reachable_of_run hrun
  exact ⟨w, c, hc, hs, hend, answered_or_unreported w 0 c hr hc hclose hctx hev fun _ ↦ hm⟩

/-- The backend dies after the utterance was ended: the half-closed stream ends without a word. -/
theorem not_answered : ∃ w c f, system.run (startActions ++ endUtteranceActions ++
      [.sttRecvPump 0 (.error "unavailable"), .sttRecvPump 0 .next, .sttRecvPump 0 .next]) =
        some w ∧
    w.stt[0]? = some c ∧ f ∈ c.closeSends ∧ f ∈ c.sent ∧ f.endOfUtterance = true ∧
      c.closeCalled = false ∧ w.cancelled = false ∧ c.stream.eventsClosed = true ∧
        ¬ Answered c.stream := by
  refine ⟨_, _, _, rfl, rfl, List.mem_cons_self, List.mem_cons_self, rfl, rfl, rfl, rfl, ?_⟩
  rintro ⟨e, he, -⟩
  exact absurd he List.not_mem_nil

end BibiCore.Session
