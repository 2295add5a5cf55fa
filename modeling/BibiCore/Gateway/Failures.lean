import BibiCore.Base.TransitionSystem
import BibiCore.Gateway.Clients
import BibiCore.Gateway.Relay

/-!
# Whether a failed call says so

`internal/llm/client.go:127` and `internal/tts/client.go:118`. A call that errors or goes idle is
reported by `emitError`, one non-blocking send on a channel of sixteen events. The runs below
interleave `recvPump` with a consumer of any pace, with `Close` and with the end of the context
the call was opened with.
-/

namespace BibiCore.Gateway

variable {μ ε : Type}

/-- One call of a client: its stream, and whether the context it was opened with is done. -/
structure Call (μ ε : Type) where
  stream : Stream μ ε
  parentDone : Bool

/-- A step of `recvPump`, one receive of the consumer, `Close`, or the end of the parent
context. -/
inductive CallAction (μ : Type) where
  | recvPump (a : PumpAction μ)
  | take
  | close
  | cancelParent
  deriving DecidableEq

/-- A call and everybody who holds it. -/
def callSystem (spec : PumpSpec μ ε) : TransitionSystem (Call μ ε) (CallAction μ) where
  init := ⟨.opened, false⟩
  step c a :=
    match a with
    | .recvPump a =>
      (c.stream.recvPump spec c.parentDone a).map fun s ↦ { c with stream := s }
    | .take => c.stream.next?.map fun p ↦ { c with stream := p.2 }
    | .close => some { c with stream := c.stream.close }
    | .cancelParent => some { c with parentDone := true }

/-- The code and the text `recvPump` reports when the call ends abnormally: a `Recv` error other
than `io.EOF`, or the idle timeout. -/
def PumpSpec.failure? (spec : PumpSpec μ ε) : PumpAction μ → Option (String × String)
  | .error message => some (spec.streamErrorCode, message)
  | .timeout => some (spec.timeoutCode, spec.timeoutMessage)
  | _ => none

/-- If this step is the send of `emitError`, there is room for it. -/
def HasRoom (c : Call μ ε) (a : CallAction μ) : Prop :=
  match a, c.stream.pump with
  | .recvPump .next, .emitError _ _ => ¬ c.stream.events.Full
  | _, _ => True

/-! ### One failure on its way -/

/-- What has become of a failure: not yet reported, put on `Events` behind every received
message, given up, or hushed by the closed flag. -/
def Stream.Reports (spec : PumpSpec μ ε) (s : Stream μ ε) (f : String × String) : Prop :=
  match s.pump with
  | .failed message => f = (spec.streamErrorCode, message)
  | .emitError code message => f = (code, message)
  | .closing r | .done r =>
    match r with
    | .errorSent => s.delivered = s.received.map spec.mapEvent ++ [spec.errorEvent f.1 f.2]
    | .errorDropped => True
    | .closedByCaller => s.closed = true
    | .eof | .contextDone | .callOver => False
  | .recv | .deliver _ => False

namespace Stream

variable {spec : PumpSpec μ ε} {parentDone : Bool} {s t : Stream μ ε} {f : String × String}

/-- The step that fails the call starts its report. -/
theorem reports_of_failure {a : PumpAction μ} (hf : spec.failure? a = some f)
    (h : s.recvPump spec parentDone a = some t) : t.Reports spec f := by
  cases pumpStep_of_recvPump h with
  | error message hp =>
    have heq : (spec.streamErrorCode, message) = f := Option.some.inj hf
    exact heq.symm
  | timeout hp =>
    have heq : (spec.timeoutCode, spec.timeoutMessage) = f := Option.some.inj hf
    exact heq.symm
  | _ => cases hf

/-- `recvPump` carries a report on. -/
theorem Reports.recvPump {a : PumpAction μ} (hs : s.Reports spec f) (hr : s.Relays spec)
    (h : s.recvPump spec parentDone a = some t) : t.Reports spec f := by
  unfold Reports at hs
  cases pumpStep_of_recvPump h with
  | message _ hp | eof hp | error _ hp | timeout hp | callOver hp | put _ _ hp =>
    rw [hp] at hs
    exact hs.elim
  | contextDone hp hc =>
    rcases hp with hp | ⟨e, hp⟩
    all_goals
      rw [hp] at hs
      exact hs.elim
  | closedByCaller message hp hc => exact hc
  | report message hp hc =>
    rw [hp] at hs
    exact hs
  | errorSent code message c hp hc =>
    rw [hp] at hs
    simp only [Relays, ending, inHand, hp, List.append_nil] at hr
    subst hs
    show Stream.delivered _ = _
    rw [delivered_send hc, hr]
  | errorDropped code message hp hf => trivial
  | close r hp =>
    rw [hp] at hs
    exact hs

/-- A receive of the consumer leaves a report where it is. -/
theorem Reports.next? {e : ε} (hs : s.Reports spec f) (h : s.next? = some (e, t)) :
    t.Reports spec f := by
  have hd := delivered_next? h
  obtain ⟨-, ht⟩ := next?_eq_some h
  have hp : t.pump = s.pump := by rw [ht]
  have hr : t.received = s.received := by rw [ht]
  have hc : t.closed = s.closed := by rw [ht]
  unfold Reports at *
  rwa [hp, hd, hr, hc]

/-- `Close` leaves a report where it is. -/
theorem Reports.close (hs : s.Reports spec f) : s.close.Reports spec f := by
  unfold Reports at *
  rw [close_pump, close_delivered, close_received, close_closed]
  cases hp : s.pump with
  | closing r | done r =>
    rw [hp] at hs
    cases r with
    | closedByCaller => rfl
    | _ => exact hs
  | _ =>
    rw [hp] at hs
    exact hs

/-- An error is given up by the send of `emitError` that finds no room, and by nothing else. -/
theorem ending_recvPump {a : PumpAction μ} (h : s.recvPump spec parentDone a = some t) :
    t.ending ≠ some .errorDropped ↔
      s.ending ≠ some .errorDropped ∧ HasRoom ⟨s, parentDone⟩ (.recvPump a) := by
  cases pumpStep_of_recvPump h with
  | contextDone hp hc =>
    rcases hp with hp | ⟨e, hp⟩
    all_goals simp [HasRoom, ending, hp]
  | errorSent code message c hp hc =>
    have hlt := (Chan.send?_eq_some.mp hc).1
    have hroom : ¬ s.events.Full := by
      unfold Chan.Full
      omega
    simp [HasRoom, ending, hp, hroom]
  | errorDropped code message hp hf => simp [HasRoom, ending, hp, hf]
  | message _ hp | eof hp | error _ hp | timeout hp | callOver hp | put _ _ hp | closedByCaller _ hp
  | report _ hp | close _ hp => simp [HasRoom, ending, hp]

end Stream

/-! ### Every run -/

/-- What the actions of a run have left behind in the call. -/
structure Call.Sound (spec : PumpSpec μ ε) (as : List (CallAction μ)) (c : Call μ ε) : Prop where
  relays : c.stream.Relays spec
  closed : c.stream.closed = true → .close ∈ as
  reports : ∀ a f, .recvPump a ∈ as → spec.failure? a = some f → c.stream.Reports spec f
  room : c.stream.ending ≠ some .errorDropped ↔
    (callSystem spec).Along HasRoom (callSystem spec).init as

namespace Call.Sound

variable {spec : PumpSpec μ ε} {as : List (CallAction μ)} {c d : Call μ ε}

private theorem of_other {a : CallAction μ} (hs : c.Sound spec as)
    (hrun : (callSystem spec).run as = some c) (hn : ∀ b, a ≠ .recvPump b)
    (hr : d.stream.Relays spec) (hc : d.stream.closed = true → .close ∈ as ++ [a])
    (hf : ∀ f, c.stream.Reports spec f → d.stream.Reports spec f)
    (he : d.stream.ending = c.stream.ending) : d.Sound spec (as ++ [a]) := by
  refine ⟨hr, hc, fun b f hb hbf ↦ ?_, ?_⟩
  · rcases List.mem_append.mp hb with hb | hb
    · exact hf f (hs.reports b f hb hbf)
    · exact absurd (List.mem_singleton.mp hb).symm (hn b)
  · have hroom : HasRoom c a := by
      unfold HasRoom
      split
      · exact absurd rfl (hn .next)
      · trivial
    rw [TransitionSystem.along_concat hrun, he, hs.room]
    exact (and_iff_left hroom).symm

/-- One step of anybody. -/
theorem step {a : CallAction μ} (hs : c.Sound spec as) (hrun : (callSystem spec).run as = some c)
    (h : (callSystem spec).step c a = some d) : d.Sound spec (as ++ [a]) := by
  have hmem {b : CallAction μ} (hb : b ∈ as) : b ∈ as ++ [a] := List.mem_append_left _ hb
  cases a with
  | recvPump a =>
    obtain ⟨t, ht, rfl⟩ := Option.map_eq_some_iff.mp h
    refine ⟨hs.relays.recvPump ht, fun hc ↦ ?_, fun b f hb hf ↦ ?_, ?_⟩
    · rw [(Stream.recvPump_frame ht).1] at hc
      exact hmem (hs.closed hc)
    · rcases List.mem_append.mp hb with hb | hb
      · exact (hs.reports b f hb hf).recvPump hs.relays ht
      · obtain rfl : b = a := CallAction.recvPump.inj (List.mem_singleton.mp hb)
        exact Stream.reports_of_failure hf ht
    · rw [TransitionSystem.along_concat hrun, ← hs.room]
      exact Stream.ending_recvPump ht
  | take =>
    obtain ⟨⟨e, t⟩, ht, rfl⟩ := Option.map_eq_some_iff.mp h
    have hst := (Stream.next?_eq_some ht).2
    refine hs.of_other hrun (by simp) (hs.relays.next? ht) (fun hc ↦ ?_)
      (fun f hf ↦ hf.next? ht) ?_
    · rw [show t.closed = c.stream.closed by rw [hst]] at hc
      exact hmem (hs.closed hc)
    · show t.ending = c.stream.ending
      rw [Stream.ending, Stream.ending, show t.pump = c.stream.pump by rw [hst]]
  | close =>
    cases h
    exact hs.of_other hrun (by simp) hs.relays.close (fun _ ↦ by simp) (fun f hf ↦ hf.close) rfl
  | cancelParent =>
    cases h
    exact hs.of_other hrun (by simp) hs.relays (fun hc ↦ hmem (hs.closed hc)) (fun f hf ↦ hf) rfl

end Call.Sound

/-- The end of every run is sound. -/
theorem sound_of_run {spec : PumpSpec μ ε} {as : List (CallAction μ)} {c : Call μ ε}
    (h : (callSystem spec).run as = some c) : c.Sound spec as := by
  refine TransitionSystem.run_induction (J := fun as c ↦ c.Sound spec as) ?_ ?_ h
  · refine ⟨Stream.relays_opened, ?_, ?_, ?_⟩
    · simp [callSystem, Stream.opened]
    · simp
    · simp [callSystem, Stream.opened, Stream.ending, TransitionSystem.Along]
  · intro as s a t hrun hs hstep
    exact hs.step hrun hstep

/-! ### The error event -/

/-- A run that ends with `Events` closed, in which the call failed with the code and text `f` and
nobody called `Close`. -/
structure FailedRun (spec : PumpSpec μ ε) (as : List (CallAction μ)) (c : Call μ ε)
    (f : String × String) : Prop where
  run : (callSystem spec).run as = some c
  failed : ∃ a, .recvPump a ∈ as ∧ spec.failure? a = some f
  notClosed : .close ∉ as
  eventsClosed : c.stream.eventsClosed = true

/-- The error event is the last thing on `Events`, behind every received message, when the send of
`emitError` had room; when it had none, there is nothing on `Events` but the messages. -/
theorem FailedRun.reported {spec : PumpSpec μ ε} {as : List (CallAction μ)} {c : Call μ ε}
    {f : String × String} (h : FailedRun spec as c f) :
    (callSystem spec).Along HasRoom (callSystem spec).init as ∧
        c.stream.delivered =
          c.stream.received.map spec.mapEvent ++ [spec.errorEvent f.1 f.2] ∨
      ¬ (callSystem spec).Along HasRoom (callSystem spec).init as ∧
        c.stream.delivered = c.stream.received.map spec.mapEvent := by
  have hs := sound_of_run h.run
  obtain ⟨a, ha, hf⟩ := h.failed
  have hreports := hs.reports a f ha hf
  have hclosed := h.eventsClosed
  unfold Stream.eventsClosed at hclosed
  split at hclosed
  · next r hp =>
    have hend : c.stream.ending = some r := by rw [Stream.ending, hp]
    have hroom := hs.room
    rw [hend] at hroom
    simp only [Stream.Reports, hp] at hreports
    cases r with
    | errorSent => exact .inl ⟨hroom.mp (by simp), hreports⟩
    | errorDropped =>
      have hrelays := hs.relays
      simp only [Stream.Relays, hend, Stream.inHand, hp, List.append_nil] at hrelays
      exact .inr ⟨fun hr ↦ hroom.mpr hr rfl, hrelays⟩
    | closedByCaller => exact absurd (hs.closed hreports) h.notClosed
    | eof | contextDone | callOver => exact hreports.elim
  · cases hclosed

/-- A failed answer and failed speech, in every run in which nobody called `Close`: by the time
`Events` is closed the error event is on it, unless `Events` held sixteen unread events when
`emitError` made its one send. -/
theorem error_put_unless_full :
    (∀ as (c : Call Proto.ChatEvent ChatEvent) (f : String × String), FailedRun llmPump as c f →
      (callSystem llmPump).Along HasRoom (callSystem llmPump).init as ∧
          c.stream.delivered = c.stream.received.map mapChatEvent ++ [.error f.1 f.2] ∨
        ¬ (callSystem llmPump).Along HasRoom (callSystem llmPump).init as ∧
          c.stream.delivered = c.stream.received.map mapChatEvent) ∧
    (∀ as (c : Call Proto.TtsAudioChunkMsg AudioChunk) (f : String × String),
      FailedRun ttsPump as c f →
      (callSystem ttsPump).Along HasRoom (callSystem ttsPump).init as ∧
          c.stream.delivered = c.stream.received.map mapAudioChunk ++ [.error f.1 f.2] ∨
        ¬ (callSystem ttsPump).Along HasRoom (callSystem ttsPump).init as ∧
          c.stream.delivered = c.stream.received.map mapAudioChunk) :=
  ⟨fun _ _ _ h ↦ h.reported, fun _ _ _ h ↦ h.reported⟩

/-- An idle backend after one chunk of audio that nobody took. -/
theorem error_put_unless_full_idle : ∃ as c, FailedRun ttsPump as c
      ("tts_timeout", "tts service did not respond in time") ∧
    ((callSystem ttsPump).Along HasRoom (callSystem ttsPump).init as ∧
        c.stream.delivered = c.stream.received.map mapAudioChunk ++
          [.error "tts_timeout" "tts service did not respond in time"] ∨
      ¬ (callSystem ttsPump).Along HasRoom (callSystem ttsPump).init as ∧
        c.stream.delivered = c.stream.received.map mapAudioChunk) := by
  have hw : ∃ as c, FailedRun ttsPump as c
      ("tts_timeout", "tts service did not respond in time") :=
    ⟨[.recvPump (.message ⟨[1, 2], 22050, 1, 2⟩), .recvPump .next, .recvPump .timeout,
        .recvPump .next, .recvPump .next], _,
      ⟨rfl, ⟨.timeout, by decide, rfl⟩, by decide, rfl⟩⟩
  obtain ⟨as, c, h⟩ := hw
  exact ⟨as, c, h, error_put_unless_full.2 as c _ h⟩

/-- A backend that sends sixteen messages to a consumer that takes none. -/
def sixteenUnread (m : μ) : List (CallAction μ) :=
  (List.replicate 16 [.recvPump (.message m), .recvPump .next]).flatten

/-- After sixteen unread messages a broken call and a completed one put the same on `Events`. -/
theorem not_error_put :
    (∃ c d, FailedRun llmPump (sixteenUnread ⟨.chunk, "Hi", "", ""⟩ ++
          [.recvPump (.error "unavailable"), .recvPump .next, .recvPump .next, .recvPump .next]) c
        ("llm_stream_error", "unavailable") ∧
      (callSystem llmPump).run (sixteenUnread ⟨.chunk, "Hi", "", ""⟩ ++
        [.recvPump .eof, .recvPump .next]) = some d ∧
      c.parentDone = false ∧ d.stream.eventsClosed = true ∧
      c.stream.delivered = d.stream.delivered ∧
      ∀ code message, .error code message ∉ c.stream.delivered) ∧
    ∃ c d, FailedRun ttsPump (sixteenUnread ⟨[1, 2], 22050, 1, 2⟩ ++
          [.recvPump .timeout, .recvPump .next, .recvPump .next]) c
        ("tts_timeout", "tts service did not respond in time") ∧
      (callSystem ttsPump).run (sixteenUnread ⟨[1, 2], 22050, 1, 2⟩ ++
        [.recvPump .eof, .recvPump .next]) = some d ∧
      c.parentDone = false ∧ d.stream.eventsClosed = true ∧
      c.stream.delivered = d.stream.delivered ∧
      ∀ code message, .error code message ∉ c.stream.delivered := by
  constructor
  · have hw : ∃ c d, FailedRun llmPump (sixteenUnread ⟨.chunk, "Hi", "", ""⟩ ++
          [.recvPump (.error "unavailable"), .recvPump .next, .recvPump .next, .recvPump .next]) c
        ("llm_stream_error", "unavailable") ∧
      (callSystem llmPump).run (sixteenUnread ⟨.chunk, "Hi", "", ""⟩ ++
        [.recvPump .eof, .recvPump .next]) = some d ∧
      c.parentDone = false ∧ d.stream.eventsClosed = true ∧
      c.stream.delivered = List.replicate 16 (.chunk "Hi") ∧
      d.stream.delivered = List.replicate 16 (.chunk "Hi") :=
      ⟨_, _, ⟨rfl, ⟨.error "unavailable", by decide, rfl⟩, by decide, rfl⟩, rfl, rfl, rfl, rfl, rfl⟩
    obtain ⟨c, d, hc, hd, hp, hclosed, hcd, hdd⟩ := hw
    refine ⟨c, d, hc, hd, hp, hclosed, hcd.trans hdd.symm, fun code message h ↦ ?_⟩
    rw [hcd] at h
    cases List.eq_of_mem_replicate h
  · have hw : ∃ c d, FailedRun ttsPump (sixteenUnread ⟨[1, 2], 22050, 1, 2⟩ ++
          [.recvPump .timeout, .recvPump .next, .recvPump .next]) c
        ("tts_timeout", "tts service did not respond in time") ∧
      (callSystem ttsPump).run (sixteenUnread ⟨[1, 2], 22050, 1, 2⟩ ++
        [.recvPump .eof, .recvPump .next]) = some d ∧
      c.parentDone = false ∧ d.stream.eventsClosed = true ∧
      c.stream.delivered = List.replicate 16 (.audio [1, 2] ⟨22050, 1, 2⟩) ∧
      d.stream.delivered = List.replicate 16 (.audio [1, 2] ⟨22050, 1, 2⟩) :=
      ⟨_, _, ⟨rfl, ⟨.timeout, by decide, rfl⟩, by decide, rfl⟩, rfl, rfl, rfl, rfl, rfl⟩
    obtain ⟨c, d, hc, hd, hp, hclosed, hcd, hdd⟩ := hw
    refine ⟨c, d, hc, hd, hp, hclosed, hcd.trans hdd.symm, fun code message h ↦ ?_⟩
    rw [hcd] at h
    cases List.eq_of_mem_replicate h

end BibiCore.Gateway
