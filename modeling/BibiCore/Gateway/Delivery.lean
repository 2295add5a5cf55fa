import BibiCore.Gateway.ServedCall
import BibiCore.Gateway.Relay

/-!
# What a consumer reads from `Events`

In every run of a served call `Events` carries the server's messages from the first on, then at
most one error that `recvPump` reports itself, then the one close. A call that nobody disturbs and
that the server ends with EOF leaves nothing out.
-/

namespace BibiCore.Gateway

variable {μ ε : Type}

/-! ### Every run -/

/-- Nobody called `Close`, the context was not cancelled and the idle timer did not fire. -/
def Undisturbed (as : List (ServedAction μ)) : Prop :=
  .close ∉ as ∧ .cancelParent ∉ as ∧ .recvPump .timeout ∉ as

instance [DecidableEq μ] (as : List (ServedAction μ)) : Decidable (Undisturbed as) :=
  inferInstanceAs (Decidable (_ ∧ _ ∧ _))

private theorem undisturbed_concat {as : List (ServedAction μ)} {a : ServedAction μ} :
    Undisturbed (as ++ [a]) ↔
      Undisturbed as ∧ a ≠ .close ∧ a ≠ .cancelParent ∧ a ≠ .recvPump .timeout := by
  simp only [Undisturbed, List.mem_append, List.mem_singleton, not_or, ne_eq, eq_comm]
  tauto

namespace ServedCall

variable {spec : PumpSpec μ ε} {halfCloses : Bool} {as : List (ServedAction μ)}
  {c d : ServedCall μ ε}

/-- The message in `recvCh`. -/
def pending (c : ServedCall μ ε) : List μ :=
  match c.receiver with
  | .result (.message m) => [m]
  | _ => []

/-- A call that has not failed and that nobody disturbed. -/
structure Quiet (spec : PumpSpec μ ε) (c : ServedCall μ ε) : Prop where
  cancelled : c.stream.cancelled = false
  parentDone : c.parentDone = false
  eof : c.receiver = .result .eof → c.ended = some .eof ∧ c.inFlight = []
  error : ∀ message, c.receiver ≠ .result (.error message)
  isOver : c.callOver = true → c.receiver = .result .eof ∨ c.stream.pumpReturned = true
  working : c.stream.pump = .recv ∨ (∃ e, c.stream.pump = .deliver e) ∨
    c.stream.pumpReturned = true
  left : c.stream.pumpReturned = true →
    c.receiver ≠ .running ∧ c.ended = some .eof ∧ c.stream.delivered = c.sent.map spec.mapEvent

/-- What a run has left behind in the call. -/
structure Sound (spec : PumpSpec μ ε) (halfCloses : Bool) (as : List (ServedAction μ))
    (c : ServedCall μ ε) : Prop where
  relays : c.stream.Relays spec
  taken : ∀ e, c.stream.pump = .deliver e → c.receiver = .taken
  sent : c.sent = c.stream.received ++ c.pending ++ c.inFlight
  log : eventsLog spec halfCloses as = c.stream.log
  quiet : Undisturbed as → (∀ message, c.ended ≠ some (.failed message)) → c.Quiet spec

private theorem sound_opened : (opened : ServedCall μ ε).Sound spec halfCloses [] where
  relays := Stream.relays_opened
  taken := by simp [opened, Stream.opened]
  sent := rfl
  log := rfl
  quiet := fun _ _ ↦
    { cancelled := rfl
      parentDone := rfl
      eof := by simp [opened]
      error := by simp [opened]
      isOver := by simp [opened]
      working := .inl rfl
      left := by simp [opened, Stream.opened, Stream.pumpReturned] }

/-- The pump takes from `recvCh` what the goroutine has put there. -/
theorem of_pumpAction?_recvCh {a : PumpAction μ} (h : c.pumpAction? .recvCh = some a) :
    (∃ m, c.receiver = .result (.message m) ∧ a = .message m) ∨
      (c.receiver = .result .eof ∧ a = .eof) ∨
      ∃ message, c.receiver = .result (.error message) ∧ a = .error message := by
  simp only [pumpAction?] at h
  split at h
  all_goals cases h
  · next m hr => exact .inl ⟨m, hr, rfl⟩
  · next hr => exact .inr (.inl ⟨hr, rfl⟩)
  · next message hr => exact .inr (.inr ⟨message, hr, rfl⟩)

/-- A step of anybody keeps the relays. -/
theorem relays_servedStep {a : ServedAction μ} (hs : c.stream.Relays spec)
    (h : ServedStep spec c a d) : d.stream.Relays spec := by
  cases h with
  | recvPump choice a t ha ht => exact hs.recvPump ht
  | take e t ht => exact hs.next? ht
  | _ => exact hs

/-- While the pump has a message in hand no `Recv` is running. -/
theorem taken_servedStep {a : ServedAction μ}
    (hs : ∀ e, c.stream.pump = .deliver e → c.receiver = .taken) (h : ServedStep spec c a d)
    (e : ε) (hd : d.stream.pump = .deliver e) : d.receiver = .taken := by
  cases h with
  | endContext | send | finish | closeSend | close | cancelParent => exact hs e hd
  | recvMessage m ms hr hf | recvEof hr he hf | recvFailed message hr he
  | recvCancelled message hr hc =>
    have ht := hs e hd
    rw [hr] at ht
    cases ht
  | take e' t ht =>
    have hp : t.pump = c.stream.pump := by rw [(Stream.next?_eq_some ht).2]
    exact hs e (hp.symm.trans hd)
  | recvPump choice a t ha ht =>
    cases choice with
    | recvCh => rfl
    | timeout | contextDone | next =>
      cases ha
      cases Stream.pumpStep_of_recvPump ht <;> cases hd

/-- A step of the pump moves the message of `recvCh` to the received ones. -/
theorem received_recvPump {choice : PumpChoice} {a : PumpAction μ} {t : Stream μ ε}
    (hs : ∀ e, c.stream.pump = .deliver e → c.receiver = .taken)
    (ha : c.pumpAction? choice = some a) (ht : c.stream.recvPump spec c.outerDone a = some t) :
    t.received ++ ({ c with receiver := c.receiverAfter choice } : ServedCall μ ε).pending =
      c.stream.received ++ c.pending := by
  cases choice with
  | recvCh =>
    obtain ⟨m, hr, rfl⟩ | ⟨hr, rfl⟩ | ⟨message, hr, rfl⟩ := of_pumpAction?_recvCh ha
    all_goals
      cases Stream.pumpStep_of_recvPump ht
      simp [pending, receiverAfter, hr]
  | timeout | contextDone =>
    cases ha
    cases Stream.pumpStep_of_recvPump ht
    rfl
  | next =>
    cases ha
    cases Stream.pumpStep_of_recvPump ht with
    | put e b hp hc => simp [pending, receiverAfter, hp, hs e hp]
    | closedByCaller message hp | report message hp | errorSent code message b hp
    | errorDropped code message hp | close r hp => simp [pending, receiverAfter, hp]

/-- No message of the server is lost on its way to the pump. -/
theorem sent_servedStep {a : ServedAction μ}
    (ht : ∀ e, c.stream.pump = .deliver e → c.receiver = .taken)
    (hs : c.sent = c.stream.received ++ c.pending ++ c.inFlight)
    (h : ServedStep spec c a d) : d.sent = d.stream.received ++ d.pending ++ d.inFlight := by
  cases h with
  | send m he => simp [hs, pending]
  | recvMessage m ms hr hf => simpa [pending, hr, hf] using hs
  | recvEof hr he hf => simpa [pending, hr] using hs
  | recvFailed message hr he => simpa [pending, hr] using hs
  | recvCancelled message hr hc => simpa [pending, hr] using hs
  | take e t ht =>
    have hr : t.received = c.stream.received := by rw [(Stream.next?_eq_some ht).2]
    show c.sent = t.received ++ c.pending ++ c.inFlight
    rw [hr, hs]
  | recvPump choice a t ha hp =>
    show c.sent = t.received ++ _ ++ c.inFlight
    rw [hs, ← received_recvPump ht ha hp]
    rfl
  | _ => exact hs

/-- A step of anybody adds to the log what it does to `Events`. -/
theorem log_servedStep {a : ServedAction μ} (h : ServedStep spec c a d) :
    d.stream.log = c.stream.log ++ c.eventsOps spec a := by
  cases h with
  | recvPump choice a t ha ht =>
    simp only [eventsOps, ha, Option.map_some, Option.getD_some]
    exact Stream.log_recvPump ht
  | take e t ht =>
    rw [Stream.log_next? ht]
    exact (List.append_nil _).symm
  | _ => exact (List.append_nil _).symm

namespace Quiet

/-- Nothing has ended the context of a quiet call but its own end. -/
theorem callOver_of_contextDone (hs : c.Quiet spec) (h : c.stream.ContextDone c.outerDone) :
    c.callOver = true := by
  have hc := hs.cancelled
  have hp := hs.parentDone
  simpa [Stream.ContextDone, outerDone, hc, hp] using h

/-- While the pump of a quiet call has not returned, the call is over only once EOF is received. -/
theorem callOver_eq_false (hs : c.Quiet spec) (hret : c.stream.pumpReturned = false)
    (hrec : c.receiver ≠ .result .eof) : c.callOver = false := by
  cases ho : c.callOver with
  | false => rfl
  | true =>
    rcases hs.isOver ho with he | hr
    · exact absurd he hrec
    · rw [hret] at hr
      cases hr

/-- When the pump leaves its receive loop, it has delivered everything the server sent. -/
theorem delivered_of_eof (hs : c.Quiet spec) (hr : c.stream.Relays spec)
    (hsent : c.sent = c.stream.received ++ c.pending ++ c.inFlight)
    (hp : c.stream.pump = .recv) (he : c.receiver = .result .eof) :
    c.stream.delivered = c.sent.map spec.mapEvent := by
  simp only [Stream.Relays, Stream.ending, Stream.inHand, hp, List.append_nil] at hr
  simp [hsent, pending, he, (hs.eof he).2, hr]

/-- The pump of a quiet call leaves its receive loop behind the server's last message. -/
theorem of_left {t : Stream μ ε} {r : Receiver μ} (hs : c.Quiet spec) (hr : c.stream.Relays spec)
    (hsent : c.sent = c.stream.received ++ c.pending ++ c.inFlight)
    (hp : c.stream.pump = .recv) (he : c.receiver = .result .eof) (hrun : r ≠ .running)
    (herr : ∀ message, r ≠ .result (.error message)) (hc : t.cancelled = c.stream.cancelled)
    (hd : t.delivered = c.stream.delivered) (hl : t.pumpReturned = true) :
    ({ c with stream := t, receiver := r } : ServedCall μ ε).Quiet spec where
  cancelled := hc.trans hs.cancelled
  parentDone := hs.parentDone
  eof := fun _ ↦ hs.eof he
  error := herr
  isOver := fun _ ↦ .inr hl
  working := .inr (.inr hl)
  left := fun _ ↦ ⟨hrun, (hs.eof he).1, hd.trans (hs.delivered_of_eof hr hsent hp he)⟩

/-- A step of the pump that is no timeout. -/
theorem recvPump {choice : PumpChoice} {a : PumpAction μ} {t : Stream μ ε} (hs : c.Quiet spec)
    (hr : c.stream.Relays spec) (htaken : ∀ e, c.stream.pump = .deliver e → c.receiver = .taken)
    (hsent : c.sent = c.stream.received ++ c.pending ++ c.inFlight)
    (hn : choice ≠ .timeout) (ha : c.pumpAction? choice = some a)
    (ht : c.stream.recvPump spec c.outerDone a = some t) :
    ({ c with stream := t, receiver := c.receiverAfter choice } : ServedCall μ ε).Quiet spec := by
  cases choice with
  | recvCh =>
    obtain ⟨m, hm, rfl⟩ | ⟨he, rfl⟩ | ⟨message, hf, rfl⟩ := of_pumpAction?_recvCh ha
    · cases Stream.pumpStep_of_recvPump ht with
      | message m hp =>
        have hover : c.callOver = false :=
          hs.callOver_eq_false (by simp [Stream.pumpReturned, hp]) (by simp [hm])
        exact ⟨hs.cancelled, hs.parentDone, by simp [receiverAfter], by simp [receiverAfter],
          by simp [hover], .inr (.inl ⟨_, rfl⟩), by simp [Stream.pumpReturned]⟩
    · cases Stream.pumpStep_of_recvPump ht with
      | eof hp =>
        exact hs.of_left hr hsent hp he (by simp [receiverAfter]) (by simp [receiverAfter]) rfl rfl
          rfl
    · exact absurd hf (hs.error message)
  | timeout => exact absurd rfl hn
  | contextDone =>
    cases ha
    cases Stream.pumpStep_of_recvPump ht with
    | contextDone hp hc =>
      have hret : c.stream.pumpReturned = false := by
        rcases hp with hp | ⟨e, hp⟩
        all_goals simp [Stream.pumpReturned, hp]
      have he : c.receiver = .result .eof :=
        (hs.isOver (hs.callOver_of_contextDone hc)).resolve_right (by simp [hret])
      have hp : c.stream.pump = .recv :=
        hp.resolve_right fun ⟨e, hp⟩ ↦ by simp [htaken e hp] at he
      exact hs.of_left hr hsent hp he (by simp [receiverAfter, he]) (by simp [receiverAfter, he])
        rfl rfl rfl
  | next =>
    have hworking := hs.working
    cases ha
    cases Stream.pumpStep_of_recvPump ht with
    | put e b hp hc =>
      have hover : c.callOver = false :=
        hs.callOver_eq_false (by simp [Stream.pumpReturned, hp]) (by simp [htaken e hp])
      exact ⟨hs.cancelled, hs.parentDone, by simp [receiverAfter, hp], by simp [receiverAfter, hp],
        by simp [hover], .inl rfl, by simp [Stream.pumpReturned]⟩
    | closedByCaller message hp | report message hp | errorSent code message b hp
    | errorDropped code message hp => simp [Stream.pumpReturned, hp] at hworking
    | close r hp =>
      have hret : c.stream.pumpReturned = true := by simp [Stream.pumpReturned, hp]
      have hrec : c.receiverAfter .next = c.receiver := by simp [receiverAfter, hp]
      rw [hrec]
      exact ⟨hs.cancelled, hs.parentDone, hs.eof, hs.error, fun _ ↦ .inr rfl, .inr (.inr rfl),
        fun _ ↦ hs.left hret⟩

/-- A step of anybody that neither fails nor disturbs the call. -/
theorem servedStep {a : ServedAction μ} (hs : c.Quiet spec) (hr : c.stream.Relays spec)
    (htaken : ∀ e, c.stream.pump = .deliver e → c.receiver = .taken)
    (hsent : c.sent = c.stream.received ++ c.pending ++ c.inFlight) (h : ServedStep spec c a d)
    (hn : a ≠ .close ∧ a ≠ .cancelParent ∧ a ≠ .recvPump .timeout)
    (hf : ∀ message, d.ended ≠ some (.failed message)) : d.Quiet spec := by
  cases h with
  | send m he | finish e he =>
    have hopen (he' : c.ended = some .eof) : False := by simp [he] at he'
    exact ⟨hs.cancelled, hs.parentDone, fun hrec ↦ (hopen (hs.eof hrec).1).elim, hs.error,
      hs.isOver, hs.working, fun hl ↦ (hopen (hs.left hl).2.1).elim⟩
  | endContext ho =>
    have heof : c.receiver = .result .eof := ho.resolve_right fun ⟨message, he⟩ ↦ hf message he
    exact ⟨hs.cancelled, hs.parentDone, hs.eof, hs.error, fun _ ↦ .inl heof, hs.working, hs.left⟩
  | recvMessage m ms hrun hfl =>
    have hover (ho : c.callOver = true) := (hs.isOver ho).resolve_left (by simp [hrun])
    exact ⟨hs.cancelled, hs.parentDone, by simp, by simp, fun ho ↦ .inr (hover ho), hs.working,
      fun hl ↦ absurd hrun (hs.left hl).1⟩
  | recvEof hrun he hfl =>
    exact ⟨hs.cancelled, hs.parentDone, fun _ ↦ ⟨he, hfl⟩, by simp, fun _ ↦ .inl rfl, hs.working,
      fun hl ↦ absurd hrun (hs.left hl).1⟩
  | recvFailed message hrun he => exact absurd he (hf message)
  | recvCancelled message hrun hc =>
    have ho := hs.callOver_of_contextDone hc
    have hl := (hs.isOver ho).resolve_left (by simp [hrun])
    exact absurd hrun (hs.left hl).1
  | recvPump choice a t ha ht =>
    exact hs.recvPump hr htaken hsent (fun hc ↦ hn.2.2 (congrArg _ hc)) ha ht
  | take e t ht =>
    have hd := Stream.delivered_next? ht
    obtain ⟨-, heq⟩ := Stream.next?_eq_some ht
    have hp : t.pump = c.stream.pump := by rw [heq]
    have hc : t.cancelled = c.stream.cancelled := by rw [heq]
    have hret : t.pumpReturned = c.stream.pumpReturned := by
      rw [Stream.pumpReturned, Stream.pumpReturned, hp]
    refine ⟨hc.trans hs.cancelled, hs.parentDone, hs.eof, hs.error, ?_, ?_, ?_⟩
    · show c.callOver = true → _ ∨ t.pumpReturned = true
      rw [hret]
      exact hs.isOver
    · show t.pump = _ ∨ (∃ e, t.pump = _) ∨ t.pumpReturned = true
      rw [hret, hp]
      exact hs.working
    · show t.pumpReturned = true → _ ∧ _ ∧ t.delivered = _
      rw [hret, hd]
      exact hs.left
  | closeSend =>
    exact ⟨hs.cancelled, hs.parentDone, hs.eof, hs.error, hs.isOver, hs.working, hs.left⟩
  | close => exact absurd rfl hn.1
  | cancelParent => exact absurd rfl hn.2.1

end Quiet

/-- How a call has ended does not change any more. -/
theorem ended_servedStep {a : ServedAction μ} {e : CallEnd} (he : c.ended = some e)
    (h : ServedStep spec c a d) : d.ended = some e := by
  cases h with
  | finish e' hn =>
    rw [he] at hn
    cases hn
  | _ => exact he

/-- One step of anybody. -/
theorem Sound.step {a : ServedAction μ} (hs : c.Sound spec halfCloses as)
    (hrun : (servedSystem spec halfCloses).run as = some c)
    (h : (servedSystem spec halfCloses).step c a = some d) :
    d.Sound spec halfCloses (as ++ [a]) := by
  have hstep := servedStep_of_step h
  refine ⟨relays_servedStep hs.relays hstep, taken_servedStep hs.taken hstep,
    sent_servedStep hs.taken hs.sent hstep, ?_, fun hu hf ↦ ?_⟩
  · have hlog := @TransitionSystem.emitted_concat _ _ _ _ (eventsOps spec) _ _ _ _ _ hrun h
    rw [log_servedStep hstep, ← hs.log]
    exact hlog
  · obtain ⟨hu, hn⟩ := undisturbed_concat.mp hu
    have hq := hs.quiet hu fun message he ↦ hf message (ended_servedStep he hstep)
    exact hq.servedStep hs.relays hs.taken hs.sent hstep hn hf

/-- The end of every run is sound. -/
theorem sound_of_run (h : (servedSystem spec halfCloses).run as = some c) :
    c.Sound spec halfCloses as :=
  TransitionSystem.run_induction (J := fun as c ↦ c.Sound spec halfCloses as) sound_opened
    (fun _ _ _ _ hrun hs hstep ↦ hs.step hrun hstep) h

end ServedCall

/-! ### What the consumer reads -/

/-- What a run has done to `Events` and what its consumer has read: messages of the server from
the first on, then at most one error of the pump's own, then the end. -/
structure Delivers (spec : PumpSpec μ ε) (halfCloses : Bool) (as : List (ServedAction μ))
    (c : ServedCall μ ε) : Prop where
  events : ∃ ms errors, ms <+: c.sent ∧
    (errors = [] ∨ ∃ code message, errors = [spec.errorEvent code message]) ∧
    eventsLog spec halfCloses as = (ms.map spec.mapEvent ++ errors).map .put ++
      (if c.stream.eventsClosed then [.close] else []) ∧
    c.stream.consumed <+: ms.map spec.mapEvent ++ errors ∧
    (c.stream.rangeOver → c.stream.consumed = ms.map spec.mapEvent ++ errors) ∧
    (errors ≠ [] → c.stream.pumpReturned = true)
  closes : c.stream.pumpReturned = true → c.stream.eventsClosed = true ∨
    ∃ d, (servedSystem spec halfCloses).step c (.recvPump .next) = some d ∧
      d.stream.eventsClosed = true
  complete : c.ended = some .eof → Undisturbed as → c.stream.eventsClosed = true →
    eventsLog spec halfCloses as = (c.sent.map spec.mapEvent).map .put ++ [.close] ∧
      (c.stream.rangeOver → c.stream.consumed = c.sent.map spec.mapEvent)

namespace Stream

variable {spec : PumpSpec μ ε} {s : Stream μ ε}

/-- The relays as messages from the first on and at most one error behind them. -/
theorem Relays.prefix_errors (hs : s.Relays spec) : ∃ ms errors, ms <+: s.received ∧
    (errors = [] ∨ ∃ code message, errors = [spec.errorEvent code message]) ∧
    s.delivered = ms.map spec.mapEvent ++ errors ∧ (errors ≠ [] → s.pumpReturned = true) := by
  have key (hp : s.delivered <+: s.received.map spec.mapEvent) : ∃ ms, ms <+: s.received ∧
      s.delivered = ms.map spec.mapEvent := by
    refine ⟨s.received.take s.delivered.length, List.take_prefix _ _, ?_⟩
    rw [List.map_take]
    exact List.prefix_iff_eq_take.mp hp
  unfold Relays at hs
  split at hs
  · next he =>
    obtain ⟨code, message, hd⟩ := hs
    refine ⟨s.received, _, List.prefix_rfl, .inr ⟨code, message, rfl⟩, hd, fun _ ↦ ?_⟩
    unfold ending at he
    unfold pumpReturned
    split at he <;> simp_all
  · obtain ⟨ms, hms, hd⟩ := key hs
    exact ⟨ms, [], hms, .inl rfl, by simpa using hd, by simp⟩
  · obtain ⟨ms, hms, hd⟩ := key (hs ▸ List.prefix_append _ _)
    exact ⟨ms, [], hms, .inl rfl, by simpa using hd, by simp⟩

/-- What a consumer finds in the events it reads is in the messages, from the first on, when it
finds nothing in the errors of the pump. -/
theorem Relays.filterMap_consumed {β : Type} {f : ε → Option β} (hs : s.Relays spec)
    (hf : ∀ code message, f (spec.errorEvent code message) = none) :
    s.consumed.filterMap f <+: (s.received.map spec.mapEvent).filterMap f := by
  obtain ⟨ms, errors, hms, herrors, hdelivered, -⟩ := hs.prefix_errors
  have hnone : errors.filterMap f = [] := by
    rcases herrors with rfl | ⟨code, message, rfl⟩ <;> simp [hf]
  have hread : s.consumed.filterMap f <+: s.delivered.filterMap f :=
    (List.prefix_append _ _).filterMap _
  rw [hdelivered, List.filterMap_append, hnone, List.append_nil] at hread
  exact hread.trans ((hms.map _).filterMap _)

/-- A consumer that has read to the end has read everything delivered. -/
theorem consumed_of_rangeOver (h : s.rangeOver) : s.consumed = s.delivered := by
  rw [delivered, h.2, List.append_nil]

end Stream

/-- Every run of a served call delivers. -/
theorem delivers_of_run {spec : PumpSpec μ ε} {halfCloses : Bool} {as : List (ServedAction μ)}
    {c : ServedCall μ ε} (h : (servedSystem spec halfCloses).run as = some c) :
    Delivers spec halfCloses as c := by
  have hs := ServedCall.sound_of_run h
  refine ⟨?_, fun hret ↦ ?_, fun he hu hclosed ↦ ?_⟩
  · obtain ⟨ms, errors, hms, herr, hd, hret⟩ := hs.relays.prefix_errors
    have hsent : c.stream.received <+: c.sent := by
      rw [hs.sent, List.append_assoc]
      exact List.prefix_append _ _
    refine ⟨ms, errors, hms.trans hsent, herr, ?_, ?_, fun hover ↦ ?_, hret⟩
    · rw [hs.log, Stream.log, hd]
    · rw [← hd]
      exact List.prefix_append _ _
    · rw [Stream.consumed_of_rangeOver hover, hd]
  · cases hp : c.stream.pump with
    | closing r =>
      refine .inr ⟨{ c with stream := { c.stream with pump := .done r } }, ?_, rfl⟩
      simp [servedSystem, ServedCall.pumpAction?, Stream.recvPump, ServedCall.receiverAfter, hp]
    | done r => exact .inl (by simp [Stream.eventsClosed, hp])
    | recv | deliver _ | failed _ | emitError _ _ => simp [Stream.pumpReturned, hp] at hret
  · have hret : c.stream.pumpReturned = true := by
      unfold Stream.eventsClosed at hclosed
      unfold Stream.pumpReturned
      split at hclosed <;> simp_all
    have hq := hs.quiet hu (by simp [he])
    have hd := (hq.left hret).2.2
    refine ⟨?_, fun hover ↦ ?_⟩
    · rw [hs.log, Stream.log, hd, hclosed]
      rfl
    · rw [Stream.consumed_of_rangeOver hover, hd]

/-- The consumers of the stt, llm and tts streams read the server's messages, mapped, in order and
without a gap, then at most one error that `recvPump` reports itself, then the one close; and the
whole sequence without an error when the server ends with EOF and nobody disturbs the call. -/
theorem events_relayed :
    (∀ as (c : ServedCall Proto.TranscriptEvent TranscriptEvent),
      (servedSystem sttPump true).run as = some c → Delivers sttPump true as c) ∧
    (∀ as (c : ServedCall Proto.ChatEvent ChatEvent),
      (servedSystem llmPump false).run as = some c → Delivers llmPump false as c) ∧
    (∀ as (c : ServedCall Proto.TtsAudioChunkMsg AudioChunk),
      (servedSystem ttsPump false).run as = some c → Delivers ttsPump false as c) :=
  ⟨fun _ _ ↦ delivers_of_run, fun _ _ ↦ delivers_of_run, fun _ _ ↦ delivers_of_run⟩

/-- One message from the server to the consumer. -/
def oneMessage (m : μ) : List (ServedAction μ) :=
  [.send m, .recvMessage, .recvPump .recvCh, .recvPump .next, .take]

/-- An utterance answered after `CloseSend` and speech spoken to the end, both undisturbed, and an
answer that the server fails after one chunk. -/
theorem events_relayed_answered :
    (∃ as c, (servedSystem sttPump true).run as = some c ∧ Undisturbed as ∧ c.ended = some .eof ∧
      c.stream.rangeOver ∧ Delivers sttPump true as c) ∧
    (∃ as c, (servedSystem llmPump false).run as = some c ∧
      c.ended = some (.failed "unavailable") ∧ c.stream.rangeOver ∧
      Delivers llmPump false as c) ∧
    ∃ as c, (servedSystem ttsPump false).run as = some c ∧ Undisturbed as ∧
      c.ended = some .eof ∧ c.stream.rangeOver ∧ Delivers ttsPump false as c := by
  refine ⟨?_, ?_, ?_⟩
  · have hw : ∃ as c, (servedSystem sttPump true).run as = some c ∧ Undisturbed as ∧
        c.ended = some .eof ∧ c.stream.rangeOver :=
      ⟨.closeSend :: oneMessage ⟨.finalEvent, [⟨0, 1, "hi", none⟩], none, "", ""⟩ ++
        [ServedAction.finish .eof, .recvEnd, .endContext, .recvPump .contextDone,
          .recvPump .next], _, rfl, by decide, rfl, by decide⟩
    obtain ⟨as, c, h, hu, he, hr⟩ := hw
    exact ⟨as, c, h, hu, he, hr, events_relayed.1 as c h⟩
  · have hw : ∃ as c, (servedSystem llmPump false).run as = some c ∧
        c.ended = some (.failed "unavailable") ∧ c.stream.rangeOver :=
      ⟨oneMessage ⟨.chunk, "Hi", "", ""⟩ ++
        [ServedAction.finish (.failed "unavailable"), .recvEnd, .recvPump .recvCh, .recvPump .next,
          .recvPump .next, .recvPump .next, .take], _, rfl, rfl, by decide⟩
    obtain ⟨as, c, h, he, hr⟩ := hw
    exact ⟨as, c, h, he, hr, events_relayed.2.1 as c h⟩
  · have hw : ∃ as c, (servedSystem ttsPump false).run as = some c ∧ Undisturbed as ∧
        c.ended = some .eof ∧ c.stream.rangeOver :=
      ⟨oneMessage ⟨[1, 2], 22050, 1, 2⟩ ++ [ServedAction.finish .eof, .recvEnd, .recvPump .recvCh,
        .recvPump .next], _, rfl, by decide, rfl, by decide⟩
    obtain ⟨as, c, h, hu, he, hr⟩ := hw
    exact ⟨as, c, h, hu, he, hr, events_relayed.2.2 as c h⟩

end BibiCore.Gateway
