import BibiCore.Base.Chan

/-!
# The gateway's client streams

`internal/stt/client.go`, `internal/llm/client.go` and `internal/tts/client.go` wrap one gRPC
call each in a `Stream` with the same `recvPump`: it maps every message it receives onto a
channel of sixteen events until the call ends, errors or goes idle. The three pumps differ
only in `PumpSpec`. The stream's context is done when its own `cancel` was called or the session's
context is done, and gRPC ends it with the call, before the `Recv` that fails returns.
-/

namespace BibiCore.Gateway

/-- What the three `recvPump`s differ in: how a received message is mapped, how a synthetic
error event is built, and the texts of the two errors the pump itself reports. -/
structure PumpSpec (μ ε : Type) where
  mapEvent : μ → ε
  errorEvent : String → String → ε
  streamErrorCode : String
  timeoutCode : String
  timeoutMessage : String

/-- How `recvPump` left its loop. -/
inductive Ending where
  /-- `Recv` returned `io.EOF` -/
  | eof
  /-- `Recv` failed and the closed flag was set: logged, nothing emitted -/
  | closedByCaller
  /-- `emitError` put its event on `Events` -/
  | errorSent
  /-- `emitError` found `Events` full and gave up -/
  | errorDropped
  /-- the stream's context was done -/
  | contextDone
  /-- the call was over, and the `select` took the context that gRPC had ended with it -/
  | callOver
  deriving DecidableEq

/-- Where `recvPump` is. -/
inductive PumpPc (ε : Type) where
  /-- in the outer `select`, one `Recv` in flight -/
  | recv
  /-- in the inner `select`, a mapped message in hand -/
  | deliver (e : ε)
  /-- `Recv` returned a non-EOF error; the closed flag is read next -/
  | failed (message : String)
  /-- about to run `emitError` -/
  | emitError (code message : String)
  /-- returned; the deferred `close(s.Events)` is next -/
  | closing (r : Ending)
  /-- `Events` is closed -/
  | done (r : Ending)
  deriving DecidableEq

/-- What makes `recvPump` take a step: a `Recv` result, the idle timer, the context, ended by its
holders or by gRPC, or nothing but its own next statement. -/
inductive PumpAction (μ : Type) where
  | message (m : μ)
  | eof
  | error (message : String)
  | timeout
  | contextDone
  | callOver
  | next
  deriving DecidableEq

/-- A client `Stream`. `received` (what `Recv` has returned) and `consumed` (what the range
loop over `Events` has taken) record the history and are read by no step. -/
structure Stream (μ ε : Type) where
  /-- the flag `closed` of the stt client, `closedByCaller` of the other two -/
  closed : Bool
  /-- the stream's own `cancel` was called -/
  cancelled : Bool
  events : Chan ε 16
  pump : PumpPc ε
  received : List μ
  consumed : List ε
  deriving DecidableEq

namespace Stream

variable {μ ε : Type}

/-- The stream as `OpenStream`, `StartChat` and `Synthesize` return it. -/
def opened : Stream μ ε := ⟨false, false, .empty, .recv, [], []⟩

/-- `close(s.Events)` has run. -/
def eventsClosed (s : Stream μ ε) : Bool :=
  match s.pump with
  | .done _ => true
  | _ => false

/-- `recvPump` has left its receive loop. -/
def pumpReturned (s : Stream μ ε) : Bool :=
  match s.pump with
  | .closing _ | .done _ => true
  | _ => false

/-- Everything put on `Events` so far, in order. -/
def delivered (s : Stream μ ε) : List ε := s.consumed ++ s.events.items

/-- `Stream.Close`: set the flag and cancel the context. -/
def close (s : Stream μ ε) : Stream μ ε := { s with closed := true, cancelled := true }

/-- One receive of the consumer's `range s.Events`. -/
def next? (s : Stream μ ε) : Option (ε × Stream μ ε) :=
  match s.events.recv? with
  | some (e, c) => some (e, { s with events := c, consumed := s.consumed ++ [e] })
  | none => none

/-- The consumer's `range s.Events` ends: the channel is closed and empty. -/
def rangeOver (s : Stream μ ε) : Prop := s.eventsClosed = true ∧ s.events.items = []

instance (s : Stream μ ε) : Decidable s.rangeOver := inferInstanceAs (Decidable (_ ∧ _))

/-- Somebody who holds the stream's context has ended it. -/
def ContextDone (parentDone : Bool) (s : Stream μ ε) : Prop :=
  s.cancelled = true ∨ parentDone = true

instance (parentDone : Bool) (s : Stream μ ε) : Decidable (s.ContextDone parentDone) :=
  inferInstanceAs (Decidable (_ ∨ _))

/-- One step of `recvPump`, `internal/stt/client.go:136`, `internal/llm/client.go:127` and
`internal/tts/client.go:118`. A select case that is not ready is not enabled; among the ready
ones the action chooses. Only with a `Recv` in flight can gRPC end the context of the call. -/
def recvPump (spec : PumpSpec μ ε) (parentDone : Bool) (s : Stream μ ε) (a : PumpAction μ) :
    Option (Stream μ ε) :=
  match s.pump, a with
  | .recv, .message m =>
    some { s with pump := .deliver (spec.mapEvent m), received := s.received ++ [m] }
  | .recv, .eof => some { s with pump := .closing .eof }
  | .recv, .error message => some { s with pump := .failed message }
  | .recv, .timeout =>
    some { s with
      cancelled := true, pump := .emitError spec.timeoutCode spec.timeoutMessage }
  | .recv, .contextDone =>
    if s.ContextDone parentDone then some { s with pump := .closing .contextDone } else none
  | .recv, .callOver => some { s with pump := .closing .callOver }
  | .deliver e, .next =>
    match s.events.send? e with
    | some c => some { s with events := c, pump := .recv }
    | none => none
  | .deliver _, .contextDone =>
    if s.ContextDone parentDone then some { s with pump := .closing .contextDone } else none
  | .failed message, .next =>
    if s.closed then some { s with pump := .closing .closedByCaller }
    else some { s with pump := .emitError spec.streamErrorCode message }
  | .emitError code message, .next =>
    match s.events.send? (spec.errorEvent code message) with
    | some c => some { s with events := c, pump := .closing .errorSent }
    | none => some { s with pump := .closing .errorDropped }
  | .closing r, .next => some { s with pump := .done r }
  | _, _ => none

/-! ### What the operations leave alone -/

/-- `CloseSend` leaves the event channel. -/
@[simp] theorem close_events (s : Stream μ ε) : s.close.events = s.events := rfl
/-- `CloseSend` does not move the receiving goroutine. -/
@[simp] theorem close_pump (s : Stream μ ε) : s.close.pump = s.pump := rfl
/-- `CloseSend` receives nothing. -/
@[simp] theorem close_received (s : Stream μ ε) : s.close.received = s.received := rfl
/-- `CloseSend` consumes nothing. -/
@[simp] theorem close_consumed (s : Stream μ ε) : s.close.consumed = s.consumed := rfl
/-- `CloseSend` sets the flag. -/
@[simp] theorem close_closed (s : Stream μ ε) : s.close.closed = true := rfl
/-- `CloseSend` delivers nothing. -/
@[simp] theorem close_delivered (s : Stream μ ε) : s.close.delivered = s.delivered := rfl

/-- A receive moves the oldest event from the buffer to the consumer and changes nothing
else. -/
theorem next?_eq_some {s t : Stream μ ε} {e : ε} (h : s.next? = some (e, t)) :
    s.events.items = e :: t.events.items ∧
      t = { s with events := t.events, consumed := s.consumed ++ [e] } := by
  unfold next? at h
  split at h
  · next e' c hc =>
    simp only [Option.some.injEq, Prod.mk.injEq] at h
    obtain ⟨rfl, rfl⟩ := h
    exact ⟨Chan.recv?_eq_some.mp hc, rfl⟩
  · cases h

/-- The consumer has taken one event more. -/
theorem consumed_next? {s t : Stream μ ε} {e : ε} (h : s.next? = some (e, t)) :
    t.consumed = s.consumed ++ [e] := by
  rw [(next?_eq_some h).2]

/-! ### What a step of the pump can do -/

/-- Every step `recvPump` can take, with the conditions under which it is taken. -/
inductive PumpStep (spec : PumpSpec μ ε) (parentDone : Bool) (s : Stream μ ε) :
    PumpAction μ → Stream μ ε → Prop
  | message (m : μ) (hp : s.pump = .recv) : PumpStep spec parentDone s (.message m)
      { s with pump := .deliver (spec.mapEvent m), received := s.received ++ [m] }
  | eof (hp : s.pump = .recv) : PumpStep spec parentDone s .eof { s with pump := .closing .eof }
  | error (message : String) (hp : s.pump = .recv) : PumpStep spec parentDone s (.error message)
      { s with pump := .failed message }
  | timeout (hp : s.pump = .recv) : PumpStep spec parentDone s .timeout
      { s with cancelled := true, pump := .emitError spec.timeoutCode spec.timeoutMessage }
  | contextDone (hp : s.pump = .recv ∨ ∃ e, s.pump = .deliver e)
      (hc : s.ContextDone parentDone) : PumpStep spec parentDone s .contextDone
      { s with pump := .closing .contextDone }
  | callOver (hp : s.pump = .recv) :
      PumpStep spec parentDone s .callOver { s with pump := .closing .callOver }
  | put (e : ε) (c : Chan ε 16) (hp : s.pump = .deliver e) (hc : s.events.send? e = some c) :
      PumpStep spec parentDone s .next { s with events := c, pump := .recv }
  | closedByCaller (message : String) (hp : s.pump = .failed message) (hc : s.closed = true) :
      PumpStep spec parentDone s .next { s with pump := .closing .closedByCaller }
  | report (message : String) (hp : s.pump = .failed message) (hc : s.closed = false) :
      PumpStep spec parentDone s .next { s with pump := .emitError spec.streamErrorCode message }
  | errorSent (code message : String) (c : Chan ε 16) (hp : s.pump = .emitError code message)
      (hc : s.events.send? (spec.errorEvent code message) = some c) :
      PumpStep spec parentDone s .next { s with events := c, pump := .closing .errorSent }
  | errorDropped (code message : String) (hp : s.pump = .emitError code message)
      (hf : s.events.Full) :
      PumpStep spec parentDone s .next { s with pump := .closing .errorDropped }
  | close (r : Ending) (hp : s.pump = .closing r) :
      PumpStep spec parentDone s .next { s with pump := .done r }

/-- `recvPump` does nothing else. -/
theorem pumpStep_of_recvPump {spec : PumpSpec μ ε} {parentDone : Bool} {s t : Stream μ ε}
    {a : PumpAction μ} (h : s.recvPump spec parentDone a = some t) :
    PumpStep spec parentDone s a t := by
  unfold recvPump at h
  split at h
  · next m hp =>
    cases h
    exact .message m hp
  · next hp =>
    cases h
    exact .eof hp
  · next message hp =>
    cases h
    exact .error message hp
  · next hp =>
    cases h
    exact .timeout hp
  · next hp =>
    split at h <;> cases h
    next hc => exact .contextDone (.inl hp) hc
  · next hp =>
    cases h
    exact .callOver hp
  · next e hp =>
    split at h <;> cases h
    next c hc => exact .put e c hp hc
  · next e hp =>
    split at h <;> cases h
    next hc => exact .contextDone (.inr ⟨e, hp⟩) hc
  · next message hp =>
    split at h <;> cases h
    · next hc => exact .closedByCaller message hp hc
    · next hc => exact .report message hp (by simpa using hc)
  · next code message hp =>
    split at h <;> cases h
    · next c hc => exact .errorSent code message c hp hc
    · next hc => exact .errorDropped code message hp (Chan.send?_eq_none.mp hc)
  · next r hp =>
    cases h
    exact .close r hp
  · cases h

/-- `recvPump` never touches the closed flag and takes nothing off `Events`. -/
theorem recvPump_frame {spec : PumpSpec μ ε} {parentDone : Bool} {s t : Stream μ ε}
    {a : PumpAction μ} (h : s.recvPump spec parentDone a = some t) :
    t.closed = s.closed ∧ t.consumed = s.consumed := by
  cases pumpStep_of_recvPump h <;> exact ⟨rfl, rfl⟩

/-- What `Recv` has returned only grows. -/
theorem recvPump_received {spec : PumpSpec μ ε} {parentDone : Bool} {s t : Stream μ ε}
    {a : PumpAction μ} (h : s.recvPump spec parentDone a = some t) :
    s.received <+: t.received := by
  cases pumpStep_of_recvPump h with
  | message m hp => exact List.prefix_append _ _
  | _ => exact List.prefix_rfl

/-- A send of the pump adds one event to what was delivered. -/
theorem delivered_send {s : Stream μ ε} {c : Chan ε 16} {e : ε} {pc : PumpPc ε}
    (h : s.events.send? e = some c) :
    ({ s with events := c, pump := pc } : Stream μ ε).delivered = s.delivered ++ [e] := by
  simp [delivered, (Chan.send?_eq_some.mp h).2]

/-- A receive delivers nothing new. -/
theorem delivered_next? {s t : Stream μ ε} {e : ε} (h : s.next? = some (e, t)) :
    t.delivered = s.delivered := by
  obtain ⟨hi, ht⟩ := next?_eq_some h
  rw [delivered, delivered, hi, congrArg consumed ht]
  simp

end Stream
end BibiCore.Gateway
