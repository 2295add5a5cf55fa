import BibiCore.Base.TransitionSystem
import BibiCore.Gateway.Clients

/-!
# A call with its server

One call of `internal/stt/client.go`, `internal/llm/client.go` or `internal/tts/client.go` with
everybody who has a part in it: the server and the messages on their way, the goroutine that each
iteration of `recvPump` starts for one `Recv`, the pump itself, the consumer, `CloseSend` (of the
stt stream only), `Close` and the context the call was opened with.
-/

namespace BibiCore.Gateway

variable {μ ε : Type}

/-- How a call ends at its client: behind the server's last message, or by a failure, which may
overtake messages on their way. -/
inductive CallEnd where
  | eof
  | failed (message : String)
  deriving DecidableEq

/-- What one `Recv` returns. -/
inductive RecvResult (μ : Type) where
  | message (m : μ)
  | eof
  | error (message : String)
  deriving DecidableEq

/-- The goroutine that an iteration of `recvPump` starts, and its channel of one result. -/
inductive Receiver (μ : Type) where
  /-- in `Recv` -/
  | running
  /-- gone; the result is in `recvCh` -/
  | result (r : RecvResult μ)
  /-- gone; the pump has taken the result -/
  | taken
  deriving DecidableEq

/-- A call with the server behind it. `sent` records every message of the server and is read by
no step. -/
structure ServedCall (μ ε : Type) where
  stream : Stream μ ε
  receiver : Receiver μ
  parentDone : Bool
  /-- the call is over and gRPC has ended the call's own context -/
  callOver : Bool
  sent : List μ
  inFlight : List μ
  ended : Option CallEnd
  deriving DecidableEq

/-- Which branch `recvPump` takes: the result in `recvCh`, the idle timer, the context, or its own
next statement. -/
inductive PumpChoice where
  | recvCh
  | timeout
  | contextDone
  | next
  deriving DecidableEq

/-- A step of the server, of the transport, of one of the two goroutines or of a holder of the
stream. -/
inductive ServedAction (μ : Type) where
  | send (m : μ)
  | finish (e : CallEnd)
  | endContext
  | recvMessage
  | recvEnd
  | recvCancelled (message : String)
  | recvPump (choice : PumpChoice)
  | take
  | closeSend
  | close
  | cancelParent
  deriving DecidableEq

namespace ServedCall

/-- The call as it is opened, the first `Recv` already started. -/
def opened : ServedCall μ ε := ⟨.opened, .running, false, false, [], [], none⟩

/-- The context seen by the pump, but for the stream's own `cancel`. -/
def outerDone (c : ServedCall μ ε) : Bool := c.parentDone || c.callOver

/-- The pump's action under a choice; `none` when `recvCh` is chosen and has nothing to offer. The
end of the context with the call is part of `outerDone` here. -/
def pumpAction? (c : ServedCall μ ε) : PumpChoice → Option (PumpAction μ)
  | .recvCh =>
    match c.receiver with
    | .result (.message m) => some (.message m)
    | .result .eof => some .eof
    | .result (.error message) => some (.error message)
    | .running | .taken => none
  | .timeout => some .timeout
  | .contextDone => some .contextDone
  | .next => some .next

/-- The receive goroutine after a step of the pump: the pump empties `recvCh`, and the iteration
behind a hand-over starts a new goroutine. -/
def receiverAfter (c : ServedCall μ ε) (choice : PumpChoice) : Receiver μ :=
  match choice, c.stream.pump with
  | .recvCh, _ => .taken
  | .next, .deliver _ => .running
  | _, _ => c.receiver

end ServedCall

/-- A call with its server, for a client whose stream has a `CloseSend` or not. -/
def servedSystem (spec : PumpSpec μ ε) (halfCloses : Bool) :
    TransitionSystem (ServedCall μ ε) (ServedAction μ) where
  init := .opened
  step c a :=
    match a with
    | .send m =>
      match c.ended with
      | none => some { c with sent := c.sent ++ [m], inFlight := c.inFlight ++ [m] }
      | some _ => none
    | .finish e =>
      match c.ended with
      | none => some { c with ended := some e }
      | some _ => none
    | .endContext =>
      match c.receiver, c.ended with
      | .result .eof, _ => some { c with callOver := true }
      | _, some (.failed _) => some { c with callOver := true }
      | _, _ => none
    | .recvMessage =>
      match c.receiver, c.inFlight with
      | .running, m :: ms => some { c with receiver := .result (.message m), inFlight := ms }
      | _, _ => none
    | .recvEnd =>
      match c.receiver, c.ended, c.inFlight with
      | .running, some .eof, [] => some { c with receiver := .result .eof }
      | .running, some (.failed message), _ => some { c with receiver := .result (.error message) }
      | _, _, _ => none
    | .recvCancelled message =>
      match c.receiver with
      | .running =>
        if c.stream.ContextDone c.outerDone then
          some { c with receiver := .result (.error message) }
        else none
      | _ => none
    | .recvPump choice =>
      match c.pumpAction? choice with
      | some a =>
        (c.stream.recvPump spec c.outerDone a).map fun s ↦
          { c with stream := s, receiver := c.receiverAfter choice }
      | none => none
    | .take => c.stream.next?.map fun p ↦ { c with stream := p.2 }
    | .closeSend =>
      if halfCloses then some { c with stream := { c.stream with closed := true } } else none
    | .close => some { c with stream := c.stream.close }
    | .cancelParent => some { c with parentDone := true }

/-- What can be done to the channel `Events`. -/
inductive EventsOp (ε : Type) where
  | put (e : ε)
  | close
  deriving DecidableEq

/-- What a step of `recvPump` does to `Events`. -/
def Stream.eventsOps (spec : PumpSpec μ ε) (s : Stream μ ε) (a : PumpAction μ) :
    List (EventsOp ε) :=
  match s.pump, a with
  | .deliver e, .next => [.put e]
  | .emitError code message, .next =>
    if s.events.Full then [] else [.put (spec.errorEvent code message)]
  | .closing _, .next => [.close]
  | _, _ => []

/-- What a step of anybody does to `Events`. -/
def ServedCall.eventsOps (spec : PumpSpec μ ε) (c : ServedCall μ ε) (a : ServedAction μ) :
    List (EventsOp ε) :=
  match a with
  | .recvPump choice => ((c.pumpAction? choice).map (c.stream.eventsOps spec)).getD []
  | _ => []

/-- Everything a run does to `Events`, in order. -/
def eventsLog (spec : PumpSpec μ ε) (halfCloses : Bool) (as : List (ServedAction μ)) :
    List (EventsOp ε) :=
  (servedSystem spec halfCloses).emitted (ServedCall.eventsOps spec) .opened as

/-! ### The log -/

namespace Stream

variable {spec : PumpSpec μ ε} {parentDone : Bool} {s t : Stream μ ε}

/-- What has been done to `Events` so far, as the stream shows it. -/
def log (s : Stream μ ε) : List (EventsOp ε) :=
  s.delivered.map .put ++ if s.eventsClosed then [.close] else []

/-- A step of the pump adds to the log what it does to `Events`. -/
theorem log_recvPump {a : PumpAction μ} (h : s.recvPump spec parentDone a = some t) :
    t.log = s.log ++ s.eventsOps spec a := by
  cases pumpStep_of_recvPump h with
  | put e c hp hc =>
    have hd := @delivered_send _ _ _ _ _ .recv hc
    simp [log, hd, eventsOps, eventsClosed, hp]
  | errorSent code message c hp hc =>
    have hd := @delivered_send _ _ _ _ _ (.closing .errorSent) hc
    have hlt := (Chan.send?_eq_some.mp hc).1
    have hroom : ¬ s.events.Full := by
      unfold Chan.Full
      omega
    simp [log, hd, eventsOps, eventsClosed, hp, hroom]
  | errorDropped code message hp hf => simp [log, delivered, eventsOps, eventsClosed, hp, hf]
  | contextDone hp hc =>
    rcases hp with hp | ⟨e, hp⟩
    all_goals simp [log, delivered, eventsOps, eventsClosed, hp]
  | message _ hp | eof hp | error _ hp | timeout hp | callOver hp | closedByCaller _ hp
  | report _ hp | close _ hp => simp [log, delivered, eventsOps, eventsClosed, hp]

/-- A receive of the consumer does nothing to the log. -/
theorem log_next? {e : ε} (h : s.next? = some (e, t)) : t.log = s.log := by
  have hd := delivered_next? h
  have hp : t.pump = s.pump := by rw [(next?_eq_some h).2]
  unfold log eventsClosed
  rw [hd, hp]

end Stream

/-! ### What a step can do -/

/-- Every step of a served call, with the conditions under which it is taken. -/
inductive ServedStep (spec : PumpSpec μ ε) (c : ServedCall μ ε) :
    ServedAction μ → ServedCall μ ε → Prop
  | send (m : μ) (he : c.ended = none) :
      ServedStep spec c (.send m) { c with sent := c.sent ++ [m], inFlight := c.inFlight ++ [m] }
  | finish (e : CallEnd) (he : c.ended = none) :
      ServedStep spec c (.finish e) { c with ended := some e }
  | endContext (ho : c.receiver = .result .eof ∨ ∃ message, c.ended = some (.failed message)) :
      ServedStep spec c .endContext { c with callOver := true }
  | recvMessage (m : μ) (ms : List μ) (hr : c.receiver = .running) (hf : c.inFlight = m :: ms) :
      ServedStep spec c .recvMessage { c with receiver := .result (.message m), inFlight := ms }
  | recvEof (hr : c.receiver = .running) (he : c.ended = some .eof) (hf : c.inFlight = []) :
      ServedStep spec c .recvEnd { c with receiver := .result .eof }
  | recvFailed (message : String) (hr : c.receiver = .running)
      (he : c.ended = some (.failed message)) :
      ServedStep spec c .recvEnd { c with receiver := .result (.error message) }
  | recvCancelled (message : String) (hr : c.receiver = .running)
      (hc : c.stream.ContextDone c.outerDone) : ServedStep spec c (.recvCancelled message)
      { c with receiver := .result (.error message) }
  | recvPump (choice : PumpChoice) (a : PumpAction μ) (t : Stream μ ε)
      (ha : c.pumpAction? choice = some a) (ht : c.stream.recvPump spec c.outerDone a = some t) :
      ServedStep spec c (.recvPump choice)
      { c with stream := t, receiver := c.receiverAfter choice }
  | take (e : ε) (t : Stream μ ε) (ht : c.stream.next? = some (e, t)) :
      ServedStep spec c .take { c with stream := t }
  | closeSend : ServedStep spec c .closeSend { c with stream := { c.stream with closed := true } }
  | close : ServedStep spec c .close { c with stream := c.stream.close }
  | cancelParent : ServedStep spec c .cancelParent { c with parentDone := true }

/-- Nobody does anything else. -/
theorem servedStep_of_step {spec : PumpSpec μ ε} {halfCloses : Bool} {c d : ServedCall μ ε}
    {a : ServedAction μ} (h : (servedSystem spec halfCloses).step c a = some d) :
    ServedStep spec c a d := by
  cases a with
  | send m =>
    simp only [servedSystem] at h
    split at h <;> cases h
    next he => exact .send m he
  | finish e =>
    simp only [servedSystem] at h
    split at h <;> cases h
    next he => exact .finish e he
  | endContext =>
    simp only [servedSystem] at h
    split at h <;> cases h
    · next hr => exact .endContext (.inl hr)
    · next message he _ => exact .endContext (.inr ⟨message, he⟩)
  | recvMessage =>
    simp only [servedSystem] at h
    split at h <;> cases h
    next m ms hr hf => exact .recvMessage m ms hr hf
  | recvEnd =>
    simp only [servedSystem] at h
    split at h <;> cases h
    · next hr he hf => exact .recvEof hr he hf
    · next message hr he => exact .recvFailed message hr he
  | recvCancelled message =>
    simp only [servedSystem] at h
    split at h
    · next hr =>
      split at h <;> cases h
      next hc => exact .recvCancelled message hr hc
    · cases h
  | recvPump choice =>
    simp only [servedSystem] at h
    split at h
    · next a ha =>
      obtain ⟨t, ht, rfl⟩ := Option.map_eq_some_iff.mp h
      exact .recvPump choice a t ha ht
    · cases h
  | take =>
    obtain ⟨⟨e, t⟩, ht, rfl⟩ := Option.map_eq_some_iff.mp h
    exact .take e t ht
  | closeSend =>
    simp only [servedSystem] at h
    split at h <;> cases h
    exact .closeSend
  | close =>
    cases h
    exact .close
  | cancelParent =>
    cases h
    exact .cancelParent

end BibiCore.Gateway
