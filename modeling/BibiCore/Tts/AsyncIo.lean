import BibiCore.Base.TransitionSystem
import BibiCore.Base.Chan

/-!
# A blocking generator behind an async one

`iter_in_thread` of `src/tts/utils/async_io.py`: the producer thread that drives the synchronous
generator, the queue of eight entries, the `stopped` event and the async generator that its
consumer iterates, from the start of the thread on. The two sides interleave freely; a timed `put`
either enqueues or gives up on a full queue, and `get_nowait` gives up on an empty one.
-/

namespace BibiCore.Tts

/-- An `Exception` that can leave a synchronous generator; a `StopIteration` cannot. -/
inductive PyException where
  | stopAsyncIteration (message : String)
  | runtimeError (message : String)
  | other (name message : String)
  deriving DecidableEq

/-- What leaves an async generator whose body raises the exception. -/
def raiseInAsyncGenerator : PyException → PyException
  | .stopAsyncIteration _ => .runtimeError "async generator raised StopAsyncIteration"
  | e => e

/-- What one `next()` on a generator comes to. -/
inductive Next (α : Type) where
  | item (a : α)
  | returned
  | raised (e : PyException)
  /-- raised, and no `Exception` -/
  | raisedBase
  deriving DecidableEq

/-- A synchronous generator, by what each `next()` on it comes to. -/
abbrev Generator (α : Type) := Nat → Next α

/-- The generator that yields the items and then returns or raises. -/
def Generator.finite {α : Type} (items : List α) (ending : Option PyException) : Generator α :=
  fun k ↦
    match items[k]? with
    | some a => .item a
    | none =>
      match ending with
      | some e => if k = items.length then .raised e else .returned
      | none => .returned

/-- An entry of the queue: `(True, item)`, `(False, exc)` or `(True, _SENTINEL)`. -/
inductive Entry (α : Type) where
  | item (a : α)
  | raised (e : PyException)
  | sentinel
  deriving DecidableEq

/-- Where the producer thread is. -/
inductive Producer (α : Type) where
  /-- at the head of the `for` loop -/
  | next
  /-- in the generator -/
  | running
  /-- at `if stopped.is_set()` with an item -/
  | check (a : α)
  /-- in `enqueue`, at `while not stopped.is_set()` -/
  | test (e : Entry α)
  /-- in `enqueue`, past that test -/
  | put (e : Entry α)
  /-- in `items.put` -/
  | putting (e : Entry α)
  | ended
  deriving DecidableEq

/-- How the body of the async generator is left. -/
inductive Outcome where
  | finished
  | raised (e : PyException)
  /-- closed, cancelled or thrown into by its consumer -/
  | closed
  deriving DecidableEq

/-- What the consumer sees of it. -/
def Outcome.seen : Outcome → Outcome
  | .raised e => .raised (raiseInAsyncGenerator e)
  | o => o

/-- Where the async generator is. -/
inductive Consumer where
  /-- at `items.get_nowait()` -/
  | polling
  /-- in `asyncio.sleep` -/
  | sleeping
  /-- suspended at `yield` -/
  | yielded
  /-- in the `finally` block -/
  | closing (o : Outcome)
  | done (o : Outcome)
  deriving DecidableEq

/-- The state of one `iter_in_thread`. `position` counts the finished `next()` calls; `received`
records what has been yielded and is read by no step. -/
structure Bridge (α : Type) where
  items : Chan (Entry α) 8
  stopped : Bool
  producer : Producer α
  position : Nat
  consumer : Consumer
  received : List α
  deriving DecidableEq

/-- A step of the producer thread. -/
inductive ProducerAction where
  | next
  | nextReturns
  | check
  | test
  | put
  | enqueued
  | full
  deriving DecidableEq

/-- A step of the async generator or of who holds it. -/
inductive ConsumerAction where
  | poll
  | wake
  | resume
  | stop
  | setStopped
  deriving DecidableEq

/-- A step of either side. -/
inductive BridgeAction where
  | producer (a : ProducerAction)
  | consumer (a : ConsumerAction)
  deriving DecidableEq

/-- Where a finished `next()` leaves the producer. -/
def Next.handled {α : Type} : Next α → Producer α
  | .item a => .check a
  | .returned => .test .sentinel
  | .raised e => .test (.raised e)
  | .raisedBase => .test .sentinel

/-- Where the return of `enqueue` leaves the producer. -/
def Entry.after {α : Type} : Entry α → Producer α
  | .item _ => .next
  | .raised _ => .test .sentinel
  | .sentinel => .ended

namespace Bridge

variable {α : Type}

/-- The bridge when the producer thread is started. -/
def started : Bridge α := ⟨.empty, false, .next, 0, .polling, []⟩

/-- `producer`, with `enqueue` written out. -/
def producerStep (gen : Generator α) (b : Bridge α) : ProducerAction → Option (Bridge α)
  | .next =>
    match b.producer with
    | .next => some { b with producer := .running }
    | _ => none
  | .nextReturns =>
    match b.producer with
    | .running =>
      some { b with producer := (gen b.position).handled, position := b.position + 1 }
    | _ => none
  | .check =>
    match b.producer with
    | .check a => some { b with producer := .test (if b.stopped then .sentinel else .item a) }
    | _ => none
  | .test =>
    match b.producer with
    | .test e => some { b with producer := if b.stopped then e.after else .put e }
    | _ => none
  | .put =>
    match b.producer with
    | .put e => some { b with producer := .putting e }
    | _ => none
  | .enqueued =>
    match b.producer with
    | .putting e => (b.items.send? e).map fun items ↦ { b with items, producer := e.after }
    | _ => none
  | .full =>
    match b.producer with
    | .putting e => if b.items.Full then some { b with producer := .test e } else none
    | _ => none

/-- The loop of the async generator and its `finally` block. -/
def consumerStep (b : Bridge α) : ConsumerAction → Option (Bridge α)
  | .poll =>
    match b.consumer with
    | .polling =>
      match b.items.recv? with
      | none => some { b with consumer := .sleeping }
      | some (.raised e, items) => some { b with items, consumer := .closing (.raised e) }
      | some (.sentinel, items) => some { b with items, consumer := .closing .finished }
      | some (.item a, items) =>
        some { b with items, consumer := .yielded, received := b.received ++ [a] }
    | _ => none
  | .wake =>
    match b.consumer with
    | .sleeping => some { b with consumer := .polling }
    | _ => none
  | .resume =>
    match b.consumer with
    | .yielded => some { b with consumer := .polling }
    | _ => none
  | .stop =>
    match b.consumer with
    | .sleeping | .yielded => some { b with consumer := .closing .closed }
    | _ => none
  | .setStopped =>
    match b.consumer with
    | .closing o => some { b with stopped := true, consumer := .done o }
    | _ => none

/-- How the iteration has ended for the consumer. -/
def outcome? (b : Bridge α) : Option Outcome :=
  match b.consumer with
  | .done o => some o.seen
  | _ => none

end Bridge

/-- One `iter_in_thread` over a generator. -/
def iterInThread {α : Type} (gen : Generator α) : TransitionSystem (Bridge α) BridgeAction where
  init := .started
  step b a :=
    match a with
    | .producer p => b.producerStep gen p
    | .consumer c => b.consumerStep c

/-! ### What a step can do -/

section Steps

variable {α : Type} {gen : Generator α} {b b' : Bridge α}

/-- Every step of the producer thread, with the conditions under which it is taken. -/
inductive ProducerStep (gen : Generator α) (b : Bridge α) : ProducerAction → Bridge α → Prop
  | next (hp : b.producer = .next) : ProducerStep gen b .next { b with producer := .running }
  | nextReturns (hp : b.producer = .running) : ProducerStep gen b .nextReturns
      { b with producer := (gen b.position).handled, position := b.position + 1 }
  | goesOn (a : α) (hp : b.producer = .check a) (hs : b.stopped = false) :
      ProducerStep gen b .check { b with producer := .test (.item a) }
  | breaks (a : α) (hp : b.producer = .check a) (hs : b.stopped = true) :
      ProducerStep gen b .check { b with producer := .test .sentinel }
  | tries (e : Entry α) (hp : b.producer = .test e) (hs : b.stopped = false) :
      ProducerStep gen b .test { b with producer := .put e }
  | givesUp (e : Entry α) (hp : b.producer = .test e) (hs : b.stopped = true) :
      ProducerStep gen b .test { b with producer := e.after }
  | put (e : Entry α) (hp : b.producer = .put e) :
      ProducerStep gen b .put { b with producer := .putting e }
  | enqueued (e : Entry α) (items : Chan (Entry α) 8) (hp : b.producer = .putting e)
      (hi : items.items = b.items.items ++ [e]) :
      ProducerStep gen b .enqueued { b with items, producer := e.after }
  | full (e : Entry α) (hp : b.producer = .putting e) (hf : b.items.Full) :
      ProducerStep gen b .full { b with producer := .test e }

/-- The producer thread does nothing else. -/
theorem producerStep_of_step {a : ProducerAction} (h : b.producerStep gen a = some b') :
    ProducerStep gen b a b' := by
  cases a with
  | next =>
    simp only [Bridge.producerStep] at h
    split at h <;> cases h
    next hp => exact .next hp
  | nextReturns =>
    simp only [Bridge.producerStep] at h
    split at h <;> cases h
    next hp => exact .nextReturns hp
  | check =>
    simp only [Bridge.producerStep] at h
    split at h <;> cases h
    next a hp =>
      by_cases hs : b.stopped = true
      · rw [if_pos hs]
        exact .breaks a hp hs
      · rw [if_neg hs]
        exact .goesOn a hp (Bool.eq_false_iff.mpr hs)
  | test =>
    simp only [Bridge.producerStep] at h
    split at h <;> cases h
    next e hp =>
      by_cases hs : b.stopped = true
      · rw [if_pos hs]
        exact .givesUp e hp hs
      · rw [if_neg hs]
        exact .tries e hp (Bool.eq_false_iff.mpr hs)
  | put =>
    simp only [Bridge.producerStep] at h
    split at h <;> cases h
    next e hp => exact .put e hp
  | enqueued =>
    simp only [Bridge.producerStep] at h
    split at h
    · next e hp =>
      obtain ⟨items, hi, rfl⟩ := Option.map_eq_some_iff.mp h
      exact .enqueued e items hp (Chan.send?_eq_some.mp hi).2
    · cases h
  | full =>
    simp only [Bridge.producerStep] at h
    split at h
    · next e hp =>
      split at h <;> cases h
      next hf => exact .full e hp hf
    · cases h

/-- Every step of the async generator, with the conditions under which it is taken. -/
inductive ConsumerStep (b : Bridge α) : ConsumerAction → Bridge α → Prop
  | empty (hc : b.consumer = .polling) (hi : b.items.items = []) :
      ConsumerStep b .poll { b with consumer := .sleeping }
  | raised (e : PyException) (items : Chan (Entry α) 8) (hc : b.consumer = .polling)
      (hi : b.items.items = .raised e :: items.items) :
      ConsumerStep b .poll { b with items, consumer := .closing (.raised e) }
  | sentinel (items : Chan (Entry α) 8) (hc : b.consumer = .polling)
      (hi : b.items.items = .sentinel :: items.items) :
      ConsumerStep b .poll { b with items, consumer := .closing .finished }
  | item (a : α) (items : Chan (Entry α) 8) (hc : b.consumer = .polling)
      (hi : b.items.items = .item a :: items.items) :
      ConsumerStep b .poll { b with items, consumer := .yielded, received := b.received ++ [a] }
  | wake (hc : b.consumer = .sleeping) : ConsumerStep b .wake { b with consumer := .polling }
  | resume (hc : b.consumer = .yielded) : ConsumerStep b .resume { b with consumer := .polling }
  | stop (hc : b.consumer = .sleeping ∨ b.consumer = .yielded) :
      ConsumerStep b .stop { b with consumer := .closing .closed }
  | setStopped (o : Outcome) (hc : b.consumer = .closing o) :
      ConsumerStep b .setStopped { b with stopped := true, consumer := .done o }

/-- The async generator does nothing else. -/
theorem consumerStep_of_step {a : ConsumerAction} (h : b.consumerStep a = some b') :
    ConsumerStep b a b' := by
  cases a with
  | poll =>
    simp only [Bridge.consumerStep] at h
    split at h
    · next hc =>
      split at h <;> cases h
      · next hi => exact .empty hc (Chan.recv?_eq_none.mp hi)
      · next e items hi => exact .raised e items hc (Chan.recv?_eq_some.mp hi)
      · next items hi => exact .sentinel items hc (Chan.recv?_eq_some.mp hi)
      · next a items hi => exact .item a items hc (Chan.recv?_eq_some.mp hi)
    · cases h
  | wake =>
    simp only [Bridge.consumerStep] at h
    split at h <;> cases h
    next hc => exact .wake hc
  | resume =>
    simp only [Bridge.consumerStep] at h
    split at h <;> cases h
    next hc => exact .resume hc
  | stop =>
    simp only [Bridge.consumerStep] at h
    split at h <;> cases h
    · next hc => exact .stop (.inl hc)
    · next hc => exact .stop (.inr hc)
  | setStopped =>
    simp only [Bridge.consumerStep] at h
    split at h <;> cases h
    next o hc => exact .setStopped o hc

/-- The producer thread is never stuck before its end. -/
theorem producerStep_isSome (hp : b.producer ≠ .ended) :
    ∃ a, (b.producerStep gen a).isSome = true := by
  cases hb : b.producer with
  | next => exact ⟨.next, by simp [Bridge.producerStep, hb]⟩
  | running => exact ⟨.nextReturns, by simp [Bridge.producerStep, hb]⟩
  | check a => exact ⟨.check, by simp [Bridge.producerStep, hb]⟩
  | test e => exact ⟨.test, by simp [Bridge.producerStep, hb]⟩
  | put e => exact ⟨.put, by simp [Bridge.producerStep, hb]⟩
  | putting e =>
    -- a timed put gives up on a full queue and enqueues on any other
    by_cases hf : b.items.Full
    · exact ⟨.full, by simp [Bridge.producerStep, hb, hf]⟩
    · have hroom : b.items.send? e ≠ none := fun hn ↦ hf (Chan.send?_eq_none.mp hn)
      exact ⟨.enqueued, by simpa [Bridge.producerStep, hb, Option.isSome_iff_ne_none] using hroom⟩
  | ended => exact absurd hb hp

end Steps

end BibiCore.Tts
