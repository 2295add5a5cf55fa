import BibiCore.Tts.AsyncIo

/-!
# What the producer still does once it is stopped

`stopped` is never unset, `enqueue` tests it before every `put`, and the loop tests it on every
item. Wherever the producer thread is when it is set, a few steps lead it to its end.
-/

namespace BibiCore.Tts

variable {α : Type}

/-- The steps of the producer thread. -/
def BridgeAction.isProducer : BridgeAction → Bool
  | .producer _ => true
  | .consumer _ => false

/-- How many steps a stopped producer thread takes once `enqueue` has returned. -/
def Entry.stepsBehind : Entry α → Nat
  | .item _ => 4
  | .raised _ => 1
  | .sentinel => 0

/-- How often a stopped producer thread calls `next()` once `enqueue` has returned. -/
def Entry.nextsBehind : Entry α → Nat
  | .item _ => 1
  | .raised _ | .sentinel => 0

namespace Producer

/-- How many steps a stopped producer thread takes at most. -/
def stepsLeft : Producer α → Nat
  | .next => 4
  | .running => 3
  | .check _ => 2
  | .test e => e.stepsBehind + 1
  | .putting e => e.stepsBehind + 2
  | .put e => e.stepsBehind + 3
  | .ended => 0

/-- How often a stopped producer thread calls `next()` at most. -/
def nextsLeft : Producer α → Nat
  | .next => 1
  | .test e | .put e | .putting e => e.nextsBehind
  | .running | .check _ | .ended => 0

/-- How often a stopped producer thread calls `items.put` at most. -/
def putsLeft : Producer α → Nat
  | .put _ => 1
  | _ => 0

/-- How many entries a stopped producer thread adds to the queue at most. -/
def entriesLeft : Producer α → Nat
  | .put _ | .putting _ => 1
  | _ => 0

/-- No place of the producer is far from its end. -/
theorem left_le (p : Producer α) :
    p.stepsLeft ≤ 7 ∧ p.nextsLeft ≤ 1 ∧ p.putsLeft ≤ 1 ∧ p.entriesLeft ≤ 1 := by
  cases p with
  | test e | put e | putting e =>
    cases e <;> simp [stepsLeft, nextsLeft, putsLeft, entriesLeft, Entry.stepsBehind,
      Entry.nextsBehind]
  | next | running | check a | ended => simp [stepsLeft, nextsLeft, putsLeft, entriesLeft]

end Producer

/-! ### One step -/

/-- What a step of a stopped producer thread costs. -/
structure Pays (b b' : Bridge α) (a : BridgeAction) : Prop where
  stopped : b'.stopped = true
  steps : (if a.isProducer then 1 else 0) + b'.producer.stepsLeft ≤ b.producer.stepsLeft
  nexts : (if a == .producer .next then 1 else 0) + b'.producer.nextsLeft ≤ b.producer.nextsLeft
  puts : (if a == .producer .put then 1 else 0) + b'.producer.putsLeft ≤ b.producer.putsLeft
  entries : (if a == .producer .enqueued then 1 else 0) + b'.producer.entriesLeft ≤
    b.producer.entriesLeft

variable {gen : Generator α} {b b' : Bridge α}

/-- The producer thread pays for its steps out of what it has left. -/
theorem pays_of_producerStep (hs : b.stopped = true) {a : ProducerAction}
    (h : b.producerStep gen a = some b') : Pays b b' (.producer a) := by
  cases producerStep_of_step h with
  | goesOn a hp ho | tries e hp ho =>
    rw [hs] at ho
    cases ho
  | nextReturns hp =>
    cases gen b.position
    all_goals constructor
    all_goals simp [hs, hp, Next.handled, BridgeAction.isProducer, Producer.stepsLeft,
      Producer.nextsLeft, Producer.putsLeft, Producer.entriesLeft, Entry.stepsBehind,
      Entry.nextsBehind]
  | givesUp e hp _ | enqueued e queue hp hq =>
    cases e
    all_goals constructor
    all_goals simp [hs, hp, Entry.after, BridgeAction.isProducer, Producer.stepsLeft,
      Producer.nextsLeft, Producer.putsLeft, Producer.entriesLeft, Entry.stepsBehind,
      Entry.nextsBehind]
  | next hp | breaks a hp _ | put e hp | full e hp hf =>
    constructor
    all_goals simp +arith [hs, hp, BridgeAction.isProducer, Producer.stepsLeft,
      Producer.nextsLeft, Producer.putsLeft, Producer.entriesLeft, Entry.stepsBehind,
      Entry.nextsBehind]

/-- The consumer takes nothing from the producer's budgets and never unsets `stopped`. -/
theorem pays_of_consumerStep (hs : b.stopped = true) {a : ConsumerAction}
    (h : b.consumerStep a = some b') : Pays b b' (.consumer a) := by
  cases consumerStep_of_step h with
  | setStopped o hc => constructor <;> simp [BridgeAction.isProducer]
  | _ => constructor <;> simp [hs, BridgeAction.isProducer]

/-- Every step of a stopped iteration is paid for. -/
theorem pays_of_step (hs : b.stopped = true) {a : BridgeAction}
    (h : (iterInThread gen).step b a = some b') : Pays b b' a := by
  cases a with
  | producer a => exact pays_of_producerStep hs h
  | consumer a => exact pays_of_consumerStep hs h

/-- A consumer that is closed, cancelled or thrown into where it is suspended sets `stopped` before
anything else can happen to the iteration. -/
theorem stop_sets_stopped (hc : b.consumer = .sleeping ∨ b.consumer = .yielded) :
    (iterInThread gen).runFrom b [.consumer .stop, .consumer .setStopped] =
      some { b with stopped := true, consumer := .done .closed } := by
  rcases hc with hc | hc
  all_goals simp [TransitionSystem.runFrom, iterInThread, Bridge.consumerStep, hc]

/-- After `stopped` is set, wherever the producer thread is and whatever the generator does, the
thread starts at most one further `next()`, makes at most one further `put` attempt, adds at most
one further entry to the queue and takes at most seven steps; before its end it always has one. -/
theorem stopped_producer_ends (gen : Generator α) (b : Bridge α) (hs : b.stopped = true)
    (as : List BridgeAction) (b' : Bridge α) (h : (iterInThread gen).runFrom b as = some b') :
    as.count (.producer .next) ≤ 1 ∧ as.count (.producer .put) ≤ 1 ∧
      as.count (.producer .enqueued) ≤ 1 ∧ as.countP BridgeAction.isProducer ≤ 7 ∧
      (b'.producer ≠ .ended → ∃ a, (b'.producerStep gen a).isSome = true) := by
  obtain ⟨hsteps, hnexts, hputs, hentries⟩ := b.producer.left_le
  have hpays : ∀ s a t, s.stopped = true → (iterInThread gen).step s a = some t → Pays s t a :=
    fun s a t hs h ↦ pays_of_step hs h
  refine ⟨?_, ?_, ?_, ?_, producerStep_isSome⟩
  · have hle := TransitionSystem.countP_add_le (p := (· == .producer .next))
      (b := fun s ↦ s.producer.nextsLeft)
      (fun s a t hs h ↦ ⟨(hpays s a t hs h).stopped, (hpays s a t hs h).nexts⟩) hs h
    rw [List.count]
    omega
  · have hle := TransitionSystem.countP_add_le (p := (· == .producer .put))
      (b := fun s ↦ s.producer.putsLeft)
      (fun s a t hs h ↦ ⟨(hpays s a t hs h).stopped, (hpays s a t hs h).puts⟩) hs h
    rw [List.count]
    omega
  · have hle := TransitionSystem.countP_add_le (p := (· == .producer .enqueued))
      (b := fun s ↦ s.producer.entriesLeft)
      (fun s a t hs h ↦ ⟨(hpays s a t hs h).stopped, (hpays s a t hs h).entries⟩) hs h
    rw [List.count]
    omega
  · have hle := TransitionSystem.countP_add_le (p := BridgeAction.isProducer)
      (b := fun s ↦ s.producer.stepsLeft)
      (fun s a t hs h ↦ ⟨(hpays s a t hs h).stopped, (hpays s a t hs h).steps⟩) hs h
    omega

/-- All that is left of a stopped producer thread which has an item to put. -/
def lastActions : List BridgeAction :=
  [.producer .put, .producer .enqueued, .producer .next, .producer .nextReturns, .producer .check,
    .producer .test]

/-- The consumer lets go while the producer, behind the test of `enqueue`, is about to put an item
of an endless generator: the put still happens and one more item is fetched. -/
theorem stopped_producer_ends_put : ∃ (b b' : Bridge Nat) (as : List BridgeAction),
    b.producer = .put (.item 0) ∧ as.countP BridgeAction.isProducer = 6 ∧ b'.producer = .ended ∧
    as.count (.producer .next) ≤ 1 ∧ as.count (.producer .put) ≤ 1 ∧
      as.count (.producer .enqueued) ≤ 1 ∧ as.countP BridgeAction.isProducer ≤ 7 ∧
      (b'.producer ≠ .ended → ∃ a, (b'.producerStep Next.item a).isSome = true) := by
  have hb : ∃ b b', (@iterInThread Nat Next.item).run [.consumer .poll, .producer .next,
        .producer .nextReturns, .producer .check, .producer .test, .consumer .stop,
        .consumer .setStopped] = some b ∧
      b.stopped = true ∧ b.producer = .put (.item 0) ∧
      (iterInThread Next.item).runFrom b lastActions = some b' ∧ b'.producer = .ended :=
    ⟨_, _, rfl, rfl, rfl, rfl, rfl⟩
  obtain ⟨b, b', _, hs, hp, hrun, he⟩ := hb
  exact ⟨b, b', lastActions, hp, by decide, he,
    stopped_producer_ends Next.item b hs lastActions b' hrun⟩

end BibiCore.Tts
