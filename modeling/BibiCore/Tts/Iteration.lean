import BibiCore.Tts.AsyncIo

/-!
# What an iteration to the end receives

The entries a finite generator gives rise to are its items, then the exception it raises, if it
does, then the sentinel. While nothing is stopped, what the consumer has taken, what is in the
queue and what the producer still has to enqueue make up exactly these entries.
-/

namespace BibiCore.Tts

variable {α : Type}

/-- The entries behind the items of a generator with this ending. -/
def endingEntries : Option PyException → List (Entry α)
  | none => [.sentinel]
  | some e => [.raised e, .sentinel]

/-- The entries that a finite generator still gives rise to after `k` finished `next()` calls. -/
def entriesFrom (items : List α) (ending : Option PyException) (k : Nat) : List (Entry α) :=
  (items.drop k).map .item ++ endingEntries (if k ≤ items.length then ending else none)

/-- The entries still to be put once `e` is in the queue. -/
def Entry.behind (later : List (Entry α)) : Entry α → List (Entry α)
  | .item _ => later
  | .raised _ => [.sentinel]
  | .sentinel => []

/-- The entries still to be put, where `later` is what the generator has to give. -/
def Producer.rest (later : List (Entry α)) : Producer α → List (Entry α)
  | .next | .running => later
  | .check a => .item a :: later
  | .test e | .put e | .putting e => e :: e.behind later
  | .ended => []

/-- The entry on which the async generator has left its loop. -/
def Consumer.lastTaken : Consumer → List (Entry α)
  | .closing .finished | .done .finished => [.sentinel]
  | .closing (.raised e) | .done (.raised e) => [.raised e]
  | _ => []

namespace Bridge

/-- The entries taken from the queue, in order. -/
def taken (b : Bridge α) : List (Entry α) := b.received.map .item ++ b.consumer.lastTaken

/-- The entries still to be put. -/
def rest (items : List α) (ending : Option PyException) (b : Bridge α) : List (Entry α) :=
  b.producer.rest (entriesFrom items ending b.position)

/-- Every entry is taken, in the queue or still to be put, in this order, as long as the consumer
has not let go; what has been taken stays the beginning of the entries. -/
structure Relays (items : List α) (ending : Option PyException) (b : Bridge α) : Prop where
  entries : b.stopped = false → b.taken ++ b.items.items ++ b.rest items ending =
    entriesFrom items ending 0
  taken_prefix : b.taken <+: entriesFrom items ending 0
  stopped : b.stopped = true ↔ ∃ o, b.consumer = .done o

end Bridge

/-! ### The generator's entries -/

/-- The next entries are those of the next `next()`. -/
theorem entriesFrom_eq (items : List α) (ending : Option PyException) (k : Nat) :
    entriesFrom items ending k =
      (Generator.finite items ending k).handled.rest (entriesFrom items ending (k + 1)) := by
  unfold entriesFrom
  by_cases hk : k < items.length
  · have hle : k ≤ items.length := by omega
    have hlt : k + 1 ≤ items.length := by omega
    have hnext : Generator.finite items ending k = .item items[k] := by
      simp [Generator.finite, hk]
    rw [List.drop_eq_getElem_cons hk, if_pos hle, if_pos hlt, hnext]
    rfl
  · have hnone : items[k]? = none := List.getElem?_eq_none (by omega)
    rw [List.drop_eq_nil_of_le (by omega : items.length ≤ k)]
    by_cases he : k = items.length
    · cases ending with
      | none =>
        simp [Generator.finite, hnone, Next.handled, Producer.rest, Entry.behind, endingEntries]
      | some e =>
        simp [Generator.finite, he, Next.handled, Producer.rest, Entry.behind, endingEntries]
    · have hgt : ¬ k ≤ items.length := by omega
      rw [if_neg hgt]
      cases ending with
      | none =>
        simp [Generator.finite, hnone, Next.handled, Producer.rest, Entry.behind, endingEntries]
      | some e =>
        simp [Generator.finite, hnone, he, Next.handled, Producer.rest, Entry.behind,
          endingEntries]

/-- All the entries of a finite generator. -/
theorem entriesFrom_zero (items : List α) (ending : Option PyException) :
    entriesFrom items ending 0 = items.map .item ++ endingEntries ending := by
  rw [entriesFrom, List.drop_zero, if_pos (Nat.zero_le _)]

/-- What is left behind an entry in the queue. -/
theorem rest_after (later : List (Entry α)) (e : Entry α) :
    e.after.rest later = e.behind later := by
  cases e <;> rfl

/-- The end of a generator is no item. -/
theorem item_notMem_endingEntries (ending : Option PyException) (a : α) :
    .item a ∉ (endingEntries ending : List (Entry α)) := by
  cases ending <;> simp [endingEntries]

private theorem cons_of_item_prefix {ending : Option PyException} {a : α} {items : List α}
    {later : List (Entry α)} (h : .item a :: later <+: items.map .item ++ endingEntries ending) :
    ∃ items', items = a :: items' ∧ later <+: items'.map .item ++ endingEntries ending := by
  cases items with
  | nil =>
    have hmem := h.subset (List.mem_cons_self ..)
    exact absurd hmem (item_notMem_endingEntries ending a)
  | cons b items =>
    obtain ⟨hab, hl⟩ := List.cons_prefix_cons.mp h
    cases hab
    exact ⟨items, rfl, hl⟩

/-- Items at the beginning of a generator's entries are its first items. -/
theorem prefix_of_map_prefix {ending : Option PyException} {l items : List α}
    (h : l.map Entry.item <+: items.map .item ++ endingEntries ending) : l <+: items := by
  induction l generalizing items with
  | nil => exact List.nil_prefix
  | cons a l ih =>
    obtain ⟨items, rfl, hl⟩ := cons_of_item_prefix h
    exact List.cons_prefix_cons.mpr ⟨rfl, ih hl⟩

/-- Items and then the end of the generator are all its items. -/
theorem eq_of_map_concat_prefix {ending : Option PyException} {l items : List α} {e : Entry α}
    (he : ∀ a, e ≠ .item a)
    (h : l.map Entry.item ++ [e] <+: items.map .item ++ endingEntries ending) :
    l = items ∧ (endingEntries ending : List (Entry α)).head? = some e := by
  induction l generalizing items with
  | nil =>
    cases items with
    | nil =>
      refine ⟨rfl, ?_⟩
      obtain ⟨more, hmore⟩ := h
      simp only [List.map_nil, List.nil_append] at hmore
      rw [← hmore]
      rfl
    | cons b items =>
      obtain ⟨heb, _⟩ := List.cons_prefix_cons.mp h
      exact absurd heb (he b)
  | cons a l ih =>
    obtain ⟨items, rfl, hl⟩ := cons_of_item_prefix h
    obtain ⟨hli, hhead⟩ := ih hl
    exact ⟨congrArg (a :: ·) hli, hhead⟩

/-! ### One step -/

namespace Bridge.Relays

variable {items : List α} {ending : Option PyException} {b b' : Bridge α}

/-- The bridge as it is started. -/
theorem started : Relays items ending (.started : Bridge α) where
  entries _ := rfl
  taken_prefix := List.nil_prefix
  stopped := by simp [Bridge.started]

/-- As long as nothing is stopped, the prefix follows from the entries. -/
theorem of_entries (h : b.taken ++ b.items.items ++ b.rest items ending =
    entriesFrom items ending 0) : b.taken <+: entriesFrom items ending 0 := by
  rw [← h, List.append_assoc]
  exact List.prefix_append _ _

private theorem produces (hb : b.Relays items ending) (hc : b'.consumer = b.consumer)
    (hr : b'.received = b.received) (hs : b'.stopped = b.stopped)
    (he : b.stopped = false → b'.items.items ++ b'.rest items ending =
      b.items.items ++ b.rest items ending) : b'.Relays items ending := by
  have ht : b'.taken = b.taken := by rw [taken, taken, hc, hr]
  refine ⟨fun h ↦ ?_, ht ▸ hb.taken_prefix, by rw [hs, hc]; exact hb.stopped⟩
  have hopen : b.stopped = false := hs ▸ h
  rw [ht, List.append_assoc, he hopen, ← List.append_assoc]
  exact hb.entries hopen

private theorem consumes (hb : b.Relays items ending) (hc : ∀ o, b.consumer ≠ .done o)
    (hc' : ∀ o, b'.consumer ≠ .done o) (hs : b'.stopped = b.stopped)
    (hr : b'.rest items ending = b.rest items ending)
    (he : b'.taken ++ b'.items.items = b.taken ++ b.items.items) : b'.Relays items ending := by
  have hopen : b.stopped = false := by
    rw [← Bool.not_eq_true, hb.stopped]
    rintro ⟨o, ho⟩
    exact hc o ho
  have hentries : b'.taken ++ b'.items.items ++ b'.rest items ending =
      entriesFrom items ending 0 := by
    rw [he, hr]
    exact hb.entries hopen
  refine ⟨fun _ ↦ hentries, of_entries hentries, ?_⟩
  rw [hs, hopen]
  simpa using hc'

/-- A step of the producer thread keeps the entries. -/
theorem producerStep (hb : b.Relays items ending) {a : ProducerAction}
    (h : b.producerStep (Generator.finite items ending) a = some b') : b'.Relays items ending := by
  cases producerStep_of_step h with
  | next hp =>
    refine hb.produces rfl rfl rfl fun _ ↦ ?_
    rw [rest, rest, hp]
    rfl
  | nextReturns hp =>
    refine hb.produces rfl rfl rfl fun _ ↦ ?_
    rw [rest, rest, hp, ← entriesFrom_eq]
    rfl
  | goesOn a hp hs =>
    refine hb.produces rfl rfl rfl fun _ ↦ ?_
    rw [rest, rest, hp]
    rfl
  | breaks a hp hs => exact hb.produces rfl rfl rfl fun ho ↦ absurd hs (by simp [ho])
  | tries e hp hs | put e hp | full e hp hf =>
    refine hb.produces rfl rfl rfl fun _ ↦ ?_
    rw [rest, rest, hp]
    rfl
  | givesUp e hp hs => exact hb.produces rfl rfl rfl fun ho ↦ absurd hs (by simp [ho])
  | enqueued e queue hp hq =>
    refine hb.produces rfl rfl rfl fun _ ↦ ?_
    rw [rest, rest, hp, hq, rest_after, List.append_assoc]
    rfl

/-- A step of the async generator keeps the entries. -/
theorem consumerStep (hb : b.Relays items ending) {a : ConsumerAction}
    (h : b.consumerStep a = some b') : b'.Relays items ending := by
  cases consumerStep_of_step h with
  | empty hc hi =>
    refine hb.consumes (by simp [hc]) (by simp) rfl rfl ?_
    simp [taken, hc, Consumer.lastTaken]
  | raised e queue hc hi | sentinel queue hc hi | item a queue hc hi =>
    refine hb.consumes (by simp [hc]) (by simp) rfl rfl ?_
    simp [taken, hc, hi, Consumer.lastTaken]
  | wake hc | resume hc =>
    refine hb.consumes (by simp [hc]) (by simp) rfl rfl ?_
    simp [taken, hc, Consumer.lastTaken]
  | stop hc =>
    rcases hc with hc | hc
    all_goals
      refine hb.consumes (by simp [hc]) (by simp) rfl rfl ?_
      simp [taken, hc, Consumer.lastTaken]
  | setStopped o hc =>
    have ht : taken { b with stopped := true, consumer := .done o } = b.taken := by
      rw [taken, taken, hc]
      cases o <;> rfl
    exact ⟨nofun, ht ▸ hb.taken_prefix, by simp⟩

/-- Every state of an iteration. -/
theorem of_reachable (hr : (iterInThread (Generator.finite items ending)).Reachable b) :
    b.Relays items ending := by
  refine hr.invariant started fun s a t _ hs h ↦ ?_
  cases a with
  | producer a => exact hs.producerStep h
  | consumer a => exact hs.consumerStep h

/-- What the consumer has received so far are the generator's first items. -/
theorem received_prefix (hb : b.Relays items ending) : b.received <+: items := by
  have hpre := hb.taken_prefix
  rw [taken, entriesFrom_zero] at hpre
  exact prefix_of_map_prefix ((List.prefix_append _ _).trans hpre)

/-- Who leaves the loop on an entry has received every item, and the entry is the generator's
end. -/
theorem received_eq (hb : b.Relays items ending) {e : Entry α} (he : ∀ a, e ≠ .item a)
    (hl : b.consumer.lastTaken = [e]) :
    b.received = items ∧ (endingEntries ending : List (Entry α)).head? = some e := by
  have hpre := hb.taken_prefix
  rw [taken, entriesFrom_zero, hl] at hpre
  exact eq_of_map_concat_prefix he hpre

/-- Who waits for an entry is not left alone: there is one, or the producer goes on. -/
theorem comes (hb : b.Relays items ending) (hc : b.consumer = .polling ∨ b.consumer = .sleeping) :
    b.items.items ≠ [] ∨ b.producer ≠ .ended := by
  by_contra hnot
  obtain ⟨hq, hp⟩ := not_or.mp hnot
  rw [not_not] at hq hp
  have hopen : b.stopped = false := by
    rw [← Bool.not_eq_true, hb.stopped]
    rintro ⟨o, ho⟩
    simp [ho] at hc
  have hl : b.consumer.lastTaken = ([] : List (Entry α)) := by
    rcases hc with hc | hc
    all_goals rw [hc]; rfl
  have hentries := hb.entries hopen
  rw [taken, hl, hq, rest, hp, entriesFrom_zero] at hentries
  simp only [List.append_nil, Producer.rest] at hentries
  have hend : Entry.sentinel ∈ b.received.map Entry.item := by
    rw [hentries]
    cases ending <;> simp [endingEntries]
  simp at hend

end Bridge.Relays

/-! ### The iteration -/

/-- How the generator itself ends. -/
def endingOutcome : Option PyException → Outcome
  | none => .finished
  | some e => .raised e

/-- In every state of an iteration over a finite generator the consumer has received the
generator's first items, each once and in order. If it has iterated to the end it has received all
of them, and the iteration ends as the generator did, but for a `StopAsyncIteration`, which
arrives as a `RuntimeError`. A consumer that waits always has an entry to take or a producer that
can go on. -/
theorem receives_items_and_ending (items : List α) (ending : Option PyException) (b : Bridge α)
    (hr : (iterInThread (Generator.finite items ending)).Reachable b) :
    b.received <+: items ∧
    (∀ o, b.outcome? = some o → o ≠ .closed →
      b.received = items ∧ o = (endingOutcome ending).seen) ∧
    (b.consumer = .polling ∨ b.consumer = .sleeping → b.items.items ≠ [] ∨
      ∃ a, (b.producerStep (Generator.finite items ending) a).isSome = true) := by
  have hb := Bridge.Relays.of_reachable hr
  refine ⟨hb.received_prefix, fun o ho hclosed ↦ ?_, fun hc ↦ ?_⟩
  · unfold Bridge.outcome? at ho
    split at ho
    · next u hc =>
      cases ho
      cases u with
      | finished =>
        obtain ⟨hall, hhead⟩ := hb.received_eq (e := .sentinel) nofun (by rw [hc]; rfl)
        refine ⟨hall, ?_⟩
        cases ending with
        | none => rfl
        | some e => simp [endingEntries] at hhead
      | raised e =>
        obtain ⟨hall, hhead⟩ := hb.received_eq (e := .raised e) nofun (by rw [hc]; rfl)
        refine ⟨hall, ?_⟩
        cases ending with
        | none => simp [endingEntries] at hhead
        | some e' =>
          simp only [endingEntries, List.head?_cons, Option.some.injEq, Entry.raised.injEq]
            at hhead
          rw [endingOutcome, hhead]
      | closed => exact absurd rfl hclosed
    · cases ho
  · rcases hb.comes hc with hq | hp
    · exact .inl hq
    · exact .inr (producerStep_isSome hp)

/-- The consumer takes what the producer has put. -/
def takeActions : List BridgeAction := [.consumer .poll, .consumer .resume]

/-- The producer enqueues what it has tested for. -/
def putActions : List BridgeAction := [.producer .test, .producer .put, .producer .enqueued]

/-- The producer gets an item and enqueues it. -/
def itemActions : List BridgeAction :=
  [BridgeAction.producer .next, .producer .nextReturns, .producer .check] ++ putActions

/-- The producer finds the generator at its end, enqueues the entries of it and is done. -/
def endActions (ending : Option PyException) : List BridgeAction :=
  [BridgeAction.producer .next, .producer .nextReturns] ++ putActions ++
    if ending = none then [] else putActions

/-- An iteration over two items and an exception, with an empty poll in between. -/
theorem receives_items_and_ending_failed : ∃ b : Bridge Nat, b.received = [1, 2] ∧
    b.outcome? = some (.raised (.other "ValueError" "no voice")) ∧
    b.received <+: [1, 2] ∧
    (∀ o, b.outcome? = some o → o ≠ .closed → b.received = [1, 2] ∧
      o = (endingOutcome (some (.other "ValueError" "no voice"))).seen) ∧
    (b.consumer = .polling ∨ b.consumer = .sleeping → b.items.items ≠ [] ∨
      ∃ a, (b.producerStep (Generator.finite [1, 2]
        (some (.other "ValueError" "no voice"))) a).isSome = true) := by
  have hb : ∃ b, (iterInThread (Generator.finite [1, 2]
      (some (.other "ValueError" "no voice")))).run
      (itemActions ++ takeActions ++ [BridgeAction.consumer .poll, .consumer .wake] ++
        itemActions ++ takeActions ++ endActions (some (.other "ValueError" "no voice")) ++
        [BridgeAction.consumer .poll, .consumer .setStopped]) = some b ∧
      b.received = [1, 2] ∧ b.outcome? = some (.raised (.other "ValueError" "no voice")) :=
    ⟨_, rfl, rfl, rfl⟩
  obtain ⟨b, hrun, hrec, ho⟩ := hb
  exact ⟨b, hrec, ho, receives_items_and_ending _ _ b (TransitionSystem.reachable_of_run hrun)⟩

/-- A generator that raises a `StopAsyncIteration` at once: the consumer is told of a
`RuntimeError`. -/
theorem not_same_exception : ¬ ∀ (items : List Nat) (ending : Option PyException) (b : Bridge Nat),
    (iterInThread (Generator.finite items ending)).Reachable b →
    ∀ o, b.outcome? = some o → o ≠ .closed → b.received = items ∧ o = endingOutcome ending := by
  intro hall
  have hb : ∃ b, (iterInThread (Generator.finite ([] : List Nat)
      (some (.stopAsyncIteration "")))).run (endActions (some (.stopAsyncIteration "")) ++
        [BridgeAction.consumer .poll, .consumer .setStopped]) = some b ∧
      b.outcome? = some (.raised (.runtimeError "async generator raised StopAsyncIteration")) :=
    ⟨_, rfl, rfl⟩
  obtain ⟨b, hrun, ho⟩ := hb
  have hsame := (hall [] _ b (TransitionSystem.reachable_of_run hrun) _ ho nofun).2
  simp [endingOutcome] at hsame

end BibiCore.Tts
