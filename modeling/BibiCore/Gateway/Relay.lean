import BibiCore.Gateway.ClientStream

/-!
# What `recvPump` delivers

The pump relays what `Recv` returns, in order. After that it adds at most the one error it
reports itself, and only a done context makes it lose the message in hand.
-/

namespace BibiCore.Gateway.Stream

variable {μ ε : Type} {spec : PumpSpec μ ε} {s t : Stream μ ε}

/-- The mapped message `recvPump` has not yet put on `Events`. -/
def inHand (s : Stream μ ε) : List ε :=
  match s.pump with
  | .deliver e => [e]
  | _ => []

/-- How the pump left its loop, once it has. -/
def ending (s : Stream μ ε) : Option Ending :=
  match s.pump with
  | .closing r | .done r => some r
  | _ => none

/-- How what `Events` has carried is related to what `Recv` has returned. -/
def Relays (spec : PumpSpec μ ε) (s : Stream μ ε) : Prop :=
  match s.ending with
  | some .errorSent => ∃ code message,
    s.delivered = s.received.map spec.mapEvent ++ [spec.errorEvent code message]
  | some .contextDone => s.delivered <+: s.received.map spec.mapEvent
  | _ => s.delivered ++ s.inHand = s.received.map spec.mapEvent

/-- A new stream has relayed all it received. -/
theorem relays_opened : (opened : Stream μ ε).Relays spec := rfl

/-- `Close` loses nothing. -/
theorem Relays.close (hs : s.Relays spec) : s.close.Relays spec := hs

/-- The consumer takes events off the channel; what was delivered stays delivered. -/
theorem Relays.next? {e : ε} (hs : s.Relays spec) (h : s.next? = some (e, t)) :
    t.Relays spec := by
  have hd := delivered_next? h
  obtain ⟨-, ht⟩ := next?_eq_some h
  have hp : t.pump = s.pump := by rw [ht]
  have hr : t.received = s.received := by rw [ht]
  unfold Relays ending inHand at *
  rwa [hd, hr, hp]

/-- One step of the pump keeps the relation. -/
theorem Relays.recvPump {parentDone : Bool} {a : PumpAction μ} (hs : s.Relays spec)
    (h : s.recvPump spec parentDone a = some t) : t.Relays spec := by
  cases pumpStep_of_recvPump h with
  | message m hp =>
    simp only [Relays, ending, inHand, hp, List.append_nil] at hs
    simp [Relays, ending, inHand, ← hs, delivered]
  | contextDone hp hc =>
    have hd : s.delivered <+: s.received.map spec.mapEvent := by
      rcases hp with hp | ⟨e, hp⟩
      all_goals
        simp only [Relays, ending, inHand, hp] at hs
        exact hs ▸ List.prefix_append _ _
    exact hd
  | put e c hp hc =>
    simp only [Relays, ending, inHand, hp] at hs
    simp only [Relays, ending, inHand, delivered_send hc, List.append_nil]
    exact hs
  | errorSent code message c hp hc =>
    simp only [Relays, ending, inHand, hp, List.append_nil] at hs
    exact ⟨code, message, by rw [delivered_send hc, hs]⟩
  | close r hp => cases r <;> simpa [Relays, ending, inHand, hp, delivered] using hs
  | eof hp | error _ hp | timeout hp | callOver hp | closedByCaller _ hp | report _ hp
  | errorDropped _ _ hp =>
    simpa [Relays, ending, inHand, hp, delivered] using hs

/-- Every delivered event is a received message, mapped, or an error the pump reported. -/
theorem Relays.of_mem_delivered {e : ε} (hs : s.Relays spec) (he : e ∈ s.delivered) :
    (∃ m ∈ s.received, spec.mapEvent m = e) ∨
      ∃ code message, e = spec.errorEvent code message := by
  have key : e ∈ s.received.map spec.mapEvent → ∃ m ∈ s.received, spec.mapEvent m = e :=
    List.mem_map.mp
  unfold Relays at hs
  split at hs
  · obtain ⟨code, message, hs⟩ := hs
    rw [hs, List.mem_append, List.mem_singleton] at he
    exact he.imp key fun he ↦ ⟨code, message, he⟩
  · exact .inl (key (hs.subset he))
  · exact .inl (key (hs ▸ List.mem_append_left _ he))

/-- What was delivered up to an event that is no error is what was received, mapped. -/
theorem Relays.prefix_received {es : List ε} {e : ε} (hs : s.Relays spec)
    (h : es ++ [e] <+: s.delivered) (he : ∀ code message, e ≠ spec.errorEvent code message) :
    es ++ [e] <+: s.received.map spec.mapEvent := by
  unfold Relays at hs
  split at hs
  · obtain ⟨code, message, hs⟩ := hs
    rw [hs] at h
    rcases List.prefix_concat_iff.mp h with heq | h
    · exact absurd (List.append_inj_right' heq rfl) (by simpa using he code message)
    · exact h
  · exact h.trans hs
  · exact h.trans (hs ▸ List.prefix_append _ _)

/-- Unless its context was done, the pump has delivered every message it received. -/
theorem Relays.mem_delivered {m : μ} (hs : s.Relays spec) (hn : s.inHand = [])
    (hc : s.ending ≠ some .contextDone) (hm : m ∈ s.received) :
    spec.mapEvent m ∈ s.delivered := by
  have hm := List.mem_map_of_mem (f := spec.mapEvent) hm
  unfold Relays at hs
  split at hs
  · obtain ⟨code, message, hs⟩ := hs
    exact hs ▸ List.mem_append_left _ hm
  · contradiction
  · rw [hn, List.append_nil] at hs
    exact hs ▸ hm

/-! ### Why the pump stopped -/

/-- The pump will not receive again. -/
def leaving (s : Stream μ ε) : Bool :=
  match s.pump with
  | .emitError _ _ | .closing _ | .done _ => true
  | _ => false

/-- The context is done only when the caller saw to it or the pump's own idle timer did, and
the pump gives an error up only on a full channel. -/
structure Accounted (byCaller : Prop) (s : Stream μ ε) : Prop where
  cancelled : s.cancelled = true → byCaller ∨ s.leaving = true
  contextDone : s.ending = some .contextDone → byCaller
  errorDropped : s.ending = some .errorDropped → 16 ≤ s.delivered.length

namespace Accounted

variable {byCaller : Prop}

/-- A new stream has nothing to account for. -/
theorem opened : (opened : Stream μ ε).Accounted byCaller := by
  constructor <;> simp [Stream.opened, ending]

/-- The account stands for any wider `byCaller`. -/
theorem mono {byCaller' : Prop} (hs : s.Accounted byCaller) (h : byCaller → byCaller') :
    s.Accounted byCaller' :=
  ⟨fun hc ↦ (hs.cancelled hc).imp_left h, fun hc ↦ h (hs.contextDone hc), hs.errorDropped⟩

/-- The caller's own close is accounted for. -/
theorem close (hs : s.Accounted byCaller) (h : byCaller) : s.close.Accounted byCaller :=
  ⟨fun _ ↦ .inl h, fun _ ↦ h, hs.errorDropped⟩

/-- Taking an event leaves all accounted for. -/
theorem next? {e : ε} (hs : s.Accounted byCaller) (h : s.next? = some (e, t)) :
    t.Accounted byCaller := by
  have hd := delivered_next? h
  obtain ⟨-, ht⟩ := next?_eq_some h
  have hp : t.pump = s.pump := by rw [ht]
  have hc : t.cancelled = s.cancelled := by rw [ht]
  have hl : t.leaving = s.leaving := by rw [leaving, leaving, hp]
  have he : t.ending = s.ending := by rw [ending, ending, hp]
  constructor
  · rw [hc, hl]
    exact hs.cancelled
  · rw [he]
    exact hs.contextDone
  · rw [he, hd]
    exact hs.errorDropped

/-- One step of the pump, when only the caller can end the parent context. -/
theorem recvPump {parentDone : Bool} {a : PumpAction μ} (hs : s.Accounted byCaller)
    (hb : parentDone = true → byCaller) (h : s.recvPump spec parentDone a = some t) :
    t.Accounted byCaller := by
  have hin (hl : s.leaving = false) (hc : s.cancelled = true) : byCaller :=
    (hs.cancelled hc).resolve_right (by simp [hl])
  cases pumpStep_of_recvPump h with
  | message _ hp | error _ hp | put _ _ hp =>
    exact ⟨fun hc ↦ .inl (hin (by simp [leaving, hp]) hc), by simp [ending], by simp [ending]⟩
  | contextDone hp hc =>
    have hl : s.leaving = false := by
      rcases hp with hp | ⟨e, hp⟩
      all_goals simp [leaving, hp]
    exact ⟨fun _ ↦ .inr rfl, fun _ ↦ hc.elim (hin hl) hb, by simp [ending]⟩
  | errorDropped _ _ hp hf =>
    have hlen : s.events.items.length = 16 := hf
    refine ⟨fun _ ↦ .inr rfl, by simp [ending], fun _ ↦ ?_⟩
    show 16 ≤ (s.consumed ++ s.events.items).length
    rw [List.length_append]
    omega
  | close r hp =>
    have he : s.ending = some r := by rw [ending, hp]
    refine ⟨fun _ ↦ .inr rfl, fun hr ↦ hs.contextDone ?_, fun hr ↦ hs.errorDropped ?_⟩
    · rw [he]
      exact hr
    · rw [he]
      exact hr
  | eof | timeout | callOver | closedByCaller | report | errorSent =>
    exact ⟨fun _ ↦ .inr rfl, by simp [ending], by simp [ending]⟩

end Accounted

end BibiCore.Gateway.Stream
