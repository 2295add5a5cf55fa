import BibiCore.Session.Talk

/-!
# The turn a transcript is attributed to

`session.go:341`–`402`. A `forwardTranscripts` goroutine tags what it forwards, and runs the chats
it starts, with the turn it loads when it is first scheduled. The stream it ranges over was
opened by the start of one turn. The two agree as long as no later start gets in between.
-/

namespace BibiCore.Session

open BibiCore.Gateway World

/-- What goroutine `i` has put and the chats it has opened come from events it took off its
stream, in order and none twice, and carry the turn whose start opened the stream. The other
events were dropped. -/
structure Attributed (w : World) (i : Nat) (c : SttCall) : Prop where
  transcripts : (w.talk.transcripts.filter (·.1 == i)).Sublist
    (c.stream.consumed.map fun event ↦ (i, transcriptMessage c.startTurn event))
  chats : (w.talk.openings.filter (·.opener == i)).Sublist
    ((c.stream.consumed.filterMap TranscriptEvent.final?).map (Opening.mk i c.startTurn))

/-- Every transcript and every chat is some goroutine's, attributed to the turn of its stream. -/
structure AttributesAll (w : World) : Prop where
  attributed : ∀ i c, w.stt[i]? = some c → Attributed w i c
  transcripts : ∀ p ∈ w.talk.transcripts, p.1 < w.stt.length
  chats : ∀ o ∈ w.talk.openings, o.opener < w.stt.length

/-- When a goroutine is first scheduled, the turn whose start opened its stream is current. -/
def LoadsOwnTurn (w : World) : Action → Prop
  | .forwardTranscripts i _ =>
    ∀ c ∈ w.stt[i]?, c.forwarder = .starting → w.currentTurn = c.startTurn
  | _ => True

instance (w : World) (a : Action) : Decidable (LoadsOwnTurn w a) := by
  unfold LoadsOwnTurn
  split <;> infer_instance

/-! ### One goroutine -/

namespace TranscriptsPc

/-- The event in hand that may still be forwarded. -/
@[simp] def pending : TranscriptsPc → List TranscriptEvent
  | .check _ event | .forward _ event => [event]
  | _ => []

/-- The final transcript in hand that may still start a chat. -/
@[simp] def prompts : TranscriptsPc → List String
  | .check _ event | .forward _ event => event.final?.toList
  | .chatCheck _ prompt | .chatSnapshot _ prompt | .chatOpening _ prompt _ => [prompt]
  | _ => []

variable {pc pc' : TranscriptsPc} {n s i : Nat}

/-- A goroutine keeps its turn, which it loads when it is first scheduled. -/
theorem Moves.turn?_eq (h : pc.Moves n pc') {t : Nat} (ht : t ∈ pc'.turn?) :
    t ∈ pc.turn? ∨ pc = .starting ∧ n = t := by
  cases h with
  | load => exact .inr ⟨rfl, Option.some.inj ht⟩
  | rangeOver => cases ht
  | sent t e =>
    left
    cases e <;> exact ht
  | take | stale | pass | chatStale | chatPass | snapshot | chatOpened | chatFailed | reported
  | publish => exact .inl ht

/-- What a move puts is the event in hand, tagged with the goroutine's turn. -/
theorem Moves.sends_sublist (h : pc.Moves n pc') (ht : ∀ t ∈ pc.turn?, t = s)
    {sent : List (Nat × ControlMessage)} (hs : sent = [] ∨ sent = pc.sends i) :
    (sent ++ pc'.pending.map fun e ↦ (i, transcriptMessage s e)).Sublist
      ((pc.pending ++ pc'.taken).map fun e ↦ (i, transcriptMessage s e)) := by
  cases h with
  | sent t e =>
    obtain rfl : t = s := ht t rfl
    rcases hs with rfl | rfl <;> cases e <;> simp [afterTranscript, transcriptMessage]
  | load | take | rangeOver | stale | pass | chatStale | chatPass | snapshot | chatOpened
  | chatFailed | reported | publish =>
    obtain rfl : sent = [] := by simpa using hs
    simp

/-- The chat a move opens is for the final transcript in hand, in the goroutine's turn. -/
theorem Moves.opens_sublist (h : pc.Moves n pc') (ht : ∀ t ∈ pc.turn?, t = s) :
    (pc.opens i pc' ++ pc'.prompts.map (Opening.mk i s)).Sublist
      ((pc.prompts ++ pc'.taken.filterMap TranscriptEvent.final?).map (Opening.mk i s)) := by
  cases h with
  | sent t e => cases e <;> simp [afterTranscript, TranscriptEvent.final?]
  | take t e => cases e <;> simp [TranscriptEvent.final?]
  | chatOpened t prompt history llm =>
    obtain rfl : t = s := ht t rfl
    simp
  | load | rangeOver | stale | pass | chatStale | chatPass | snapshot | chatFailed | reported
  | publish => simp

end TranscriptsPc

/-- `Attributed` with what the goroutine has in hand. -/
structure Talk.Own (c : Talk) (i : Nat) (transcripts : List (Nat × ControlMessage))
    (chats : List Opening) : Prop where
  turn : ∀ t ∈ c.forwarder.turn?, t = c.startTurn
  transcripts : (transcripts ++
    c.forwarder.pending.map fun e ↦ (i, transcriptMessage c.startTurn e)).Sublist
      (c.events.map fun e ↦ (i, transcriptMessage c.startTurn e))
  chats : (chats ++ c.forwarder.prompts.map (Opening.mk i c.startTurn)).Sublist
    ((c.events.filterMap TranscriptEvent.final?).map (Opening.mk i c.startTurn))

/-- A move of a goroutine that loads its own turn. -/
theorem Talk.Own.move {c : Talk} {i n : Nat} {pc : TranscriptsPc}
    {transcripts sent : List (Nat × ControlMessage)} {chats : List Opening}
    (h : c.Own i transcripts chats) (hm : c.forwarder.Moves n pc)
    (hn : c.forwarder = .starting → n = c.startTurn)
    (hs : sent = [] ∨ sent = c.forwarder.sends i) :
    Talk.Own ⟨c.startTurn, pc, c.events ++ pc.taken⟩ i (transcripts ++ sent)
      (chats ++ c.forwarder.opens i pc) where
  turn t ht := by
    rcases hm.turn?_eq ht with ht | ⟨hp, rfl⟩
    · exact h.turn t ht
    · exact hn hp
  transcripts := by
    have hsent := (List.Sublist.refl transcripts).append (hm.sends_sublist h.turn hs)
    have hold := h.transcripts.append (List.Sublist.refl
      (pc.taken.map fun e ↦ (i, transcriptMessage c.startTurn e)))
    simp only [List.map_append, List.append_assoc] at hsent hold ⊢
    exact hsent.trans hold
  chats := by
    have hopens := (List.Sublist.refl chats).append (hm.opens_sublist (i := i) h.turn)
    have hold := h.chats.append (List.Sublist.refl
      ((pc.taken.filterMap TranscriptEvent.final?).map (Opening.mk i c.startTurn)))
    simp only [List.filterMap_append, List.map_append, List.append_assoc] at hopens hold ⊢
    exact hopens.trans hold

/-- A goroutine with nothing in hand yet. -/
theorem Talk.Own.starting {c : Talk} {i : Nat} {transcripts : List (Nat × ControlMessage)}
    {chats : List Opening} (h : c.Own i transcripts chats) :
    Talk.Own { c with forwarder := .starting } i transcripts chats where
  turn _ ht := nomatch ht
  transcripts := by
    simpa using (List.sublist_append_left _ _).trans h.transcripts
  chats := by
    simpa using (List.sublist_append_left _ _).trans h.chats

/-! ### All of them -/

/-- Every goroutine owns what it has put and opened, and nothing comes from anywhere else. -/
structure TalkView.OwnTurns (v : TalkView) : Prop where
  own : ∀ (i : Nat) (c : Talk), v.calls[i]? = some c →
    c.Own i (v.transcripts.filter (·.1 == i)) (v.openings.filter (·.opener == i))
  transcripts : ∀ p ∈ v.transcripts, p.1 < v.calls.length
  chats : ∀ o ∈ v.openings, o.opener < v.calls.length

namespace TalkView.OwnTurns

variable {v : TalkView}

private theorem opened (hv : v.OwnTurns) (turn : Nat) :
    OwnTurns { v with calls := v.calls ++ [⟨turn, .unstarted, []⟩] } where
  own i c hc := by
    rcases List.getElem?_concat_eq_some.mp hc with hc | ⟨rfl, rfl⟩
    · exact hv.own i c hc
    · have ht : v.transcripts.filter (·.1 == v.calls.length) = [] := by
        apply List.filter_eq_nil_iff.mpr
        intro p hp
        have := hv.transcripts p hp
        simp only [beq_iff_eq]
        omega
      have ho : v.openings.filter (·.opener == v.calls.length) = [] := by
        apply List.filter_eq_nil_iff.mpr
        intro o hm
        have := hv.chats o hm
        simp only [beq_iff_eq]
        omega
      rw [ht, ho]
      exact ⟨fun t hturn ↦ (nomatch hturn), by simp, by simp⟩
  transcripts p hp := by
    have := hv.transcripts p hp
    rw [List.length_append]
    omega
  chats o hm := by
    have := hv.chats o hm
    rw [List.length_append]
    omega

private theorem stored (hv : v.OwnTurns) (j : Nat) :
    OwnTurns { v with calls := v.calls.modify j fun c ↦ { c with forwarder := .starting } } where
  own i c hc := by
    rcases List.getElem?_modify_eq_some.mp hc with ⟨-, hc⟩ | ⟨rfl, d, hd, rfl⟩
    · exact hv.own i c hc
    · exact (hv.own i d hd).starting
  transcripts p hp := by
    rw [List.length_modify]
    exact hv.transcripts p hp
  chats o hm := by
    rw [List.length_modify]
    exact hv.chats o hm

private theorem move (hv : v.OwnTurns) {j n : Nat} {c : Talk} {pc : TranscriptsPc}
    {sent : List (Nat × ControlMessage)} (hc : v.calls[j]? = some c)
    (hm : c.forwarder.Moves n pc) (hn : c.forwarder = .starting → n = c.startTurn)
    (hs : sent = [] ∨ sent = c.forwarder.sends j) :
    OwnTurns ⟨v.calls.set j ⟨c.startTurn, pc, c.events ++ pc.taken⟩,
      v.openings ++ c.forwarder.opens j pc, v.transcripts ++ sent⟩ := by
  have hsent : ∀ p ∈ sent, p.1 = j := by
    rcases hs with rfl | rfl
    · simp
    · exact fun p hp ↦ TranscriptsPc.fst_of_mem_sends hp
  have hopens : ∀ o ∈ c.forwarder.opens j pc, o.opener = j := fun o ho ↦
    TranscriptsPc.opener_of_mem_opens ho
  have hj : j < v.calls.length := (List.getElem?_eq_some_iff.mp hc).1
  constructor
  · intro i d hd
    simp only [List.filter_append]
    rcases List.getElem?_set_eq_some.mp hd with ⟨hne, hd⟩ | ⟨rfl, -, rfl⟩
    · have ht : sent.filter (·.1 == i) = [] := by
        apply List.filter_eq_nil_iff.mpr
        intro p hp
        simpa [hsent p hp] using hne.symm
      have ho : (c.forwarder.opens j pc).filter (·.opener == i) = [] := by
        apply List.filter_eq_nil_iff.mpr
        intro o hm
        simpa [hopens o hm] using hne.symm
      rw [ht, ho, List.append_nil, List.append_nil]
      exact hv.own i d hd
    · have ht : sent.filter (·.1 == i) = sent :=
        List.filter_eq_self.mpr fun p hp ↦ by simpa using hsent p hp
      have ho : (c.forwarder.opens i pc).filter (·.opener == i) = c.forwarder.opens i pc :=
        List.filter_eq_self.mpr fun o hm ↦ by simpa using hopens o hm
      rw [ht, ho]
      exact (hv.own i c hc).move hm hn hs
  · intro p hp
    rw [List.length_set]
    rcases List.mem_append.mp hp with hp | hp
    · exact hv.transcripts p hp
    · exact hsent p hp ▸ hj
  · intro o ho
    rw [List.length_set]
    rcases List.mem_append.mp ho with ho | ho
    · exact hv.chats o ho
    · exact hopens o ho ▸ hj

end TalkView.OwnTurns

/-- In a run in which every goroutine loads its own turn, all of them own what they do. -/
theorem ownTurns_of_reachable {w : World} (hr : system.ReachableWith LoadsOwnTurn w) :
    w.talk.OwnTurns := by
  refine hr.invariant (I := fun w ↦ w.talk.OwnTurns) ?_ fun w a w' _ hw hg h ↦ ?_
  · exact ⟨fun i c hc ↦ by simp [system, World.new, World.talk] at hc,
      fun p hp ↦ by simp [system, World.new, World.talk, World.puts] at hp,
      fun o ho ↦ by simp [system, World.new, World.talk] at ho⟩
  · cases step_talkStep h with
    | opened turn _ _ htalk => exact htalk ▸ hw.opened turn
    | stored i _ htalk => exact htalk ▸ hw.stored i
    | move i c pc sent ha hc hm hs htalk =>
      obtain ⟨b, rfl⟩ := ha
      have hn : c.forwarder = .starting → w.currentTurn = c.startTurn := by
        intro hp
        rw [World.talk, List.getElem?_map] at hc
        obtain ⟨d, hd, rfl⟩ := Option.map_eq_some_iff.mp hc
        exact hg d hd hp
      rw [htalk]
      exact hw.move hc hm hn hs
    | rest htalk => exact htalk ▸ hw

/-- As long as every `forwardTranscripts` goroutine is first scheduled while the turn whose start
opened its stream is current, whatever it forwards and every chat it starts is attributed to that
turn. -/
theorem attributesAll_of_loadsOwnTurn (w : World) (hr : system.ReachableWith LoadsOwnTurn w) :
    AttributesAll w := by
  have hown := ownTurns_of_reachable hr
  constructor
  · intro i c hc
    have h := hown.own i c.talk (by simp [World.talk, hc])
    exact ⟨(List.sublist_append_left _ _).trans h.transcripts,
      (List.sublist_append_left _ _).trans h.chats⟩
  · intro p hp
    simpa [World.talk] using hown.transcripts p hp
  · intro o ho
    simpa [World.talk] using hown.chats o ho

/-- A final transcript of turn 1 starts a chat, and the next start comes later. -/
theorem attributesAll_of_loadsOwnTurn_run : ∃ w : World, AttributesAll w ∧ w.currentTurn = 2 ∧
    w.talk.transcripts = [(0, .finalTranscript "hi" 1)] ∧ w.talk.openings = [⟨0, 1, "hi"⟩] := by
  have hw : ∃ w, system.runGuarded LoadsOwnTurn system.init (startActions ++
      finalActions 0 "hi" ++ startActions) = some w ∧ w.currentTurn = 2 ∧
      w.talk.transcripts = [(0, .finalTranscript "hi" 1)] ∧ w.talk.openings = [⟨0, 1, "hi"⟩] :=
    ⟨_, rfl, rfl, rfl, rfl⟩
  obtain ⟨w, hrun, ht, hp, ho⟩ := hw
  exact ⟨w, attributesAll_of_loadsOwnTurn w (.runGuarded .init hrun), ht, hp, ho⟩

/-- The stream of turn 1 has a final transcript buffered when the next start comes, and its
goroutine is first scheduled after that: the transcript is forwarded, and a chat started, as turn
2. -/
theorem not_attributesAll : ∃ w, system.run (startActions ++
      [.sttRecvPump 0 (.message ⟨.finalEvent, [⟨0, 0, "hi", none⟩], none, "", ""⟩),
        .sttRecvPump 0 .next] ++ startActions ++ List.replicate 3 (.forwardTranscripts 0 .next) ++
      [.forwardTranscripts 0 (.select .put), .forwardTranscripts 0 .next,
        .forwardTranscripts 0 .next, .forwardTranscripts 0 .startOk]) = some w ∧
    w.stt.map SttCall.startTurn = [1, 2] ∧
    w.talk.transcripts = [(0, .finalTranscript "hi" 2)] ∧ w.talk.openings = [⟨0, 2, "hi"⟩] ∧
    ¬ AttributesAll w := by
  have hw : ∃ w, system.run (startActions ++
      [Action.sttRecvPump 0 (.message ⟨.finalEvent, [⟨0, 0, "hi", none⟩], none, "", ""⟩),
        .sttRecvPump 0 .next] ++ startActions ++
      List.replicate 3 (Action.forwardTranscripts 0 .next) ++
      [Action.forwardTranscripts 0 (.select .put), .forwardTranscripts 0 .next,
        .forwardTranscripts 0 .next, .forwardTranscripts 0 .startOk]) = some w ∧
      w.stt.map SttCall.startTurn = [1, 2] ∧
      w.talk.transcripts = [(0, .finalTranscript "hi" 2)] ∧
      w.talk.openings = [⟨0, 2, "hi"⟩] := ⟨_, rfl, rfl, rfl, rfl⟩
  obtain ⟨w, hrun, hturns, hp, ho⟩ := hw
  refine ⟨w, hrun, hturns, hp, ho, fun h ↦ ?_⟩
  obtain ⟨c, hc, hturn⟩ : ∃ c, w.stt[0]? = some c ∧ c.startTurn = 1 := by
    have h0 : (w.stt.map SttCall.startTurn)[0]? = some 1 := by rw [hturns]; rfl
    simpa using h0
  have hchats := (h.attributed 0 c hc).chats
  have hmem : ⟨0, 2, "hi"⟩ ∈ w.talk.openings.filter (·.opener == 0) := by
    rw [ho]
    decide
  obtain ⟨text, -, heq⟩ := List.mem_map.mp (hchats.subset hmem)
  have : c.startTurn = 2 := congrArg Opening.turn heq
  omega

end BibiCore.Session
