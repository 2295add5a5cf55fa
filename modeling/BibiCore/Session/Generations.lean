import BibiCore.Session.Chat

/-!
# Which generation `activeLLMStream` points to

`session.go:295`–`321` and `378`–`438`. `startLLMChat` stores the pointer after the turn check
and the `StartChat` round trip, `forwardLLMEvents` clears it on any `Done`, and
`interruptCurrentTurn` closes whatever it finds there.
-/

namespace BibiCore.Session

open BibiCore.Gateway World

/-! ### The current generation is the active one -/

/-- Stream `k` is published for the current turn, its `forwardLLMEvents` has neither processed
`Done` or an error nor left its loop, and no later start has been received. -/
def ChatView.Generating (v : ChatView) (k : Nat) : Prop :=
  v.reader ≠ .addTurn ∧
    ∃ c, v.llm[k]? = some c ∧ c.forwarder ≠ .unstarted ∧ c.turn = v.turn ∧ c.settled = false

/-- `activeLLMStream` is the current generation, whenever there is one. -/
def GenerationIsActive (w : World) : Prop :=
  ∀ k, w.chat.Generating k → w.activeLLMStream = some k

/-- The step does not store, clear or swap out `activeLLMStream` while a stream other than the
one it is about is generating for the current turn. -/
structure SparesGeneration (w : World) (a : Action) : Prop where
  publishing : ∀ t j, w.publishing a = some (t, j) → ∀ k, w.chat.Generating k → k = j
  completing : ∀ j, w.completing a = some j → ∀ k, w.chat.Generating k → k = j
  swapping : w.swapping a → ∀ k, ¬ w.chat.Generating k

/-- What a publication does. -/
theorem chat_publishing {w w' : World} {a : Action} {t j : Nat}
    (ha : w.publishing a = some (t, j)) (h : system.step w a = some w') :
    w'.activeLLMStream = some j ∧ w'.currentTurn = w.currentTurn ∧ w'.reader = w.reader ∧
      w'.llm = w.llm.modify j fun c ↦ { c with forwarder := .ranging } := by
  unfold publishing at ha
  split at ha
  · next i =>
    obtain ⟨pc, hpc, hp⟩ := Option.bind_eq_some_iff.mp ha
    obtain ⟨c, hc, rfl⟩ := by simpa [World.forwarders] using hpc
    unfold TranscriptsPc.publishing at hp
    split at hp
    · next turn llm hf =>
      cases hp
      simp only [system, World.step, forwardTranscripts, hc, transcriptsStep, hf] at h
      split at h <;> cases h
      exact ⟨rfl, rfl, rfl, rfl⟩
    · cases hp
  · cases ha

/-- What a completion does. -/
theorem chat_completing {w w' : World} {a : Action} {j : Nat}
    (ha : w.completing a = some j) (h : system.step w a = some w') :
    w'.activeLLMStream = none ∧ w'.currentTurn = w.currentTurn ∧ w'.reader = w.reader ∧
      w'.llm = w.llm.modify j LlmCall.settle := by
  unfold completing at ha
  split at ha
  · next i =>
    split at ha
    · next hf =>
      cases ha
      obtain ⟨c, hc, hp⟩ := Option.map_eq_some_iff.mp hf
      simp only [system, World.step, forwardLLMEvents, hc, llmEventsStep, hp] at h
      split at h <;> cases h
      exact ⟨rfl, rfl, rfl, rfl⟩
    · cases ha
  · cases ha

/-- What the lock section of `interruptCurrentTurn` does. -/
theorem chat_swapping {w w' : World} {a : Action} (ha : w.swapping a)
    (h : system.step w a = some w') :
    w'.activeLLMStream = none ∧ w'.currentTurn = w.currentTurn ∧ w'.reader ≠ .addTurn ∧
      w'.llm = w.llm := by
  obtain ⟨rfl, turn, hr⟩ := ha
  simp only [system, World.step, World.readPump, hr] at h
  split at h <;> cases h
  exact ⟨rfl, rfl, by simp, rfl⟩

private theorem generating_modify {w w' : World} {j k : Nat} {g : LlmCall → LlmCall}
    (hk : w.chat.Generating k) (hne : k ≠ j) (ht : w'.currentTurn = w.currentTurn)
    (hr : w'.reader ≠ .addTurn) (hl : w'.llm = w.llm.modify j g) : w'.chat.Generating k := by
  obtain ⟨-, c, hc, hf, hct, hs⟩ := hk
  refine ⟨hr, c, ?_, hf, hct.trans ht.symm, hs⟩
  rw [World.chat, hl]
  exact List.getElem?_modify_eq_some.mpr (.inl ⟨hne, hc⟩)

/-- A step that keeps the invariant spares the generation. -/
theorem sparesGeneration_of_active {w w' : World} {a : Action} (hw : GenerationIsActive w')
    (h : system.step w a = some w') : SparesGeneration w a := by
  refine ⟨fun t j ha k hk ↦ ?_, fun j ha k hk ↦ ?_, fun ha k hk ↦ ?_⟩
  · obtain ⟨hact, ht, hr, hl⟩ := chat_publishing ha h
    by_contra hne
    have := hw k (generating_modify hk hne ht (hr ▸ hk.1) hl)
    exact hne (Option.some.inj (this.symm.trans hact))
  · obtain ⟨hact, ht, hr, hl⟩ := chat_completing ha h
    by_contra hne
    have := hw k (generating_modify hk hne ht (hr ▸ hk.1) hl)
    exact absurd (hact.symm.trans this) (by simp)
  · obtain ⟨hact, ht, hr, hl⟩ := chat_swapping ha h
    obtain ⟨-, c, hc, hf, hct, hs⟩ := hk
    have := hw k ⟨hr, c, by rwa [World.chat, hl], hf, hct.trans ht.symm, hs⟩
    exact absurd (hact.symm.trans this) (by simp)

private theorem generating_back {v v' : ChatView} {k : Nat} (hk : v'.Generating k)
    (ht : v'.turn = v.turn) (hr : v.reader ≠ .addTurn)
    (hl : ∀ d, v'.llm[k]? = some d → d.forwarder ≠ .unstarted → d.settled = false →
      ∃ c, v.llm[k]? = some c ∧ c.forwarder ≠ .unstarted ∧ c.turn = d.turn ∧ c.settled = false) :
    v.Generating k := by
  obtain ⟨-, d, hd, hf, hdt, hs⟩ := hk
  obtain ⟨c, hc, hcf, hct, hcs⟩ := hl d hd hf hs
  exact ⟨hr, c, hc, hcf, by rw [hct, hdt, ht], hcs⟩

private theorem generating_back_modify {v : ChatView} {r : ReadPc} {act : Option Nat}
    {fs : List TranscriptsPc} {j k : Nat} {g : LlmCall → LlmCall}
    (hk : ({ v with active := act, reader := r, llm := v.llm.modify j g, forwarders := fs } :
      ChatView).Generating k) (hr : v.reader ≠ .addTurn)
    (hg : ∀ c, v.llm[j]? = some c → k = j → (g c).forwarder ≠ .unstarted →
      (g c).settled = false →
        c.forwarder ≠ .unstarted ∧ c.turn = (g c).turn ∧ c.settled = false) :
    v.Generating k := by
  refine generating_back hk rfl hr fun d hd hf hs ↦ ?_
  rcases List.getElem?_modify_eq_some.mp hd with ⟨-, hd⟩ | ⟨rfl, c, hc, rfl⟩
  · exact ⟨d, hd, hf, rfl, hs⟩
  · exact ⟨c, hc, hg c hc rfl hf hs⟩

/-- A step that spares the generation keeps the invariant. -/
theorem active_of_sparesGeneration {w w' : World} {a : Action} (hv : w.chat.Linked)
    (hw : GenerationIsActive w) (hp : SparesGeneration w a) (h : ChatStep w w' a) :
    GenerationIsActive w' := by
  intro k hk
  cases h with
  | addTurn hr h =>
    rw [h] at hk
    obtain ⟨-, c, hc, -, hct, -⟩ := hk
    have := hv.calls k c hc
    simp only [World.chat] at hct this
    omega
  | swap turn ha hr h =>
    rw [h] at hk
    have hback : w.chat.Generating k :=
      generating_back hk rfl (by simp [World.chat, hr]) fun d hd hf hs ↦ ⟨d, hd, hf, rfl, hs⟩
    exact absurd hback (hp.swapping ha k)
  | close turn j tts hr h =>
    rw [h] at hk
    rw [show w'.activeLLMStream = _ from congrArg ChatView.active h]
    exact hw k (generating_back_modify hk (by simp [World.chat, hr])
      fun c _ _ hf hs ↦ ⟨hf, rfl, hs⟩)
  | opened turn hr h =>
    rw [h] at hk
    rw [show w'.activeLLMStream = _ from congrArg ChatView.active h]
    exact hw k (generating_back hk rfl (by simp [World.chat, hr])
      fun d hd hf hs ↦ ⟨d, hd, hf, rfl, hs⟩)
  | stored i hr h =>
    rw [h] at hk
    rw [show w'.activeLLMStream = _ from congrArg ChatView.active h]
    exact hw k (generating_back hk rfl (by simp [World.chat, hr])
      fun d hd hf hs ↦ ⟨d, hd, hf, rfl, hs⟩)
  | read pc hr h =>
    rw [h] at hk
    rw [show w'.activeLLMStream = _ from congrArg ChatView.active h]
    refine hw k (generating_back hk rfl (fun hadd ↦ ?_) fun d hd hf hs ↦ ⟨d, hd, hf, rfl, hs⟩)
    simpa [show w.reader = _ from hadd] using hr.left
  | startChat i turn prompt history hf h =>
    rw [h] at hk
    rw [show w'.activeLLMStream = _ from congrArg ChatView.active h]
    refine hw k (generating_back hk rfl hk.1 fun d hd hdf hs ↦ ?_)
    rcases List.getElem?_concat_eq_some.mp hd with hd | ⟨-, rfl⟩
    · exact ⟨d, hd, hdf, rfl, hs⟩
    · exact absurd rfl hdf
  | publish i turn j ha hf h =>
    rw [h] at hk
    rw [show w'.activeLLMStream = _ from congrArg ChatView.active h]
    by_cases hkj : k = j
    · rw [hkj]
    · exact congrArg some (hp.publishing turn j ha k (generating_back_modify hk hk.1
        fun _ _ hkj' ↦ absurd hkj' hkj)).symm
  | transcripts i pc pc' hf hpc hpc' ht _ h =>
    rw [h] at hk
    rw [show w'.activeLLMStream = _ from congrArg ChatView.active h]
    exact hw k (generating_back hk rfl hk.1 fun d hd hf hs ↦ ⟨d, hd, hf, rfl, hs⟩)
  | complete j c ha hc hd h =>
    rw [h] at hk
    have hback : w.chat.Generating k := by
      refine generating_back_modify hk hk.1 fun _ _ _ _ hs ↦ ?_
      cases hs
    obtain rfl := hp.completing j ha k hback
    obtain ⟨-, d, hd, -, -, hs⟩ := hk
    rcases List.getElem?_modify_eq_some.mp hd with ⟨hne, -⟩ | ⟨-, c, -, rfl⟩
    · exact absurd rfl hne
    · cases hs
  | llmEvents j c g hc hg h =>
    rw [h] at hk
    rw [show w'.activeLLMStream = _ from congrArg ChatView.active h]
    refine hw k (generating_back_modify hk hk.1 fun d hd _ _ hs ↦ ?_)
    obtain rfl : c = d := Option.some.inj (hc.symm.trans hd)
    refine ⟨hg.published.1, hg.turn.symm, ?_⟩
    by_contra hcs
    simp [hg.settled (by simpa using hcs)] at hs
  | pump j c s b hc hs h =>
    rw [h] at hk
    rw [show w'.activeLLMStream = _ from congrArg ChatView.active h]
    exact hw k (generating_back_modify hk hk.1 fun _ _ _ hf hs ↦ ⟨hf, rfl, hs⟩)
  | rest h =>
    rw [h] at hk
    rw [show w'.activeLLMStream = _ from congrArg ChatView.active h]
    exact hw k hk

/-- Along every run, `activeLLMStream` is the current generation in every state exactly when
every step spares it. -/
theorem generationIsActive_iff_spares (as : List Action) (u : World)
    (h : system.run as = some u) :
    system.Always GenerationIsActive system.init as ↔
      system.Along SparesGeneration system.init as := by
  refine TransitionSystem.always_iff_along ?_ (fun w a w' hr hw hs ↦ ?_) h
  · rintro k ⟨-, c, hc, -⟩
    simp [system, World.new, World.chat] at hc
  · exact ⟨fun hw' ↦ sparesGeneration_of_active hw' hs,
      fun hp ↦ active_of_sparesGeneration (linked_of_reachable hr) hw hp (step_chatStep hs)⟩

/-- The equivalence at a run that ends with a chat published for the current turn. -/
theorem generationIsActive_iff_spares_run : ∃ u : World,
    u.chat.Generating 0 ∧ u.activeLLMStream = some 0 ∧
      (system.Always GenerationIsActive system.init
          (startActions ++ finalActions 0 "hi" ++ [.forwardTranscripts 0 .next]) ↔
        system.Along SparesGeneration system.init
          (startActions ++ finalActions 0 "hi" ++ [.forwardTranscripts 0 .next])) := by
  have hrun : ∃ u : World, system.run (startActions ++ finalActions 0 "hi" ++
      [Action.forwardTranscripts 0 .next]) = some u ∧ u.chat.Generating 0 ∧
        u.activeLLMStream = some 0 :=
    ⟨_, rfl, ⟨by decide, _, rfl, by decide, rfl, rfl⟩, rfl⟩
  obtain ⟨u, h, hgen, hactive⟩ := hrun
  exact ⟨u, hgen, hactive, generationIsActive_iff_spares _ u h⟩

/-- Turn 1's goroutine passes its turn check with `Done` in hand and is delayed; turn 2 begins
and publishes its stream; then the delayed `Done` clears the pointer to it. -/
theorem not_generationIsActive : ∃ w, system.run (startActions ++ finalActions 0 "hi" ++
      [.forwardTranscripts 0 .next] ++
      [.llmRecvPump 0 (.message ⟨.done, "", "", ""⟩), .llmRecvPump 0 .next,
        .forwardLLMEvents 0 .next, .forwardLLMEvents 0 .next] ++
      bargeInActions .put ++ finalActions 1 "wait" ++ [.forwardTranscripts 1 .next] ++
      [.forwardLLMEvents 0 .next]) = some w ∧
    (∀ c ∈ w.stt, c.stream.received.countP (fun m ↦ m.type = .finalEvent) ≤ 1) ∧
    w.chat.Generating 1 ∧ w.activeLLMStream = none ∧ ¬ GenerationIsActive w := by
  refine ⟨_, rfl, by decide, ⟨by decide, _, rfl, by decide, rfl, rfl⟩, rfl, fun h ↦ ?_⟩
  have hactive := h 1 ⟨by decide, _, rfl, by decide, rfl, rfl⟩
  cases hactive

/-! ### No superseded generation is left running -/

/-- The generation has neither been cancelled by `Close` nor ended by itself. -/
def LlmCall.Running (c : LlmCall) : Prop := c.stream.closed = false ∧ ¬ LlmStream.Ended c.stream

instance (c : LlmCall) : Decidable c.Running := inferInstanceAs (Decidable (_ ∧ _))

/-- The turn of a running `startLLMChat`. -/
@[simp] def TranscriptsPc.chatting : TranscriptsPc → Option Nat
  | .chatCheck turn _ | .chatSnapshot turn _ | .chatOpening turn _ _ | .chatFailed turn
  | .chatPublish turn _ => some turn
  | _ => none

/-- Every `startLLMChat` called for a turn smaller than `n` has returned. -/
def World.ChatsReturned (w : World) (n : Nat) : Prop :=
  ∀ pc ∈ w.forwarders, ∀ t ∈ pc.chatting, n ≤ t

instance (w : World) (n : Nat) : Decidable (w.ChatsReturned n) :=
  inferInstanceAs (Decidable (∀ pc ∈ w.forwarders, ∀ t ∈ pc.chatting, n ≤ t))

/-- Once both have, every stream opened for a turn smaller than `n` is cancelled or over. -/
def NoneLeftRunning (w : World) : Prop :=
  ∀ n, w.InterruptReturned n → w.ChatsReturned n →
    ∀ (j : Nat) (c : LlmCall), w.llm[j]? = some c → c.turn < n →
      c.stream.closed = true ∨ LlmStream.Ended c.stream

/-- Overwriting or clearing `activeLLMStream` on behalf of stream `j` loses no other running
stream. -/
def World.SparesRunning (w : World) (j : Nat) : Prop :=
  ∀ k ∈ w.activeLLMStream, k ≠ j → ∀ c ∈ w.llm[k]?, ¬ c.Running

/-- The turn is current, or the start that supersedes it has not swapped the pointers yet. -/
def World.UpToDate (w : World) (turn : Nat) : Prop :=
  turn = w.currentTurn ∨ turn + 1 = w.currentTurn ∧ w.reader = .swap w.currentTurn

/-- A running stream is published while its turn is up to date, and the pointer to a running
stream is only overwritten or cleared for that stream itself. -/
def KeepsTrack (w : World) (a : Action) : Prop :=
  (∀ p ∈ w.publishing a,
    (∀ c ∈ w.llm[p.2]?, c.Running → w.UpToDate p.1) ∧ w.SparesRunning p.2) ∧
  ∀ j ∈ w.completing a, w.SparesRunning j

instance (w : World) (j : Nat) : Decidable (w.SparesRunning j) :=
  inferInstanceAs (Decidable (∀ k ∈ w.activeLLMStream, k ≠ j → ∀ c ∈ w.llm[k]?, ¬ c.Running))

instance (w : World) (turn : Nat) : Decidable (w.UpToDate turn) :=
  inferInstanceAs (Decidable (_ ∨ _))

instance (w : World) (a : Action) : Decidable (KeepsTrack w a) :=
  inferInstanceAs (Decidable ((∀ p ∈ w.publishing a,
    (∀ c ∈ w.llm[p.2]?, c.Running → w.UpToDate p.1) ∧ w.SparesRunning p.2) ∧
      ∀ j ∈ w.completing a, w.SparesRunning j))

/-- A running stream is where the next `interruptCurrentTurn` finds it, is about to be
published, or is about to be closed. -/
structure ChatView.Tracked (v : ChatView) : Prop where
  held : ∀ (j : Nat) (c : LlmCall), v.llm[j]? = some c → c.Running →
    v.active = some j ∨ (∃ i t : Nat, v.forwarders[i]? = some (.chatPublish t j)) ∨
      ∃ n tts, v.reader = .closeLLM n (some j) tts
  active : ∀ (j : Nat) (c : LlmCall), v.active = some j → v.llm[j]? = some c → c.Running →
    c.turn = v.turn ∨ c.turn + 1 = v.turn ∧ v.reader = .swap v.turn
  closing : ∀ (n j : Nat) (tts : Option Nat) (c : LlmCall), v.reader = .closeLLM n (some j) tts →
    v.llm[j]? = some c → c.Running → n ≤ c.turn + 1

/-- A tracked session leaves nothing running. -/
theorem noneLeftRunning_of_tracked {w : World} (hl : w.chat.Linked) (ht : w.chat.Tracked) :
    NoneLeftRunning w := by
  intro n hi hchats j c hc hn
  by_contra hrun
  have hrun : c.Running := by simpa [LlmCall.Running] using hrun
  rcases ht.held j c hc hrun with hact | ⟨i, t, hf⟩ | ⟨m, tts, hr⟩
  · rcases ht.active j c hact hc hrun with heq | ⟨heq, hr⟩
    · have := hi.1
      simp only [World.chat] at heq
      omega
    · apply hi.2
      simp only [World.chat] at heq hr
      have := hi.1
      rw [hr, ReadPc.interrupting, show n = w.currentTurn by omega]
  · obtain ⟨d, hd, hdt⟩ := hl.publishing i t j hf
    obtain rfl : d = c := Option.some.inj (hd.symm.trans hc)
    have := hchats _ (List.mem_of_getElem? hf) t rfl
    omega
  · apply hi.2
    have hm := hl.interrupting m (by rw [hr]; rfl)
    have hcl := ht.closing m j tts c hr hc hrun
    have := hi.1
    simp only [World.chat] at hm hr
    rw [hr, ReadPc.interrupting, show n = m by omega]

namespace ChatView.Tracked

variable {v : ChatView}

/-- Unless `readPump` is about to close it, a running stream is published or about to be. -/
theorem held_of_not_closing {j : Nat} {c : LlmCall} (hv : v.Tracked) (hc : v.llm[j]? = some c)
    (hrun : c.Running) (hr : ∀ n tts, v.reader ≠ .closeLLM n (some j) tts) :
    v.active = some j ∨ ∃ i t : Nat, v.forwarders[i]? = some (.chatPublish t j) := by
  rcases hv.held j c hc hrun with hact | hpub | ⟨n, tts, hcl⟩
  · exact .inl hact
  · exact .inr hpub
  · exact absurd hcl (hr n tts)

/-- Unless a start is about to swap the pointers, a running published stream is of the current
turn. -/
theorem turn_of_not_swap {j : Nat} {c : LlmCall} (hv : v.Tracked) (hact : v.active = some j)
    (hc : v.llm[j]? = some c) (hrun : c.Running) (hr : v.reader ≠ .swap v.turn) :
    c.turn = v.turn := by
  rcases hv.active j c hact hc hrun with ht | ⟨-, hsw⟩
  · exact ht
  · exact absurd hsw hr

/-- A step that touches one call and revives nothing. -/
theorem modifyCall {j : Nat} {g : LlmCall → LlmCall} (hv : v.Tracked)
    (hg : ∀ c, v.llm[j]? = some c → (g c).Running → c.Running ∧ c.turn = (g c).turn) :
    ({ v with llm := v.llm.modify j g } : ChatView).Tracked := by
  have back (k : Nat) (d : LlmCall) (hd : (v.llm.modify j g)[k]? = some d) (hr : d.Running) :
      ∃ c, v.llm[k]? = some c ∧ c.Running ∧ c.turn = d.turn := by
    rcases List.getElem?_modify_eq_some.mp hd with ⟨-, hd⟩ | ⟨rfl, c, hc, rfl⟩
    · exact ⟨d, hd, hr, rfl⟩
    · exact ⟨c, hc, hg c hc hr⟩
  refine ⟨fun k d hd hr ↦ ?_, fun k d hk hd hr ↦ ?_, fun n k tts d hk hd hr ↦ ?_⟩
  · obtain ⟨c, hc, hcr, -⟩ := back k d hd hr
    exact hv.held k c hc hcr
  · obtain ⟨c, hc, hcr, ht⟩ := back k d hd hr
    exact ht ▸ hv.active k c hk hc hcr
  · obtain ⟨c, hc, hcr, ht⟩ := back k d hd hr
    exact ht ▸ hv.closing n k tts c hk hc hcr

/-- A `forwardTranscripts` goroutine that has nothing to publish moves on. -/
theorem setForwarder {i : Nat} {pc : TranscriptsPc} (pc' : TranscriptsPc) (hv : v.Tracked)
    (hf : v.forwarders[i]? = some pc) (hp : pc.publishing = none) :
    ({ v with forwarders := v.forwarders.set i pc' } : ChatView).Tracked := by
  refine ⟨fun j c hc hr ↦ ?_, hv.active, hv.closing⟩
  refine (hv.held j c hc hr).imp_right (Or.imp_left ?_)
  rintro ⟨k, t, hk⟩
  refine ⟨k, t, List.getElem?_set_eq_some.mpr (.inl ⟨?_, hk⟩)⟩
  rintro rfl
  rw [hf] at hk
  cases hk
  cases hp

/-- `readPump` moves between statements that have nothing to do with a turn. -/
theorem setReader {pc : ReadPc} (hv : v.Tracked) (hl : v.reader.turning = false)
    (hp : pc = .addTurn ∨ pc.turning = false) :
    ({ v with reader := pc } : ChatView).Tracked := by
  refine ⟨fun j c hc hr ↦ ?_, fun j c hact hc hr ↦ ?_, fun n j tts c hpc ↦ ?_⟩
  · have hclose (n : Nat) (tts : Option Nat) : v.reader ≠ .closeLLM n (some j) tts := fun h ↦ by
      simp [h] at hl
    exact (hv.held_of_not_closing hc hr hclose).imp_right .inl
  · have hswap : v.reader ≠ .swap v.turn := fun h ↦ by simp [h] at hl
    exact .inl (hv.turn_of_not_swap hact hc hr hswap)
  · have hpc : pc = .closeLLM n (some j) tts := hpc
    simp [hpc] at hp

/-- `startLLMChat` opens a chat, which it publishes next. -/
theorem startChat {i turn : Nat} {prompt : String} {history : List Proto.ChatMessage}
    (hv : v.Tracked) (hl : v.Linked)
    (hf : v.forwarders[i]? = some (.chatOpening turn prompt history)) :
    ({ v with
      llm := v.llm ++ [LlmCall.opened i turn prompt history]
      forwarders := v.forwarders.set i (.chatPublish turn v.llm.length) } : ChatView).Tracked := by
  have hi : i < v.forwarders.length := (List.getElem?_eq_some_iff.mp hf).1
  have hv' := hv.setForwarder (.chatPublish turn v.llm.length) hf rfl
  have old (j : Nat) (c : LlmCall) (hj : j < v.llm.length)
      (hc : (v.llm ++ [LlmCall.opened i turn prompt history])[j]? = some c) :
      v.llm[j]? = some c := by
    rwa [List.getElem?_append_left hj] at hc
  refine ⟨fun j c hc hrun ↦ ?_, fun j c hact hc hrun ↦ ?_, fun n j tts c hcl hc hrun ↦ ?_⟩
  · rcases List.getElem?_concat_eq_some.mp hc with hc | ⟨rfl, -⟩
    · exact hv'.held j c hc hrun
    · exact .inr (.inl ⟨i, turn, List.getElem?_set_eq_some.mpr (.inr ⟨rfl, hi, rfl⟩)⟩)
  · exact hv.active j c hact (old j c (hl.active j hact) hc) hrun
  · exact hv.closing n j tts c hcl (old j c (hl.closing n j tts hcl) hc) hrun

/-- A stream is published that is up to date if it runs, in place of none that still runs. -/
theorem publish {i turn j : Nat} (hv : v.Tracked)
    (hf : v.forwarders[i]? = some (.chatPublish turn j))
    (hup : ∀ c, v.llm[j]? = some c → c.Running →
      c.turn = v.turn ∨ c.turn + 1 = v.turn ∧ v.reader = .swap v.turn)
    (hspare : ∀ k c, v.active = some k → k ≠ j → v.llm[k]? = some c → ¬ c.Running) :
    ({ v with
      active := some j
      llm := v.llm.modify j fun c ↦ { c with forwarder := .ranging }
      forwarders := v.forwarders.set i (.ranging turn) } : ChatView).Tracked := by
  have hv' : ({ v with llm := v.llm.modify j fun c ↦ { c with forwarder := .ranging } } :
      ChatView).Tracked := hv.modifyCall fun c _ hrun ↦ ⟨hrun, rfl⟩
  refine ⟨fun k d hd hrun ↦ ?_, fun k d hact hd hrun ↦ ?_, hv'.closing⟩
  · rcases List.getElem?_modify_eq_some.mp hd with ⟨hk, hd⟩ | ⟨rfl, -⟩
    · rcases hv.held k d hd hrun with hact | ⟨i', t, hf'⟩ | hcl
      · exact absurd hrun (hspare k d hact hk hd)
      · -- another goroutine publishes another stream
        refine .inr (.inl ⟨i', t, List.getElem?_set_eq_some.mpr (.inl ⟨?_, hf'⟩)⟩)
        rintro rfl
        have heq := hf.symm.trans hf'
        simp only [Option.some.injEq, TranscriptsPc.chatPublish.injEq] at heq
        exact hk heq.2.symm
      · exact .inr (.inr hcl)
    · exact .inl rfl
  · obtain rfl : j = k := Option.some.inj hact
    rcases List.getElem?_modify_eq_some.mp hd with ⟨hne, -⟩ | ⟨-, c, hc, rfl⟩
    · exact absurd rfl hne
    · exact hup c hc hrun

end ChatView.Tracked

/-- A goroutine that is about to process `Done` works on a generation that is over. -/
theorem LlmCall.Sound.ended {c : LlmCall} (hc : c.Sound) (hd : c.forwarder = .handle .done) :
    LlmStream.Ended c.stream := by
  have hmem : ChatEvent.done ∈ c.stream.delivered :=
    List.mem_append_left _ (hc.inHand .done (by rw [hd]; rfl))
  rcases hc.relays.of_mem_delivered hmem with ⟨m, hm, hmap⟩ | ⟨code, message, he⟩
  · exact .inr ⟨m, hm, mapChatEvent_eq_done.mp hmap⟩
  · cases he

/-- A step that keeps track leaves the session tracked. -/
theorem tracked_step {w w' : World} {a : Action} (hl : w.chat.Linked)
    (hsound : ∀ (j : Nat) (c : LlmCall), w.llm[j]? = some c → c.Sound) (hv : w.chat.Tracked)
    (hp : KeepsTrack w a) (h : ChatStep w w' a) : w'.chat.Tracked := by
  cases h with
  | addTurn hr h =>
    rw [h]
    refine ⟨fun j c hc hrun ↦ ?_, fun j c hact hc hrun ↦ .inr ⟨?_, rfl⟩, by simp⟩
    · exact (hv.held_of_not_closing hc hrun (by simp [World.chat, hr])).imp_right .inl
    · exact congrArg (· + 1) (hv.turn_of_not_swap hact hc hrun (by simp [World.chat, hr]))
  | swap turn ha hr h =>
    have hturn : turn = w.currentTurn := hl.interrupting turn (by simp [World.chat, hr])
    rw [h]
    refine ⟨fun j c hc hrun ↦ ?_, by simp, ?_⟩
    · rcases hv.held_of_not_closing hc hrun (by simp [World.chat, hr]) with hact | hpub
      · exact .inr (.inr ⟨turn, w.activeTTSStream, by rw [show w.activeLLMStream = _ from hact]⟩)
      · exact .inr (.inl hpub)
    · rintro n j tts c hcl hc hrun
      simp only [ReadPc.closeLLM.injEq] at hcl
      obtain ⟨rfl, hact, -⟩ := hcl
      have hct := hv.active j c hact hc hrun
      simp only [World.chat] at hct
      omega
  | close turn j tts hr h =>
    rw [h]
    have back (k : Nat) (d : LlmCall) (hd : (w.llm.modify j (LlmCall.close turn))[k]? = some d)
        (hrun : d.Running) : k ≠ j ∧ w.llm[k]? = some d := by
      rcases List.getElem?_modify_eq_some.mp hd with h | ⟨rfl, c, hc, rfl⟩
      · exact h
      · exact absurd hrun.1 (by simp [LlmCall.close])
    refine ⟨fun k d hd hrun ↦ ?_, fun k d hact hd hrun ↦ ?_, by simp⟩
    · obtain ⟨hne, hd⟩ := back k d hd hrun
      refine (hv.held_of_not_closing hd hrun fun n tts hcl ↦ ?_).imp_right .inl
      simp only [World.chat, hr, ReadPc.closeLLM.injEq, Option.some.injEq] at hcl
      exact hne hcl.2.1.symm
    · obtain ⟨-, hd⟩ := back k d hd hrun
      exact .inl (hv.turn_of_not_swap hact hd hrun (by simp [World.chat, hr]))
  | opened turn hr h =>
    rw [h]
    have hv' : ({ w.chat with forwarders := w.forwarders ++ [.unstarted] } : ChatView).Tracked := by
      refine ⟨fun j c hc hrun ↦ ?_, hv.active, hv.closing⟩
      refine (hv.held j c hc hrun).imp_right (Or.imp_left ?_)
      rintro ⟨i, t, hf⟩
      exact ⟨i, t, List.getElem?_concat_eq_some.mpr (.inl hf)⟩
    exact hv'.setReader (by simp [World.chat, hr]) (.inr rfl)
  | stored i hr h =>
    rw [h]
    have hi : w.forwarders[i]? = some .unstarted := hl.storing i hr
    exact (hv.setForwarder _ hi rfl).setReader (by simp [World.chat, hr]) (.inr rfl)
  | read pc hr h =>
    rw [h]
    exact hv.setReader hr.left hr.entered
  | startChat i turn prompt history hf h =>
    rw [h]
    exact hv.startChat hl hf
  | publish i turn j ha hf h =>
    rw [h]
    obtain ⟨hup, hspare⟩ := hp.1 (turn, j) ha
    obtain ⟨b, hb, hbt⟩ := hl.publishing i turn j hf
    refine hv.publish hf (fun c hc hrun ↦ ?_) fun k c hact hk hc ↦ hspare k hact hk c hc
    obtain rfl : b = c := Option.some.inj (hb.symm.trans hc)
    rw [hbt]
    exact hup b hb hrun
  | transcripts i pc pc' hf hpc hpc' ht _ h =>
    rw [h]
    exact hv.setForwarder _ hf hpc.1
  | complete j c ha hc hd h =>
    rw [h]
    have hv' : ({ w.chat with llm := w.llm.modify j LlmCall.settle } : ChatView).Tracked :=
      hv.modifyCall fun c _ hrun ↦ ⟨hrun, rfl⟩
    refine ⟨fun k d hd hrun ↦ ?_, by simp, hv'.closing⟩
    rcases hv'.held k d hd hrun with hact | hrest
    · exfalso
      rcases List.getElem?_modify_eq_some.mp hd with ⟨hne, hd⟩ | ⟨rfl, c', hc', rfl⟩
      · exact hp.2 j ha k hact hne d hd hrun
      · obtain rfl : c = c' := Option.some.inj (hc.symm.trans hc')
        exact hrun.2 ((hsound k c hc).ended ‹_›)
    · exact .inr hrest
  | llmEvents j c g hc hg h =>
    rw [h]
    refine hv.modifyCall fun d hd hrun ↦ ?_
    obtain rfl : c = d := Option.some.inj (hc.symm.trans hd)
    refine ⟨?_, hg.turn.symm⟩
    rcases hg.stream with ⟨hs, -⟩ | ⟨e, hs, -⟩
    · rwa [LlmCall.Running, hs] at hrun
    · rwa [LlmCall.Running, (Stream.next?_eq_some hs).2] at hrun
  | pump j c s b hc hs h =>
    rw [h]
    refine hv.modifyCall fun d hd hrun ↦ ?_
    obtain rfl : c = d := Option.some.inj (hc.symm.trans hd)
    refine ⟨⟨?_, fun he ↦ hrun.2 (he.recvPump hs)⟩, rfl⟩
    rw [← (Stream.recvPump_frame hs).1]
    exact hrun.1
  | rest h => rwa [h]

/-- As long as every step keeps track, no superseded generation is left running. -/
theorem noneLeftRunning_of_keepsTrack (w : World) (hr : system.ReachableWith KeepsTrack w) :
    NoneLeftRunning w := by
  refine noneLeftRunning_of_tracked (linked_of_reachable hr.reachable) ?_
  refine hr.invariant (I := fun w ↦ w.chat.Tracked) ?_ fun w a w' hr hv hp h ↦ ?_
  · constructor <;> simp [system, World.new, World.chat]
  · exact tracked_step (linked_of_reachable hr.reachable) (sound_of_reachable hr.reachable) hv hp
      (step_chatStep h)

/-- A barge-in on a published chat: the interrupt finds the stream and closes it. -/
theorem noneLeftRunning_of_keepsTrack_run : ∃ (w : World) (c : LlmCall), NoneLeftRunning w ∧
    w.InterruptReturned 2 ∧ w.ChatsReturned 2 ∧ w.llm[0]? = some c ∧ c.turn = 1 ∧
      c.stream.closed = true := by
  have hw : ∃ w : World, system.runGuarded KeepsTrack system.init (startActions ++
      finalActions 0 "hi" ++ [Action.forwardTranscripts 0 .next] ++ bargeInActions .put) = some w ∧
      w.InterruptReturned 2 ∧ w.ChatsReturned 2 ∧
        ∃ c, w.llm[0]? = some c ∧ c.turn = 1 ∧ c.stream.closed = true :=
    ⟨_, rfl, by decide, by decide, _, rfl, rfl, rfl⟩
  obtain ⟨w, hrun, hi, hchats, c, hc, ht, hcl⟩ := hw
  exact ⟨w, c, noneLeftRunning_of_keepsTrack w (.runGuarded .init hrun), hi, hchats, hc, ht, hcl⟩

/-- A barge-in between `StartChat` and the publication: the interrupt finds nothing, and the
stream published afterwards for the old turn runs on. -/
theorem not_noneLeftRunning : ∃ w c, system.run (startActions ++ finalActions 0 "hi" ++
      startActions ++ [.forwardTranscripts 0 .next]) = some w ∧
    w.InterruptReturned 2 ∧ w.ChatsReturned 2 ∧ w.llm[0]? = some c ∧ c.turn = 1 ∧
      c.Running ∧ ¬ NoneLeftRunning w := by
  refine ⟨_, _, rfl, by decide, by decide, rfl, rfl, by decide, fun h ↦ ?_⟩
  exact absurd (h 2 (by decide) (by decide) 0 _ rfl (by decide)) (by decide)

end BibiCore.Session
