import BibiCore.Session.Chat

/-!
# The speech side of a session

`SpeechStep` says once what a step of the session can do to `activeTTSStream`, to `ttsWorker` and
to the streams of its jobs; `DueStep` says what a step of `ttsWorker` can put on `s.send`, against
what it may still put before it looks at the turn again.
-/

namespace BibiCore.Session

open BibiCore.Gateway World

/-- The part of a session that decides which tts stream is published. -/
structure SpeechView where
  active : Option Nat
  worker : TtsPc
  tts : List TtsCall

/-- The speech side of a session state. -/
def World.speech (w : World) : SpeechView := ⟨w.activeTTSStream, w.ttsWorker, w.tts⟩

/-- The stream `synthesizeAndSend` has opened and neither published nor closed yet. -/
@[simp] def TtsPc.settling : TtsPc → Option Nat
  | .job k .publish | .job k .store | .job k .closeStale => some k
  | _ => none

/-- A call before and after a step that decides nothing about its publication. -/
structure TtsCall.Keeps (c d : TtsCall) : Prop where
  job : d.job = c.job
  checked : d.checked = c.checked
  published : d.published = c.published
  abandoned : d.abandoned = c.abandoned
  closed : c.stream.closed = true → d.stream.closed = true

/-- A call keeps itself. -/
theorem TtsCall.Keeps.refl (c : TtsCall) : c.Keeps c := ⟨rfl, rfl, rfl, rfl, id⟩

/-- What a step can do to the speech side. -/
inductive SpeechStep (w w' : World) (a : Action) : Prop
  | swap (ha : w.swapping a) (hl : w.locked = false)
      (h : w'.speech = { w.speech with active := none })
  | touch (k : Nat) (g : TtsCall → TtsCall)
      (hg : ∀ c, w.tts[k]? = some c → c.Keeps (g c))
      (h : w'.speech = { w.speech with tts := w.tts.modify k g })
  | opened (job : TtsJob) (voice : String) (hp : w.ttsWorker.settling = none)
      (h : w'.speech = { w.speech with
        tts := w.tts ++ [TtsCall.opened job voice], worker := .job w.tts.length .publish })
  | pass (k : Nat) (c : TtsCall) (hp : w.ttsWorker = .job k .publish) (hc : w.tts[k]? = some c)
      (ht : w.currentTurn = c.job.turn)
      (h : w'.speech = { w.speech with
        tts := w.tts.modify k fun c ↦ { c with checked := some w.currentTurn }
        worker := .job k .store })
  | refuse (k : Nat) (hp : w.ttsWorker = .job k .publish)
      (h : w'.speech = { w.speech with worker := .job k .closeStale })
  | abandon (k : Nat) (hp : w.ttsWorker = .job k .closeStale)
      (h : w'.speech = { w.speech with
        tts := w.tts.modify k TtsCall.closeStale, worker := .idle })
  | store (k : Nat) (hp : w.ttsWorker = .job k .store)
      (h : w'.speech = ⟨some k, .job k (.ranging false),
        w.tts.modify k fun c ↦ { c with published := true }⟩)
  | work (active : Option Nat) (pc : TtsPc) (k : Nat) (g : TtsCall → TtsCall)
      (hp : w.ttsWorker.settling = none) (hp' : pc.settling = none)
      (ha : active = w.activeTTSStream ∨ active = none)
      (hg : ∀ c, w.tts[k]? = some c → c.Keeps (g c))
      (h : w'.speech = ⟨active, pc, w.tts.modify k g⟩)
  | rest (h : w'.speech = w.speech)

/-! ### Every step is a `SpeechStep` -/

/-- `readPump` clears the pointer in `interruptCurrentTurn`'s lock section and nowhere else. -/
theorem readPump_activeTTS {w w' : World} {a : ReadAction} (h : w.readPump a = some w') :
    w'.activeTTSStream = w.activeTTSStream ∨
      w.swapping (.readPump a) ∧ w.locked = false ∧ w'.activeTTSStream = none := by
  cases readStep_of_readPump h with
  | swap turn hr hl => exact .inr ⟨⟨rfl, turn, hr⟩, hl, rfl⟩
  | report _ _ _ _ _ hv | notify _ _ _ _ hv | openFailed _ _ _ hv =>
    obtain ⟨send, dropped, rfl, -⟩ := sendJSON_eq_some hv
    exact .inl rfl
  | _ => exact .inl rfl

private theorem speech_of_eq {w w' : World} (ha : w'.activeTTSStream = w.activeTTSStream)
    (hp : w'.ttsWorker = w.ttsWorker) (ht : w'.tts = w.tts) : w'.speech = w.speech := by
  rw [World.speech, World.speech, ha, hp, ht]

private theorem readPump_speechStep {w w' : World} {a : ReadAction} (h : w.readPump a = some w') :
    SpeechStep w w' (.readPump a) := by
  -- but for the pointer, a step of `readPump` touches nothing here unless it closes a stream
  have key (hp : w'.ttsWorker = w.ttsWorker) (ht : w'.tts = w.tts) :
      SpeechStep w w' (.readPump a) := by
    rcases readPump_activeTTS h with ha | ⟨hs, hl, ha⟩
    · exact .rest (speech_of_eq ha hp ht)
    · exact .swap hs hl (by rw [World.speech, World.speech, ha, hp, ht])
  cases readPump_effect h with
  | own _ _ _ _ _ _ _ _ _ _ hw =>
    subst hw
    exact key rfl rfl
  | report code message b v reader hs hw =>
    obtain ⟨send, dropped, rfl, -⟩ := sendJSON_eq_some hs
    subst hw
    exact key rfl rfl
  | cutLLM turn j tts hr hw =>
    subst hw
    exact key rfl rfl
  | cutTTS turn k b hr hw =>
    subst hw
    exact .touch k (TtsCall.close turn) (fun c _ ↦ ⟨rfl, rfl, rfl, rfl, fun _ ↦ rfl⟩) rfl
  | cutJob turn b job q hr hq hw =>
    subst hw
    exact key rfl rfl
  | notify turn b v hr hs hw =>
    obtain ⟨send, dropped, rfl, -⟩ := sendJSON_eq_some hs
    subst hw
    exact key rfl rfl

private theorem speechStep_move {w w' : World} {a : Action} {pc : TtsPc}
    (hp : w.ttsWorker.settling = none) (hp' : pc.settling = none)
    (h : w'.speech = { w.speech with worker := pc }) : SpeechStep w w' a := by
  refine .work w.activeTTSStream pc 0 id hp hp' (.inl rfl) (fun c _ ↦ .refl c) ?_
  rw [h, List.modify_id]
  rfl

private theorem ttsWorkerStep_speechStep {w w' : World} {a : TtsAction}
    (h : w.ttsWorkerStep a = some w') : SpeechStep w w' (.ttsWorker a) := by
  cases ttsStep_of_ttsWorkerStep h with
  | opened job voice hp => exact .opened job voice (by simp [hp]) rfl
  | recheckFailed k c hp => exact .refuse k hp rfl
  | recheckPassed k c hp hc ht => exact .pass k c hp hc ht rfl
  | store k c hp => exact .store k hp rfl
  | closeStale k c hp => exact .abandon k hp rfl
  | take k c sent chunk s hp hc hs =>
    refine .work _ _ k _ (by simp [hp]) rfl (.inl rfl) (fun d hd ↦ ?_) rfl
    obtain rfl : c = d := Option.some.inj (hc.symm.trans hd)
    exact ⟨rfl, rfl, rfl, rfl, fun hcl ↦ by rw [(Stream.next?_eq_some hs).2]; exact hcl⟩
  | clear k c hp =>
    refine .work (if w.activeTTSStream = some k then none else w.activeTTSStream) .idle 0 id
      (by simp [hp]) rfl (by split <;> simp) (fun c _ ↦ .refl c) ?_
    rw [List.modify_id]
    rfl
  | gotAudio k c sent data format hp =>
    exact speechStep_move (by simp [hp]) (by cases sent <;> rfl) rfl
  | openFailed _ _ _ hp hv | report _ _ _ _ _ _ hp _ hv | sendText _ _ _ _ _ _ hp _ hv
  | sendFormat _ _ _ _ _ _ hp _ hv =>
    obtain ⟨send, dropped, rfl, -⟩ := sendJSON_eq_some hv
    exact speechStep_move (by simp [hp]) rfl rfl
  | quit hp | dequeue _ _ hp | skipJob _ hp | startJob _ hp | loadVoice _ hp | openError _ _ hp
  | rangeOver _ _ _ hp | stopStale _ _ _ _ hp | gotError _ _ _ _ _ hp | sendAudio _ _ _ _ hp
  | sendDone _ _ _ hp => exact speechStep_move (by simp [hp]) rfl rfl

/-- Whatever the session does, its speech side makes a `SpeechStep`. -/
theorem step_speechStep {w w' : World} {a : Action} (h : system.step w a = some w') :
    SpeechStep w w' a := by
  cases a with
  | readPump b => exact readPump_speechStep h
  | ttsWorker b => exact ttsWorkerStep_speechStep h
  | audioSendWorker b =>
    obtain ⟨send, dropped, queue, pc, i, g, rfl, -⟩ := audioSendWorker_footprint h
    exact .rest rfl
  | forwardTranscripts i b =>
    obtain ⟨c, send, dropped, active, llm, g, -, rfl, -⟩ := forwardTranscripts_footprint h
    exact .rest rfl
  | forwardLLMEvents j b =>
    obtain ⟨send, dropped, active, queue, history, answered, g, rfl, -⟩ :=
      forwardLLMEvents_footprint h
    exact .rest rfl
  | sttRecvPump i b =>
    obtain ⟨c, s, -, -, rfl⟩ := sttRecvPump_eq_some h
    exact .rest rfl
  | llmRecvPump j b =>
    obtain ⟨c, s, -, -, rfl⟩ := llmRecvPump_eq_some h
    exact .rest rfl
  | ttsRecvPump k b =>
    obtain ⟨c, s, hc, hs, rfl⟩ := ttsRecvPump_eq_some h
    refine .touch k (fun c ↦ { c with stream := s }) (fun d hd ↦ ?_) rfl
    obtain rfl : c = d := Option.some.inj (hc.symm.trans hd)
    exact ⟨rfl, rfl, rfl, rfl, fun hcl ↦ (Stream.recvPump_frame hs).1.trans hcl⟩
  | write =>
    obtain ⟨send, written, rfl, -⟩ := write_eq_some h
    exact .rest rfl
  | stopWriting =>
    obtain rfl := stopWriting_eq_some h
    exact .rest rfl

/-- A call keeps its job and its place in the list. -/
theorem SpeechStep.job {w w' : World} {a : Action} (h : SpeechStep w w' a) {k : Nat} {c : TtsCall}
    (hc : w.tts[k]? = some c) : ∃ d, w'.tts[k]? = some d ∧ d.job = c.job := by
  have modify {l : Nat} {g : TtsCall → TtsCall} (hw : w'.tts = w.tts.modify l g)
      (hg : ∀ c, w.tts[l]? = some c → (g c).job = c.job) :
      ∃ d, w'.tts[k]? = some d ∧ d.job = c.job := by
    rw [hw]
    by_cases hk : k = l
    · subst hk
      exact ⟨g c, List.getElem?_modify_eq_some.mpr (.inr ⟨rfl, c, hc, rfl⟩), hg c hc⟩
    · exact ⟨c, List.getElem?_modify_eq_some.mpr (.inl ⟨hk, hc⟩), rfl⟩
  have same (hw : w'.tts = w.tts) : ∃ d, w'.tts[k]? = some d ∧ d.job = c.job :=
    ⟨c, hw ▸ hc, rfl⟩
  cases h with
  | swap _ _ h | refuse _ _ h | rest h => exact same (congrArg SpeechView.tts h)
  | touch l g hg h => exact modify (congrArg SpeechView.tts h) fun c hc ↦ (hg c hc).job
  | opened job voice hp h =>
    have ht : w'.tts = w.tts ++ [TtsCall.opened job voice] := congrArg SpeechView.tts h
    exact ⟨c, ht ▸ List.getElem?_concat_eq_some.mpr (.inl hc), rfl⟩
  | pass l d hp hd ht h => exact modify (congrArg SpeechView.tts h) fun _ _ ↦ rfl
  | abandon l hp h => exact modify (congrArg SpeechView.tts h) fun _ _ ↦ rfl
  | store l hp h => exact modify (congrArg SpeechView.tts h) fun _ _ ↦ rfl
  | work active pc l g hp hp' ha hg h =>
    exact modify (congrArg SpeechView.tts h) fun c hc ↦ (hg c hc).job

/-- The stream of the job in hand is the newest. -/
theorem newest_of_job {w : World} (hr : system.Reachable w) {k : Nat} {pc : JobPc}
    (hp : w.ttsWorker = .job k pc) : k + 1 = w.tts.length := by
  refine hr.invariant (I := fun w ↦ ∀ k pc, w.ttsWorker = .job k pc → k + 1 = w.tts.length)
    (fun _ _ hp ↦ by cases hp) (fun w a w' _ hw h k pc hp ↦ ?_) k pc hp
  have same (ht : w'.ttsWorker = w.ttsWorker) (hl : w'.tts.length = w.tts.length) :
      k + 1 = w'.tts.length := (hw k pc (ht ▸ hp)).trans hl.symm
  cases a with
  | ttsWorker b =>
    have own {l : Nat} {pc₀ pc' : JobPc} (hl : w.ttsWorker = .job l pc₀)
        (ht : w'.ttsWorker = .job l pc') (hlen : w'.tts.length = w.tts.length) :
        k + 1 = w'.tts.length := by
      obtain ⟨rfl, -⟩ := TtsPc.job.inj (ht.symm.trans hp)
      exact (hw l pc₀ hl).trans hlen.symm
    cases ttsStep_of_ttsWorkerStep h with
    | opened job voice hq =>
      obtain ⟨rfl, -⟩ := TtsPc.job.inj hp
      simp
    | sendText l c _ _ b v hl _ hv | sendFormat l c _ _ b v hl _ hv =>
      obtain ⟨send, dropped, rfl, -⟩ := sendJSON_eq_some hv
      exact own hl rfl rfl
    | openFailed _ _ v _ hv | report _ _ _ _ _ v _ _ hv => cases hp
    | recheckFailed l _ hl | rangeOver l _ _ hl | gotError l _ _ _ _ hl | gotAudio l _ _ _ _ hl
    | sendAudio l _ _ _ hl => exact own hl rfl rfl
    | recheckPassed l _ hl | store l _ hl | take l _ _ _ _ hl =>
      exact own hl rfl (List.length_modify ..)
    | quit | dequeue | skipJob | startJob | loadVoice | openError | closeStale | stopStale
    | sendDone | clear => cases hp
  | readPump b =>
    cases readPump_effect h with
    | own _ _ _ _ _ _ _ _ _ _ hw | cutLLM _ _ _ _ hw | cutJob _ _ _ _ _ _ hw =>
      subst hw
      exact same rfl rfl
    | cutTTS _ _ _ _ hw =>
      subst hw
      exact same rfl (List.length_modify ..)
    | report _ _ _ v _ hs hw | notify _ _ v _ hs hw =>
      obtain ⟨send, dropped, rfl, -⟩ := sendJSON_eq_some hs
      subst hw
      exact same rfl rfl
  | forwardTranscripts i b =>
    obtain ⟨c, send, dropped, active, llm, g, -, rfl, -⟩ := forwardTranscripts_footprint h
    exact same rfl rfl
  | forwardLLMEvents j b =>
    obtain ⟨send, dropped, active, queue, history, answered, g, rfl, -⟩ :=
      forwardLLMEvents_footprint h
    exact same rfl rfl
  | audioSendWorker b =>
    obtain ⟨send, dropped, queue, pc, i, g, rfl, -⟩ := audioSendWorker_footprint h
    exact same rfl rfl
  | sttRecvPump i b =>
    obtain ⟨c, s, -, -, rfl⟩ := sttRecvPump_eq_some h
    exact same rfl rfl
  | llmRecvPump j b =>
    obtain ⟨c, s, -, -, rfl⟩ := llmRecvPump_eq_some h
    exact same rfl rfl
  | ttsRecvPump l b =>
    obtain ⟨c, s, -, -, rfl⟩ := ttsRecvPump_eq_some h
    exact same rfl (List.length_modify ..)
  | write =>
    obtain ⟨send, written, rfl, -⟩ := write_eq_some h
    exact same rfl rfl
  | stopWriting =>
    obtain rfl := stopWriting_eq_some h
    exact same rfl rfl

/-! ### What `ttsWorker` may still put -/

/-- The kinds of messages `ttsWorker` puts. -/
inductive SpeechKind where
  | text
  | format
  | audio
  | error
  deriving DecidableEq

/-- The kind of a message, when it is one of these. -/
def Put.kind? (p : Put) : Option SpeechKind :=
  match p.message with
  | .text (.llmChunk _ _) => some .text
  | .text (.audioFormat _ _) => some .format
  | .text (.error _ _) => some .error
  | .binary _ => some .audio
  | .text _ => none

/-- What `ttsWorker` may still put before it next looks at the turn, in order. -/
@[simp] def TtsPc.due : TtsPc → List SpeechKind
  | .synthesize _ | .opening _ _ | .openFailed _ | .job _ (.report _ _) => [.error]
  | .job _ (.sendText _ _) => [.text, .format, .audio]
  | .job _ (.sendFormat _ _) => [.format, .audio]
  | .job _ (.sendAudio _) => [.audio]
  | _ => []

namespace World

/-- The turn of the job `ttsWorker` has in hand. -/
def jobTurn (w : World) : Option Nat :=
  match w.ttsWorker with
  | .got job | .synthesize job | .opening job _ | .openFailed job => some job.turn
  | .job k _ => (w.tts[k]?).map (·.job.turn)
  | .idle | .done => none

/-- The turn of the job a message was put for. -/
def putTurn (w : World) (p : Put) : Option Nat :=
  match p.origin with
  | .ttsWorker turn => some turn
  | .synthesizeAndSend k => (w.tts[k]?).map (·.job.turn)
  | _ => none

end World

/-- What a step of `ttsWorker` does to what is due and to `s.send`. -/
inductive DueStep (w w' : World) : Prop
  /-- the step puts the next due message, drops it or gives it up -/
  | spend (kind : SpeechKind) (rest : List SpeechKind) (hd : w.ttsWorker.due = kind :: rest)
      (hd' : w'.ttsWorker.due = rest) (hj : rest ≠ [] → w'.jobTurn = w.jobTurn)
      (hp : w'.puts = w.puts ∨ ∃ p t, w'.puts = w.puts ++ [p] ∧ p.kind? = some kind ∧
        w.putTurn p = some t ∧ w.jobTurn = some t)
  /-- the step puts nothing and does not look at the turn -/
  | wait (hd : w'.ttsWorker.due = w.ttsWorker.due)
      (hj : w.ttsWorker.due ≠ [] → w'.jobTurn = w.jobTurn) (hp : w'.puts = w.puts)
  /-- the step finds the job's turn current -/
  | check (hd : w.ttsWorker.due = []) (hj : w'.jobTurn = some w.currentTurn)
      (hp : w'.puts = w.puts)

private theorem sendJSON_due {w v : World} {o : Origin} {m : ControlMessage} {b : Branch}
    (h : w.sendJSON o m b = some v) :
    v.tts = w.tts ∧ (v.puts = w.puts ∨ v.puts = w.puts ++ [⟨.text m, o⟩]) := by
  obtain ⟨send, dropped, rfl, hs⟩ := sendJSON_eq_some h
  refine ⟨rfl, ?_⟩
  rcases hs with ⟨hs, -⟩ | ⟨rfl, -⟩ | ⟨rfl, -⟩
  · exact .inr (by simp [puts, hs])
  · exact .inl rfl
  · exact .inl rfl

private theorem dueStep_sendJSON {w v : World} {o : Origin} {m : ControlMessage} {b : Branch}
    {kind : SpeechKind} {pc : TtsPc} {t : Nat} (h : w.sendJSON o m b = some v)
    (hm : Put.kind? ⟨.text m, o⟩ = some kind)
    (ho : w.putTurn ⟨.text m, o⟩ = some t) (ht : w.jobTurn = some t)
    (hd : w.ttsWorker.due = kind :: pc.due)
    (hj : pc.due ≠ [] → World.jobTurn { w with ttsWorker := pc } = w.jobTurn) :
    DueStep w { v with ttsWorker := pc } := by
  obtain ⟨htts, hp⟩ := sendJSON_due h
  refine .spend kind pc.due hd rfl (fun hne ↦ ?_) (hp.imp id fun hp ↦ ⟨_, t, hp, hm, ho, ht⟩)
  rw [← hj hne]
  unfold World.jobTurn
  simp only [htts]

/-- Every step of `ttsWorker` is one of these. -/
theorem ttsWorkerStep_due {w w' : World} {a : TtsAction} (h : w.ttsWorkerStep a = some w') :
    DueStep w w' := by
  have hj {k : Nat} {c : TtsCall} {pc : JobPc} (hp : w.ttsWorker = .job k pc)
      (hc : w.tts[k]? = some c) : w.jobTurn = some c.job.turn := by simp [World.jobTurn, hp, hc]
  have ho {k : Nat} {c : TtsCall} (hc : w.tts[k]? = some c) (m : OutboundMessage) :
      w.putTurn ⟨m, .synthesizeAndSend k⟩ = some c.job.turn := by simp [World.putTurn, hc]
  cases ttsStep_of_ttsWorkerStep h with
  | startJob job hp ht => exact .check (by simp [hp]) (by simp [World.jobTurn, ht]) rfl
  | loadVoice job hp | openError job voice hp =>
    exact .wait (by simp [hp]) (fun _ ↦ by simp [World.jobTurn, hp]) rfl
  | opened job voice hp => exact .spend .error [] (by simp [hp]) rfl (by simp) (.inl rfl)
  | openFailed job b v hp hv =>
    exact dueStep_sendJSON (t := job.turn) hv rfl rfl (by simp [World.jobTurn, hp])
      (by simp [hp]) (by simp)
  | gotError k c sent code message hp hc ht =>
    exact .check (by simp [hp]) (by simp [World.jobTurn, hc, ht]) rfl
  | gotAudio k c sent data format hp hc ht =>
    exact .check (by simp [hp]) (by simp [World.jobTurn, hc, ht]) rfl
  | report k c code message b v hp hc hv =>
    exact dueStep_sendJSON hv rfl (ho hc _) (hj hp hc) (by simp [hp]) (by simp)
  | sendText k c data format b v hp hc hv =>
    exact dueStep_sendJSON hv rfl (ho hc _) (hj hp hc) (by simp [hp]) fun _ ↦ by
      simp [World.jobTurn, hp]
  | sendFormat k c data format b v hp hc hv =>
    exact dueStep_sendJSON hv rfl (ho hc _) (hj hp hc) (by simp [hp]) fun _ ↦ by
      simp [World.jobTurn, hp]
  | sendAudio k c data q hp hc hq =>
    refine .spend .audio [] (by simp [hp]) rfl (by simp)
      (.inr ⟨_, _, ?_, rfl, ho hc (.binary data), hj hp hc⟩)
    simp [puts, (Chan.send?_eq_some.mp hq).2]
  | sendDone k c data hp => exact .spend .audio [] (by simp [hp]) rfl (by simp) (.inl rfl)
  | quit hp | dequeue _ _ hp | skipJob _ hp | recheckFailed _ _ hp | recheckPassed _ _ hp
  | store _ _ hp | closeStale _ _ hp | take _ _ _ _ _ hp | rangeOver _ _ _ hp
  | stopStale _ _ _ _ hp | clear _ _ hp => exact .wait (by simp [hp]) (by simp [hp]) rfl

/-! ### What the others put -/

/-- A message that is not `ttsWorker`'s. -/
def Origin.Elsewhere : Origin → Prop
  | .ttsWorker _ | .synthesizeAndSend _ => False
  | _ => True

/-- The turn whose `interrupted` message the action puts on `s.send`. -/
def World.notifying (w : World) : Action → Option Nat
  | .readPump (.select .put) =>
    match w.reader with
    | .notify turn => some turn
    | _ => none
  | _ => none

/-- What a step that is not `ttsWorker`'s puts on `s.send`. -/
structure PutElsewhere (w : World) (a : Action) (p : Put) : Prop where
  origin : p.origin.Elsewhere
  text : ∀ data, p.message ≠ .binary data
  interrupted : ∀ n, p.message = .text (.interrupted n) → w.notifying a = some n

private theorem Sends.elsewhere {w w' : World} {a : Action}
    {dropped : List (ControlMessage × Nat)} {o : Origin}
    (h : Sends w w'.send dropped o ControlMessage.Plain) (ho : o.Elsewhere)
    (hw : w'.written = w.written) :
    ∃ new, w'.puts = w.puts ++ new ∧ ∀ p ∈ new, PutElsewhere w a p := by
  obtain ⟨new, hn, hp⟩ := h.puts
  refine ⟨new, by rw [World.puts, World.puts, hn, hw, List.append_assoc], fun p hm ↦ ?_⟩
  obtain ⟨hpo, m, hpm, hplain⟩ := hp p hm
  refine ⟨hpo ▸ ho, by simp [hpm], fun n hn ↦ ?_⟩
  rw [hpm] at hn
  cases hn
  cases hplain

private theorem sendJSON_elsewhere {w v : World} {a : Action} {m : ControlMessage}
    {b : World.Branch} (h : w.sendJSON .readPump m b = some v)
    (hm : b = .put → ∀ n, m = .interrupted n → w.notifying a = some n) :
    v.ttsWorker = w.ttsWorker ∧
      ∃ new, v.puts = w.puts ++ new ∧ ∀ p ∈ new, PutElsewhere w a p := by
  have none_put (hp : v.puts = w.puts) :
      ∃ new, v.puts = w.puts ++ new ∧ ∀ p ∈ new, PutElsewhere w a p := ⟨[], by simp [hp], by simp⟩
  cases b with
  | put =>
    obtain ⟨send, rfl, hs⟩ := sendJSON_put_eq_some h
    refine ⟨rfl, [⟨.text m, .readPump⟩], by simp [puts, hs], fun p hp ↦ ?_⟩
    obtain rfl := List.mem_singleton.mp hp
    exact ⟨trivial, by simp, fun n hn ↦ hm rfl n (OutboundMessage.text.inj hn)⟩
  | done =>
    simp only [World.sendJSON] at h
    split at h <;> cases h
    exact ⟨rfl, none_put rfl⟩
  | dropped =>
    simp only [World.sendJSON] at h
    split at h <;> cases h
    exact ⟨rfl, none_put rfl⟩

private theorem readPump_elsewhere {w w' : World} {a : ReadAction}
    (h : w.readPump a = some w') :
    w'.ttsWorker = w.ttsWorker ∧
      ∃ new, w'.puts = w.puts ++ new ∧ ∀ p ∈ new, PutElsewhere w (.readPump a) p := by
  cases readStep_of_readPump h with
  | report code message b v hr hv =>
    exact sendJSON_elsewhere (v := v) hv fun _ _ hm ↦ nomatch hm
  | openFailed b v hr hv => exact sendJSON_elsewhere (v := v) hv fun _ _ hm ↦ nomatch hm
  | notify turn b v hr hv =>
    refine sendJSON_elsewhere (v := v) hv ?_
    rintro rfl n hn
    cases hn
    simp [World.notifying, hr]
  | _ => exact ⟨rfl, [], by simp [puts], by simp⟩

/-- The other goroutines put messages of their own and leave `ttsWorker` where it is. -/
theorem step_elsewhere {w w' : World} {a : Action} (h : system.step w a = some w')
    (ha : ∀ b, a ≠ .ttsWorker b) :
    w'.ttsWorker = w.ttsWorker ∧
      ∃ new, w'.puts = w.puts ++ new ∧ ∀ p ∈ new, PutElsewhere w a p := by
  have same {w' : World} (hp : w'.puts = w.puts) :
      ∃ new, w'.puts = w.puts ++ new ∧ ∀ p ∈ new, PutElsewhere w a p :=
    ⟨[], by simp [hp], by simp⟩
  cases a with
  | readPump b => exact readPump_elsewhere h
  | audioSendWorker b =>
    obtain ⟨send, dropped, queue, pc, i, g, rfl, hs, -⟩ := audioSendWorker_footprint h
    exact ⟨rfl, Sends.elsewhere hs trivial rfl⟩
  | forwardTranscripts i b =>
    obtain ⟨c, send, dropped, active, llm, g, -, rfl, hs, -⟩ := forwardTranscripts_footprint h
    exact ⟨rfl, Sends.elsewhere hs trivial rfl⟩
  | forwardLLMEvents j b =>
    obtain ⟨send, dropped, active, queue, history, answered, g, rfl, hs, -⟩ :=
      forwardLLMEvents_footprint h
    exact ⟨rfl, Sends.elsewhere hs trivial rfl⟩
  | ttsWorker b => exact absurd rfl (ha b)
  | sttRecvPump i b =>
    obtain ⟨c, s, -, -, rfl⟩ := sttRecvPump_eq_some h
    exact ⟨rfl, same rfl⟩
  | llmRecvPump j b =>
    obtain ⟨c, s, -, -, rfl⟩ := llmRecvPump_eq_some h
    exact ⟨rfl, same rfl⟩
  | ttsRecvPump k b =>
    obtain ⟨c, s, -, -, rfl⟩ := ttsRecvPump_eq_some h
    exact ⟨rfl, same rfl⟩
  | write =>
    obtain ⟨send, written, rfl, hp⟩ := write_eq_some h
    exact ⟨rfl, same hp⟩
  | stopWriting =>
    obtain rfl := stopWriting_eq_some h
    exact ⟨rfl, same rfl⟩

/-! ### Turns of jobs and of messages -/

/-- A message put for a job stays that job's. -/
theorem SpeechStep.putTurn {w w' : World} {a : Action} (h : SpeechStep w w' a) {p : Put} {t : Nat}
    (hp : w.putTurn p = some t) : w'.putTurn p = some t := by
  unfold World.putTurn at *
  split at hp
  · exact hp
  · next k _ =>
    obtain ⟨c, hc, rfl⟩ := Option.map_eq_some_iff.mp hp
    obtain ⟨d, hd, hj⟩ := h.job hc
    simp [hd, hj]
  · cases hp

/-- A job in hand is the same job after a step that leaves `ttsWorker` where it is. -/
theorem SpeechStep.jobTurn {w w' : World} {a : Action} (h : SpeechStep w w' a) {t : Nat}
    (hp : w'.ttsWorker = w.ttsWorker) (ht : w.jobTurn = some t) : w'.jobTurn = some t := by
  unfold World.jobTurn at *
  rw [hp]
  cases hw : w.ttsWorker with
  | idle | done => simp [hw] at ht
  | got | synthesize | opening | openFailed => simpa [hw] using ht
  | job k pc =>
    simp only [hw] at ht
    obtain ⟨c, hc, rfl⟩ := Option.map_eq_some_iff.mp ht
    obtain ⟨d, hd, hj⟩ := h.job hc
    simp [hd, hj]

/-- A message of `ttsWorker` stays a message of no other goroutine. -/
theorem Origin.Elsewhere.putTurn {p : Put} (h : p.origin.Elsewhere) (w : World) :
    w.putTurn p = none := by
  unfold World.putTurn
  split
  · next ho => simp [ho, Origin.Elsewhere] at h
  · next ho => simp [ho, Origin.Elsewhere] at h
  · rfl

end BibiCore.Session
