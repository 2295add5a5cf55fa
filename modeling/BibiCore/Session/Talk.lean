import BibiCore.Session.Speech

/-!
# The transcript side of a session

`forwardTranscripts` and `startLLMChat`, `session.go:358`–`402`. `Moves` is one such goroutine as
an automaton; `TalkStep` says once what a step of the session can do to these goroutines, to the
llm streams they open and to the transcripts they put on `s.send`.
-/

namespace BibiCore.Gateway

/-- The text of a final transcript. -/
def TranscriptEvent.final? : TranscriptEvent → Option String
  | .finalEvent text => some text
  | _ => none

end BibiCore.Gateway

namespace BibiCore.Session

open BibiCore.Gateway World

/-! ### One goroutine -/

/-- The moves of a `forwardTranscripts` goroutine while `turn` is current. -/
inductive TranscriptsPc.Moves (turn : Nat) : TranscriptsPc → TranscriptsPc → Prop
  | load : Moves turn .starting (.ranging turn)
  | take (t : Nat) (e : TranscriptEvent) : Moves turn (.ranging t) (.check t e)
  | rangeOver (t : Nat) : Moves turn (.ranging t) .done
  | stale (t : Nat) (e : TranscriptEvent) (h : turn ≠ t) : Moves turn (.check t e) (.ranging t)
  | pass (t : Nat) (e : TranscriptEvent) (h : turn = t) : Moves turn (.check t e) (.forward t e)
  | sent (t : Nat) (e : TranscriptEvent) : Moves turn (.forward t e) (afterTranscript t e)
  | chatStale (t : Nat) (prompt : String) (h : turn ≠ t) :
      Moves turn (.chatCheck t prompt) (.ranging t)
  | chatPass (t : Nat) (prompt : String) (h : turn = t) :
      Moves turn (.chatCheck t prompt) (.chatSnapshot t prompt)
  | snapshot (t : Nat) (prompt : String) (history : List Proto.ChatMessage) :
      Moves turn (.chatSnapshot t prompt) (.chatOpening t prompt history)
  | chatOpened (t : Nat) (prompt : String) (history : List Proto.ChatMessage) (llm : Nat) :
      Moves turn (.chatOpening t prompt history) (.chatPublish t llm)
  | chatFailed (t : Nat) (prompt : String) (history : List Proto.ChatMessage) :
      Moves turn (.chatOpening t prompt history) (.chatFailed t)
  | reported (t : Nat) : Moves turn (.chatFailed t) (.ranging t)
  | publish (t llm : Nat) : Moves turn (.chatPublish t llm) (.ranging t)

namespace TranscriptsPc

/-- The event a goroutine that arrives at the statement has just taken. -/
@[simp] def taken : TranscriptsPc → List TranscriptEvent
  | .check _ event => [event]
  | _ => []

/-- The transcript goroutine `i` is about to put. -/
@[simp] def sends (i : Nat) : TranscriptsPc → List (Nat × ControlMessage)
  | .forward turn (.partialEvent text) => [(i, .partialTranscript text turn)]
  | .forward turn (.finalEvent text) => [(i, .finalTranscript text turn)]
  | _ => []

end TranscriptsPc

/-- A chat by its beginning: the stt call whose goroutine opened the llm stream, the turn it was
opened for, and the prompt. -/
structure Opening where
  opener : Nat
  turn : Nat
  prompt : String
  deriving DecidableEq

/-- The chat goroutine `i` opens when it goes from one statement to the other. -/
@[simp] def TranscriptsPc.opens (i : Nat) : TranscriptsPc → TranscriptsPc → List Opening
  | .chatOpening turn prompt _, .chatPublish _ _ => [⟨i, turn, prompt⟩]
  | _, _ => []

/-- `forwardTranscripts` sends for its own stream. -/
theorem TranscriptsPc.fst_of_mem_sends {i : Nat} {pc : TranscriptsPc} {p : Nat × ControlMessage}
    (h : p ∈ pc.sends i) : p.1 = i := by
  unfold sends at h
  split at h <;> simp_all

/-- `forwardTranscripts` opens calls for its own stream. -/
theorem TranscriptsPc.opener_of_mem_opens {i : Nat} {pc pc' : TranscriptsPc} {o : Opening}
    (h : o ∈ pc.opens i pc') : o.opener = i := by
  unfold opens at h
  split at h <;> simp_all

/-! ### All of them -/

/-- What matters of one stt call here: the turn that opened it, its goroutine, and the events the
goroutine has taken. -/
structure Talk where
  startTurn : Nat
  forwarder : TranscriptsPc
  events : List TranscriptEvent

def SttCall.talk (c : SttCall) : Talk := ⟨c.startTurn, c.forwarder, c.stream.consumed⟩

def LlmCall.opening (c : LlmCall) : Opening := ⟨c.opener, c.turn, c.prompt⟩

/-- The transcript a goroutine put, with the goroutine. -/
def Put.transcript? (p : Put) : Option (Nat × ControlMessage) :=
  match p.origin, p.message with
  | .forwardTranscripts i, .text (.partialTranscript text turn) =>
    some (i, .partialTranscript text turn)
  | .forwardTranscripts i, .text (.finalTranscript text turn) =>
    some (i, .finalTranscript text turn)
  | _, _ => none

/-- The part of a session that attributes transcripts and chats to turns. -/
structure TalkView where
  calls : List Talk
  openings : List Opening
  transcripts : List (Nat × ControlMessage)

/-- The transcript side of a session state. -/
def World.talk (w : World) : TalkView :=
  ⟨w.stt.map SttCall.talk, w.llm.map LlmCall.opening, w.puts.filterMap Put.transcript?⟩

/-- What a step can do to the transcript side. -/
inductive TalkStep (w w' : World) (a : Action) : Prop
  | opened (turn : Nat) (hr : w.reader = .opening turn) (hr' : w'.reader = .store w.stt.length)
      (h : w'.talk = { w.talk with calls := w.talk.calls ++ [⟨turn, .unstarted, []⟩] })
  | stored (i : Nat) (hr : w.reader = .store i)
      (h : w'.talk = { w.talk with
        calls := w.talk.calls.modify i fun c ↦ { c with forwarder := .starting } })
  | move (i : Nat) (c : Talk) (pc : TranscriptsPc) (sent : List (Nat × ControlMessage))
      (ha : ∃ b, a = .forwardTranscripts i b) (hc : w.talk.calls[i]? = some c)
      (hm : c.forwarder.Moves w.currentTurn pc) (hs : sent = [] ∨ sent = c.forwarder.sends i)
      (h : w'.talk = ⟨w.talk.calls.set i ⟨c.startTurn, pc, c.events ++ pc.taken⟩,
        w.talk.openings ++ c.forwarder.opens i pc, w.talk.transcripts ++ sent⟩)
  | rest (h : w'.talk = w.talk)

/-! ### Every step is a `TalkStep` -/

private theorem talk_of_eq {w w' : World} (hs : w'.stt.map SttCall.talk = w.stt.map SttCall.talk)
    (hl : w'.llm.map LlmCall.opening = w.llm.map LlmCall.opening)
    (hp : w'.puts.filterMap Put.transcript? = w.puts.filterMap Put.transcript?) :
    w'.talk = w.talk := by
  rw [World.talk, World.talk, hs, hl, hp]

private theorem transcripts_append {ps new : List Put} (h : ∀ p ∈ new, p.transcript? = none) :
    (ps ++ new).filterMap Put.transcript? = ps.filterMap Put.transcript? := by
  rw [List.filterMap_append, List.filterMap_eq_nil_iff.mpr h, List.append_nil]

private theorem transcript?_eq_none {p : Put} (h : ∀ i, p.origin ≠ .forwardTranscripts i) :
    p.transcript? = none := by
  unfold Put.transcript?
  split
  · next ho _ => exact absurd ho (h _)
  · next ho _ => exact absurd ho (h _)
  · rfl

private theorem sendJSON_talk {w v : World} {o : Origin} {m : ControlMessage} {b : Branch}
    (h : w.sendJSON o m b = some v) :
    v.stt = w.stt ∧ v.llm = w.llm ∧ v.currentTurn = w.currentTurn ∧ ∃ sent,
      (sent = [] ∨ sent = (Put.transcript? ⟨.text m, o⟩).toList) ∧
      v.puts.filterMap Put.transcript? = w.puts.filterMap Put.transcript? ++ sent := by
  obtain ⟨send, dropped, rfl, hs⟩ := sendJSON_eq_some h
  refine ⟨rfl, rfl, rfl, ?_⟩
  rcases hs with ⟨hs, -⟩ | ⟨rfl, -, -⟩ | ⟨rfl, -, -⟩
  · refine ⟨_, .inr rfl, ?_⟩
    simp [puts, hs, List.filterMap_cons]
    cases Put.transcript? ⟨.text m, o⟩ <;> rfl
  · exact ⟨[], .inl rfl, by simp [puts]⟩
  · exact ⟨[], .inl rfl, by simp [puts]⟩

private theorem sendJSON_rest {w v : World} {m : ControlMessage} {b : Branch} {pc : ReadPc}
    (h : w.sendJSON .readPump m b = some v) :
    TalkStep w { v with reader := pc } (.readPump (.select b)) := by
  obtain ⟨hs, hl, -, sent, hsent, hp⟩ := sendJSON_talk h
  have hnil : sent = [] := by
    rcases hsent with rfl | rfl
    · rfl
    · rw [transcript?_eq_none (by simp), Option.toList_none]
  refine .rest (talk_of_eq (congrArg _ hs) (congrArg _ hl) ?_)
  rw [hnil, List.append_nil] at hp
  exact hp

private theorem readPump_talkStep {w w' : World} {a : ReadAction} (h : w.readPump a = some w') :
    TalkStep w w' (.readPump a) := by
  cases readStep_of_readPump h with
  | report _ _ _ _ _ hv | notify _ _ _ _ hv | openFailed _ _ _ hv => exact sendJSON_rest hv
  | closeLLM => exact .rest (talk_of_eq rfl (List.map_modify_of_eq fun _ _ ↦ rfl) rfl)
  | closeOld => exact .rest (talk_of_eq (List.map_modify_of_eq fun _ _ ↦ rfl) rfl rfl)
  | opened turn hr =>
    refine .opened turn hr rfl ?_
    simp [World.talk, SttCall.opened, SttCall.talk, Stream.opened, World.puts]
  | store i hr =>
    refine .stored i hr ?_
    have hcalls : (w.stt.modify i fun c ↦ { c with forwarder := .starting }).map SttCall.talk =
        (w.stt.map SttCall.talk).modify i fun c ↦ { c with forwarder := .starting } :=
      List.map_modify_of_comm fun _ _ ↦ rfl
    simp only [World.talk, hcalls]
    rfl
  | _ => exact .rest rfl

private theorem talkStep_move {w w' : World} {i : Nat} {b : TranscriptsAction} {c : SttCall}
    {pc : TranscriptsPc} {g : SttCall → SttCall} {sent : List (Nat × ControlMessage)}
    (hc : w.stt[i]? = some c)
    (hm : c.forwarder.Moves w.currentTurn pc) (hs : sent = [] ∨ sent = c.forwarder.sends i)
    (hstt : w'.stt = w.stt.modify i g)
    (hg : (g c).talk = ⟨c.startTurn, pc, c.talk.events ++ pc.taken⟩)
    (hl : w'.llm.map LlmCall.opening = w.llm.map LlmCall.opening ++ c.forwarder.opens i pc)
    (hp : w'.puts.filterMap Put.transcript? = w.puts.filterMap Put.transcript? ++ sent) :
    TalkStep w w' (.forwardTranscripts i b) := by
  refine .move i c.talk pc sent ⟨b, rfl⟩ (by simp [World.talk, hc]) hm hs ?_
  have hcalls : (w.stt.modify i g).map SttCall.talk =
      (w.stt.map SttCall.talk).set i ⟨c.startTurn, pc, c.talk.events ++ pc.taken⟩ := by
    apply List.map_modify_of_const
    intro d hd
    obtain rfl : c = d := Option.some.inj (hc.symm.trans hd)
    exact hg
  simp only [World.talk, hstt, hcalls, hl, hp]
  rfl

private theorem talkStep_goto {w : World} {i : Nat} {b : TranscriptsAction} {c : SttCall}
    {pc : TranscriptsPc} (hc : w.stt[i]? = some c) (hm : c.forwarder.Moves w.currentTurn pc)
    (ht : pc.taken = []) (ho : c.forwarder.opens i pc = []) :
    TalkStep w (w.gotoTranscripts i pc) (.forwardTranscripts i b) :=
  talkStep_move (g := SttCall.goto pc) hc hm (.inl rfl) rfl (by rw [ht, List.append_nil]; rfl)
    (by rw [ho, List.append_nil]; rfl) (List.append_nil _).symm

private theorem talkStep_sendJSON {w v : World} {i : Nat} {c : SttCall} {pc : TranscriptsPc}
    {m : ControlMessage} {b : Branch} (h : w.sendJSON (.forwardTranscripts i) m b = some v)
    (hc : w.stt[i]? = some c) (hm : c.forwarder.Moves w.currentTurn pc)
    (hs : (Put.transcript? ⟨.text m, .forwardTranscripts i⟩).toList = c.forwarder.sends i)
    (ht : pc.taken = []) (ho : c.forwarder.opens i pc = []) :
    TalkStep w (v.gotoTranscripts i pc) (.forwardTranscripts i (.select b)) := by
  obtain ⟨hstt, hllm, -, sent, hsent, hp⟩ := sendJSON_talk h
  refine talkStep_move (g := SttCall.goto pc) hc hm (hs ▸ hsent) ?_
    (by rw [ht, List.append_nil]; rfl) ?_ hp
  · rw [← hstt]
    rfl
  · rw [ho, List.append_nil, ← hllm]
    rfl

private theorem forwardTranscripts_talkStep {w w' : World} {i : Nat} {a : TranscriptsAction}
    (h : w.forwardTranscripts i a = some w') : TalkStep w w' (.forwardTranscripts i a) := by
  obtain ⟨c, hc, hstep⟩ := transcriptsStep_of_forwardTranscripts h
  cases hstep with
  | load hp => exact talkStep_goto hc (hp ▸ .load) rfl (by rw [hp]; rfl)
  | take t e s hp hs =>
    have hm : c.forwarder.Moves w.currentTurn (.check t e) := by
      rw [hp]
      exact .take t e
    refine talkStep_move hc hm (.inl rfl) rfl ?_ (by simp [hp]) (by simp [World.puts])
    simp [SttCall.talk, Stream.consumed_next? hs]
  | rangeOver t hp => exact talkStep_goto hc (hp ▸ .rangeOver t) rfl (by rw [hp]; rfl)
  | stale t e hp ht => exact talkStep_goto hc (hp ▸ .stale t e ht) rfl (by rw [hp]; rfl)
  | pass t e hp ht => exact talkStep_goto hc (hp ▸ .pass t e ht) rfl (by rw [hp]; rfl)
  | forward t e b v hp hv =>
    refine talkStep_sendJSON hv hc (hp ▸ .sent t e) ?_ ?_ ?_
    · rw [hp]
      cases e <;> rfl
    · cases e <;> rfl
    · rw [hp]
      rfl
  | chatStale t prompt hp ht =>
    exact talkStep_goto hc (hp ▸ .chatStale t prompt ht) rfl (by rw [hp]; rfl)
  | chatPass t prompt hp ht =>
    exact talkStep_goto hc (hp ▸ .chatPass t prompt ht) rfl (by rw [hp]; rfl)
  | snapshot t prompt hp =>
    exact talkStep_goto hc (hp ▸ .snapshot t prompt w.history) rfl (by rw [hp]; rfl)
  | startChat t prompt history hp =>
    have hm : c.forwarder.Moves w.currentTurn (.chatPublish t w.llm.length) := by
      rw [hp]
      exact .chatOpened t prompt history w.llm.length
    refine talkStep_move hc hm (.inl rfl) rfl (by simp [SttCall.goto, SttCall.talk]) ?_
      (List.append_nil _).symm
    simp [hp, gotoTranscripts, LlmCall.opened, LlmCall.opening]
  | startError t prompt history hp =>
    exact talkStep_goto hc (hp ▸ .chatFailed t prompt history) rfl (by rw [hp]; rfl)
  | chatFailed t b v hp hv =>
    exact talkStep_sendJSON hv hc (hp ▸ .reported t) (by rw [hp]; rfl) rfl (by rw [hp]; rfl)
  | publish t j hp =>
    have hm : c.forwarder.Moves w.currentTurn (.ranging t) := by
      rw [hp]
      exact .publish t j
    refine talkStep_move hc hm (.inl rfl) rfl (by simp [SttCall.goto, SttCall.talk]) ?_
      (List.append_nil _).symm
    have hl : (w.llm.modify j fun l ↦ { l with forwarder := .ranging }).map LlmCall.opening =
        w.llm.map LlmCall.opening := List.map_modify_of_eq fun _ _ ↦ rfl
    simpa [hp, gotoTranscripts] using hl

private theorem Sends.transcripts {w w' : World} {dropped : List (ControlMessage × Nat)}
    {o : Origin} {P : ControlMessage → Prop} (h : Sends w w'.send dropped o P)
    (ho : ∀ i, o ≠ .forwardTranscripts i) (hw : w'.written = w.written) :
    w'.puts.filterMap Put.transcript? = w.puts.filterMap Put.transcript? := by
  obtain ⟨new, hn, hp⟩ := h.puts
  have hputs : w'.puts = w.puts ++ new := by
    rw [World.puts, World.puts, hn, hw, List.append_assoc]
  rw [hputs, transcripts_append]
  intro p hm
  exact transcript?_eq_none fun i ↦ (hp p hm).1 ▸ ho i

private theorem forwardLLMEvents_openings {w w' : World} {j : Nat} {a : LlmEventsAction}
    (h : w.forwardLLMEvents j a = some w') :
    w'.llm.map LlmCall.opening = w.llm.map LlmCall.opening := by
  have same {g : LlmCall → LlmCall} (hg : ∀ c, (g c).opening = c.opening) :
      (w.llm.modify j g).map LlmCall.opening = w.llm.map LlmCall.opening :=
    List.map_modify_of_eq fun c _ ↦ hg c
  obtain ⟨c, -, hstep⟩ := llmEventsStep_of_forwardLLMEvents h
  cases hstep with
  | report code message b v hp hv =>
    obtain ⟨send, dropped, rfl, -⟩ := sendJSON_eq_some hv
    exact same fun _ ↦ rfl
  | take | rangeOver | stale | pass | enqueue | dropChunk | complete => exact same fun _ ↦ rfl

/-- Whatever the session does, its transcript side makes a `TalkStep`. -/
theorem step_talkStep {w w' : World} {a : Action} (h : system.step w a = some w') :
    TalkStep w w' a := by
  cases a with
  | readPump b => exact readPump_talkStep h
  | forwardTranscripts i b => exact forwardTranscripts_talkStep h
  | audioSendWorker b =>
    obtain ⟨send, dropped, queue, pc, i, g, rfl, hs, hg⟩ := audioSendWorker_footprint h
    refine .rest (talk_of_eq (List.map_modify_of_eq fun c _ ↦ ?_) rfl
      (Sends.transcripts hs (by simp) rfl))
    obtain ⟨ht, hf, -, hst⟩ := hg c
    rw [SttCall.talk, SttCall.talk, ht, hf]
    rcases hst with hst | hst <;> rw [hst]
    rfl
  | forwardLLMEvents j b =>
    have hl := forwardLLMEvents_openings h
    obtain ⟨send, dropped, active, queue, history, answered, g, rfl, hs, -⟩ :=
      forwardLLMEvents_footprint h
    exact .rest (talk_of_eq rfl hl (Sends.transcripts hs (by simp) rfl))
  | ttsWorker b =>
    have hputs : w'.puts.filterMap Put.transcript? = w.puts.filterMap Put.transcript? := by
      cases ttsWorkerStep_due h with
      | spend kind rest hd hd' hj hp =>
        rcases hp with hp | ⟨p, t, hp, -, ht, -⟩
        · rw [hp]
        · rw [hp, transcripts_append]
          intro q hq
          obtain rfl := List.mem_singleton.mp hq
          refine transcript?_eq_none fun i hi ↦ ?_
          simp [World.putTurn, hi] at ht
      | wait _ _ hp | check _ _ hp => rw [hp]
    obtain ⟨send, dropped, queue, taken, active, pc, tts, rfl, -⟩ := ttsWorkerStep_footprint h
    exact .rest (talk_of_eq rfl rfl hputs)
  | sttRecvPump i b =>
    obtain ⟨c, s, hc, hs, rfl⟩ := sttRecvPump_eq_some h
    refine .rest (talk_of_eq (List.map_modify_of_eq fun d hd ↦ ?_) rfl rfl)
    obtain rfl : c = d := Option.some.inj (hc.symm.trans hd)
    rw [SttCall.talk, SttCall.talk, (Stream.recvPump_frame hs).2]
  | llmRecvPump j b =>
    obtain ⟨c, s, -, -, rfl⟩ := llmRecvPump_eq_some h
    exact .rest (talk_of_eq rfl (List.map_modify_of_eq fun _ _ ↦ rfl) rfl)
  | ttsRecvPump k b =>
    obtain ⟨c, s, -, -, rfl⟩ := ttsRecvPump_eq_some h
    exact .rest rfl
  | write =>
    obtain ⟨send, written, rfl, hp⟩ := write_eq_some h
    exact .rest (talk_of_eq rfl rfl (congrArg _ hp))
  | stopWriting =>
    obtain rfl := stopWriting_eq_some h
    exact .rest rfl

end BibiCore.Session
