import BibiCore.Gateway.Delivery
import BibiCore.Session.Attribution
import BibiCore.Session.MicFormat
import BibiCore.Stt.Windows

/-!
# From the microphone to the transcripts

A session whose stt streams have `StreamTranscribe` of `stt/grpc_servicer.py` at the other end.
The service is another process: it has read as many of the messages as it has got round to, and
what `Recv` returns is the beginning of the events it yields for the messages sent so far.
-/

namespace BibiCore.Stt

variable (interp : Interpolation)

/-- A call that has raised or returned reads nothing more, and any other goes on from where it
is. -/
theorem receiveAll_append (engine : STTEngine) (buffer : List AudioChunk)
    (requests more : List Request) :
    receiveAll interp engine buffer (requests ++ more) =
        receiveAll interp engine buffer requests ∨
      (receiveAll interp engine buffer requests).2 = none ∧
        (receiveAll interp engine buffer requests).1 <+:
          (receiveAll interp engine buffer (requests ++ more)).1 := by
  induction requests generalizing buffer with
  | nil => exact .inr ⟨rfl, List.nil_prefix⟩
  | cons request requests ih =>
    rw [List.cons_append, receiveAll, receiveAll]
    cases receive interp engine buffer request with
    | returned event | raised error => exact .inl rfl
    | continued event buffer =>
      rcases ih buffer with hsame | ⟨hnone, hpre⟩
      · exact .inl (by simp only [hsame])
      · exact .inr ⟨hnone, (List.prefix_append_right_inj _).mpr hpre⟩

/-- Messages that follow add to the events of a call and change none. -/
theorem streamTranscribe_append (acquired : Except STTError STTEngine)
    (requests more : List Request) :
    streamTranscribe interp acquired requests <+:
      streamTranscribe interp acquired (requests ++ more) := by
  cases acquired with
  | error error => exact List.prefix_rfl
  | ok engine =>
    rcases receiveAll_append interp engine [] requests more with hsame | ⟨hnone, hpre⟩
    · simp only [streamTranscribe, hsame]
      exact List.prefix_rfl
    · simp only [streamTranscribe, hnone, Option.map_none, Option.toList_none, List.append_nil]
      exact hpre.trans (List.prefix_append _ _)

/-- Only the last window of a call ends the utterance, so no event but the last is final. -/
theorem Transcribes.not_final {interp : Interpolation} {engines : Nat → STTEngine}
    {msgs : List Proto.SttAudioChunkMsg} {t : Transcription}
    (ht : Transcribes interp engines msgs t) {event : Proto.TranscriptEvent}
    (he : event ∈ t.events.dropLast) : event.type ≠ .finalEvent := by
  intro hfinal
  obtain ⟨n, hn⟩ := List.mem_iff_getElem?.mp he
  rw [List.getElem?_dropLast] at hn
  split at hn
  · next hlt =>
    rw [ht.events, List.getElem?_mapIdx] at hn
    obtain ⟨window, hw, rfl⟩ := Option.map_eq_some_iff.mp hn
    have hend : endsUtterance window = true := by
      unfold windowEvent at hfinal
      split at hfinal
      · next answer ha =>
        have htype : answer.type = windowType window := (of_answerWindow ha).1
        by_contra hne
        rw [htype, windowType, if_neg hne] at hfinal
        cases hfinal
      · cases hfinal
    have hlast := (ht.stopped n window hw (.inl hend)).1
    rw [ht.events, List.length_mapIdx] at hlt
    omega
  · cases hn

end BibiCore.Stt

namespace BibiCore.Session

open BibiCore.Gateway World

/-! ### The service at the other end -/

/-- The message `SendAudio` makes of a frame, `internal/stt/client.go:118`. -/
def AudioFrame.message (f : AudioFrame) : Proto.SttAudioChunkMsg :=
  ⟨f.data, f.format.sampleRate, f.format.channels, f.format.sampleWidth, f.endOfUtterance⟩

/-- The messages sent on a stream. -/
def SttCall.messages (c : SttCall) : List Proto.SttAudioChunkMsg := c.sent.map AudioFrame.message

/-- What `StreamTranscribe` yields for the messages of a stream, with what `acquire_engine` has
come to for it. -/
def SttCall.answers (interp : Stt.Interpolation) (acquired : Except Stt.STTError Stt.STTEngine)
    (c : SttCall) : List Proto.TranscriptEvent :=
  Stt.streamTranscribe interp acquired (Stt.received c.messages)

/-- What `Recv` returns on stream `i` is the next event of the service. -/
def ServedBy (interp : Stt.Interpolation) (acquired : Nat → Except Stt.STTError Stt.STTEngine)
    (w : World) : Action → Prop
  | .sttRecvPump i (.message event) =>
    ∀ c ∈ w.stt[i]?, c.stream.received ++ [event] <+: c.answers interp (acquired i)
  | _ => True

instance (interp : Stt.Interpolation) (acquired : Nat → Except Stt.STTError Stt.STTEngine)
    (w : World) (a : Action) : Decidable (ServedBy interp acquired w a) := by
  unfold ServedBy
  split <;> infer_instance

/-- A call after a step: nothing received, or with at least the messages sent and the events
received from before, and one event more only where `recvPump` has just received it. -/
def Exchanges (w w' : World) (a : Action) : Prop :=
  ∀ (i : Nat) (d : SttCall), w'.stt[i]? = some d →
    d.stream.received = [] ∨
    ∃ c, w.stt[i]? = some c ∧ c.sent <+: d.sent ∧
      (d.stream.received = c.stream.received ∨
        ∃ event, a = .sttRecvPump i (.message event) ∧
          d.stream.received = c.stream.received ++ [event])

section

variable {w w' : World} {a : Action}

private theorem exchanges_same (h : w'.stt = w.stt) : Exchanges w w' a :=
  fun _ d hd ↦ .inr ⟨d, h ▸ hd, List.prefix_rfl, .inl rfl⟩

private theorem exchanges_modify {i : Nat} {g : SttCall → SttCall} (h : w'.stt = w.stt.modify i g)
    (hg : ∀ c, w.stt[i]? = some c → c.sent <+: (g c).sent ∧
      ((g c).stream.received = c.stream.received ∨
        ∃ event, a = .sttRecvPump i (.message event) ∧
          (g c).stream.received = c.stream.received ++ [event])) : Exchanges w w' a := by
  intro k d hd
  rw [h] at hd
  rcases List.getElem?_modify_eq_some.mp hd with ⟨-, hd⟩ | ⟨rfl, c, hc, rfl⟩
  · exact .inr ⟨d, hd, List.prefix_rfl, .inl rfl⟩
  · exact .inr ⟨c, hc, hg c hc⟩

private theorem exchanges_moved (h : SttMoved w.stt w'.stt) : Exchanges w w' a := by
  cases h with
  | keep h => exact exchanges_same h
  | close i h | start i h => exact exchanges_modify h fun _ _ ↦ ⟨List.prefix_rfl, .inl rfl⟩
  | opened turn h =>
    intro k d hd
    rw [h] at hd
    rcases List.getElem?_concat_eq_some.mp hd with hd | ⟨-, rfl⟩
    · exact .inr ⟨d, hd, List.prefix_rfl, .inl rfl⟩
    · exact .inl rfl

private theorem audioSendWorker_exchanges {b : AudioAction} (h : w.audioSendWorker b = some w') :
    Exchanges w w' a := by
  cases audioStep_of_audioSendWorker h with
  | quit | dequeue | noStream | check | sendError => exact exchanges_same rfl
  | report message b v hp hv =>
    obtain ⟨send, dropped, rfl, -⟩ := sendJSON_eq_some hv
    exact exchanges_same rfl
  | pass | closeSend => exact exchanges_modify rfl fun _ _ ↦ ⟨List.prefix_rfl, .inl rfl⟩
  | sendOk frame => exact exchanges_modify rfl fun _ _ ↦ ⟨List.prefix_append _ _, .inl rfl⟩

/-- Every step changes the two sides of a call in this way. -/
theorem step_exchanges (h : system.step w a = some w') : Exchanges w w' a := by
  cases a with
  | readPump b =>
    cases readPump_effect h with
    | own _ _ _ _ _ _ _ _ _ _ h hs =>
      subst h
      exact exchanges_moved hs
    | report code message b v reader hs h | notify turn b v hr hs h =>
      obtain ⟨send, dropped, rfl, -⟩ := sendJSON_eq_some hs
      subst h
      exact exchanges_same rfl
    | cutLLM _ _ _ _ h | cutTTS _ _ _ _ h | cutJob _ _ _ _ _ _ h =>
      subst h
      exact exchanges_same rfl
  | audioSendWorker b => exact audioSendWorker_exchanges h
  | forwardTranscripts i b =>
    obtain ⟨c, send, dropped, active, llm, g, hc, rfl, -, -, hg, hs⟩ :=
      forwardTranscripts_footprint h
    refine exchanges_modify rfl fun d hd ↦ ?_
    obtain rfl : c = d := Option.some.inj (hc.symm.trans hd)
    simp only [sendSide, Prod.mk.injEq] at hg
    rw [hg.2.2.1]
    refine ⟨List.prefix_rfl, .inl ?_⟩
    rcases hs with hs | ⟨e, hs⟩
    · rw [hs]
    · rw [(Stream.next?_eq_some hs).2]
  | forwardLLMEvents j b =>
    obtain ⟨send, dropped, active, queue, history, answered, g, rfl, -⟩ :=
      forwardLLMEvents_footprint h
    exact exchanges_same rfl
  | ttsWorker b =>
    obtain ⟨send, dropped, queue, taken, active, pc, tts, rfl, -⟩ := ttsWorkerStep_footprint h
    exact exchanges_same rfl
  | sttRecvPump i b =>
    obtain ⟨c, s, hc, hs, rfl⟩ := sttRecvPump_eq_some h
    refine exchanges_modify rfl fun d hd ↦ ⟨List.prefix_rfl, ?_⟩
    obtain rfl : c = d := Option.some.inj (hc.symm.trans hd)
    cases Stream.pumpStep_of_recvPump hs with
    | message m hp => exact .inr ⟨m, rfl, rfl⟩
    | _ => exact .inl rfl
  | llmRecvPump j b =>
    obtain ⟨c, s, -, -, rfl⟩ := llmRecvPump_eq_some h
    exact exchanges_same rfl
  | ttsRecvPump k b =>
    obtain ⟨c, s, -, -, rfl⟩ := ttsRecvPump_eq_some h
    exact exchanges_same rfl
  | write =>
    obtain ⟨send, written, rfl, -⟩ := write_eq_some h
    exact exchanges_same rfl
  | stopWriting =>
    obtain rfl := stopWriting_eq_some h
    exact exchanges_same rfl

end

/-- What has been received on a stream is the beginning of the answers to what was sent on it. -/
theorem received_answers {interp : Stt.Interpolation}
    {acquired : Nat → Except Stt.STTError Stt.STTEngine} {w : World}
    (hr : system.ReachableWith (ServedBy interp acquired) w) {i : Nat} {c : SttCall}
    (hc : w.stt[i]? = some c) : c.stream.received <+: c.answers interp (acquired i) := by
  refine hr.invariant (I := fun w ↦ ∀ (i : Nat) (c : SttCall), w.stt[i]? = some c →
    c.stream.received <+: c.answers interp (acquired i)) (by simp [system, World.new]) ?_ i c hc
  intro w a w' _ hw hs h i d hd
  rcases step_exchanges h i d hd with hnil | ⟨c, hc, hsent, hreceived⟩
  · rw [hnil]
    exact List.nil_prefix
  · have hmore : c.answers interp (acquired i) <+: d.answers interp (acquired i) := by
      obtain ⟨more, hmore⟩ := hsent
      simp only [SttCall.answers, SttCall.messages, ← hmore, List.map_append, Stt.received]
      exact Stt.streamTranscribe_append interp (acquired i) _ _
    rcases hreceived with hreceived | ⟨event, rfl, hreceived⟩ <;> rw [hreceived]
    · exact (hw i c hc).trans hmore
    · exact (hs c hc).trans hmore

/-! ### What a goroutine passes on -/

/-- A transcript, and whether it is final. -/
abbrev Saying := Bool × String

/-- The transcript in an event. -/
def sayingOf : TranscriptEvent → Option Saying
  | .partialEvent text => some (false, text)
  | .finalEvent text => some (true, text)
  | .error _ _ => none

/-- The transcript in a message. -/
def ControlMessage.saying? : ControlMessage → Option Saying
  | .partialTranscript text _ => some (false, text)
  | .finalTranscript text _ => some (true, text)
  | _ => none

/-- The transcripts goroutine `i` has put, in order. -/
def TalkView.said (v : TalkView) (i : Nat) : List Saying :=
  (v.transcripts.filter (·.1 == i)).filterMap (·.2.saying?)

/-- The prompts of the chats goroutine `i` has opened, in order. -/
def TalkView.asked (v : TalkView) (i : Nat) : List String :=
  (v.openings.filter (·.opener == i)).map Opening.prompt

/-- What a move passes on is the event in hand. -/
theorem TranscriptsPc.Moves.passesOn {pc pc' : TranscriptsPc} {n i : Nat} (h : pc.Moves n pc')
    {sent : List (Nat × ControlMessage)} (hs : sent = [] ∨ sent = pc.sends i) :
    (sent.filterMap (·.2.saying?) ++ pc'.pending.filterMap sayingOf).Sublist
        ((pc.pending ++ pc'.taken).filterMap sayingOf) ∧
      ((pc.opens i pc').map Opening.prompt ++ pc'.prompts).Sublist
        (pc.prompts ++ pc'.taken.filterMap TranscriptEvent.final?) := by
  cases h with
  | sent t e =>
    rcases hs with rfl | rfl <;> cases e <;>
      simp [afterTranscript, sayingOf, ControlMessage.saying?, TranscriptEvent.final?]
  | take t e =>
    obtain rfl : sent = [] := by simpa using hs
    cases e <;> simp [TranscriptEvent.final?]
  | load | rangeOver | stale | pass | chatStale | chatPass | snapshot | chatOpened
  | chatFailed | reported | publish =>
    obtain rfl : sent = [] := by simpa using hs
    simp

/-- A goroutine has put transcripts it took off its stream, and opened chats for the final ones
among these, in order and none twice. -/
structure Talk.PassesOn (c : Talk) (said : List Saying) (asked : List String) : Prop where
  said : (said ++ c.forwarder.pending.filterMap sayingOf).Sublist (c.events.filterMap sayingOf)
  asked : (asked ++ c.forwarder.prompts).Sublist (c.events.filterMap TranscriptEvent.final?)

namespace Talk.PassesOn

variable {c : Talk} {said : List Saying} {asked : List String}

private theorem move {n i : Nat} {pc : TranscriptsPc} {sent : List (Nat × ControlMessage)}
    (h : c.PassesOn said asked) (hm : c.forwarder.Moves n pc)
    (hs : sent = [] ∨ sent = c.forwarder.sends i) :
    Talk.PassesOn ⟨c.startTurn, pc, c.events ++ pc.taken⟩ (said ++ sent.filterMap (·.2.saying?))
      (asked ++ (c.forwarder.opens i pc).map Opening.prompt) := by
  obtain ⟨hsent, hopens⟩ := hm.passesOn hs
  constructor
  · have hnew := (List.Sublist.refl said).append hsent
    have hold := h.said.append (List.Sublist.refl (pc.taken.filterMap sayingOf))
    simp only [List.filterMap_append, List.append_assoc] at hnew hold ⊢
    exact hnew.trans hold
  · have hnew := (List.Sublist.refl asked).append hopens
    have hold := h.asked.append
      (List.Sublist.refl (pc.taken.filterMap TranscriptEvent.final?))
    simp only [List.filterMap_append, List.append_assoc] at hnew hold ⊢
    exact hnew.trans hold

private theorem starting (h : c.PassesOn said asked) :
    Talk.PassesOn { c with forwarder := .starting } said asked where
  said := by simpa using (List.sublist_append_left _ _).trans h.said
  asked := by simpa using (List.sublist_append_left _ _).trans h.asked

end Talk.PassesOn

/-- Every goroutine passes on what it took, and nothing comes from anywhere else. -/
structure TalkView.PassesOn (v : TalkView) : Prop where
  own : ∀ (i : Nat) (c : Talk), v.calls[i]? = some c → c.PassesOn (v.said i) (v.asked i)
  transcripts : ∀ p ∈ v.transcripts, p.1 < v.calls.length
  chats : ∀ o ∈ v.openings, o.opener < v.calls.length

namespace TalkView.PassesOn

variable {v : TalkView}

private theorem opened (hv : v.PassesOn) (turn : Nat) :
    TalkView.PassesOn { v with calls := v.calls ++ [⟨turn, .unstarted, []⟩] } where
  own i c hc := by
    rcases List.getElem?_concat_eq_some.mp hc with hc | ⟨rfl, rfl⟩
    · exact hv.own i c hc
    · have hsaid : v.said v.calls.length = [] := by
        rw [TalkView.said, List.filter_eq_nil_iff.mpr, List.filterMap_nil]
        intro p hp
        have := hv.transcripts p hp
        simp only [beq_iff_eq]
        omega
      have hasked : v.asked v.calls.length = [] := by
        rw [TalkView.asked, List.filter_eq_nil_iff.mpr, List.map_nil]
        intro o ho
        have := hv.chats o ho
        simp only [beq_iff_eq]
        omega
      constructor
      · show (v.said v.calls.length ++ []).Sublist []
        rw [hsaid]
        exact List.Sublist.refl []
      · show (v.asked v.calls.length ++ []).Sublist []
        rw [hasked]
        exact List.Sublist.refl []
  transcripts p hp := by
    have := hv.transcripts p hp
    rw [List.length_append]
    omega
  chats o ho := by
    have := hv.chats o ho
    rw [List.length_append]
    omega

private theorem stored (hv : v.PassesOn) (j : Nat) :
    TalkView.PassesOn
      { v with calls := v.calls.modify j fun c ↦ { c with forwarder := .starting } } where
  own i c hc := by
    rcases List.getElem?_modify_eq_some.mp hc with ⟨-, hc⟩ | ⟨rfl, d, hd, rfl⟩
    · exact hv.own i c hc
    · exact (hv.own i d hd).starting
  transcripts p hp := by
    rw [List.length_modify]
    exact hv.transcripts p hp
  chats o ho := by
    rw [List.length_modify]
    exact hv.chats o ho

private theorem move (hv : v.PassesOn) {j n : Nat} {c : Talk} {pc : TranscriptsPc}
    {sent : List (Nat × ControlMessage)} (hc : v.calls[j]? = some c)
    (hm : c.forwarder.Moves n pc) (hs : sent = [] ∨ sent = c.forwarder.sends j) :
    TalkView.PassesOn ⟨v.calls.set j ⟨c.startTurn, pc, c.events ++ pc.taken⟩,
      v.openings ++ c.forwarder.opens j pc, v.transcripts ++ sent⟩ := by
  have hsent : ∀ p ∈ sent, p.1 = j := by
    rcases hs with rfl | rfl
    · simp
    · exact fun p hp ↦ TranscriptsPc.fst_of_mem_sends hp
  have hopens : ∀ o ∈ c.forwarder.opens j pc, o.opener = j := fun o ho ↦
    TranscriptsPc.opener_of_mem_opens ho
  have hj : j < v.calls.length := (List.getElem?_eq_some_iff.mp hc).1
  refine ⟨fun i d hd ↦ ?_, fun p hp ↦ ?_, fun o ho ↦ ?_⟩
  · simp only [TalkView.said, TalkView.asked, List.filter_append, List.filterMap_append,
      List.map_append]
    rw [List.filter_beq_of_const hsent, List.filter_beq_of_const hopens]
    rcases List.getElem?_set_eq_some.mp hd with ⟨hne, hd⟩ | ⟨rfl, -, rfl⟩
    · rw [if_neg hne.symm, if_neg hne.symm, List.filterMap_nil, List.map_nil, List.append_nil,
        List.append_nil]
      exact hv.own i d hd
    · rw [if_pos rfl, if_pos rfl]
      exact (hv.own i c hc).move hm hs
  · rw [List.length_set]
    rcases List.mem_append.mp hp with hp | hp
    · exact hv.transcripts p hp
    · exact hsent p hp ▸ hj
  · rw [List.length_set]
    rcases List.mem_append.mp ho with ho | ho
    · exact hv.chats o ho
    · exact hopens o ho ▸ hj

end TalkView.PassesOn

/-- In every run every goroutine passes on what it took. -/
theorem passesOn_of_reachable {w : World} (hr : system.Reachable w) : w.talk.PassesOn := by
  refine hr.invariant (I := fun w ↦ w.talk.PassesOn) ?_ fun w a w' _ hw h ↦ ?_
  · exact ⟨fun i c hc ↦ by simp [system, World.new, World.talk] at hc,
      fun p hp ↦ by simp [system, World.new, World.talk, World.puts] at hp,
      fun o ho ↦ by simp [system, World.new, World.talk] at ho⟩
  · cases step_talkStep h with
    | opened turn _ _ htalk => exact htalk ▸ hw.opened turn
    | stored i _ htalk => exact htalk ▸ hw.stored i
    | move i c pc sent ha hc hm hs htalk => exact htalk ▸ hw.move hc hm hs
    | rest htalk => exact htalk ▸ hw

/-! ### What a client is told -/

/-- The transcripts in the events of a service. -/
def sayings (events : List Proto.TranscriptEvent) : List Saying :=
  (events.map mapTranscriptEvent).filterMap sayingOf

/-- The final transcripts in them. -/
def finals (events : List Proto.TranscriptEvent) : List String :=
  (events.map mapTranscriptEvent).filterMap TranscriptEvent.final?

private theorem finals_eq_nil {events : List Proto.TranscriptEvent}
    (h : ∀ event ∈ events, event.type ≠ .finalEvent) : finals events = [] := by
  rw [finals, List.filterMap_eq_nil_iff]
  intro e he
  obtain ⟨event, hevent, rfl⟩ := List.mem_map.mp he
  have := h event hevent
  cases ht : event.type <;> simp_all [mapTranscriptEvent, TranscriptEvent.final?]

/-- A call has one final transcript at most. -/
theorem length_finals_le {interp : Stt.Interpolation} {engines : Nat → Stt.STTEngine}
    {msgs : List Proto.SttAudioChunkMsg} {t : Stt.Transcription}
    (ht : Stt.Transcribes interp engines msgs t) : (finals t.events).length ≤ 1 := by
  rcases List.eq_nil_or_concat' t.events with hnil | ⟨before, last, hconcat⟩
  · simp [hnil, finals]
  · have hbefore : finals before = [] := finals_eq_nil fun event he ↦
      ht.not_final (by rwa [hconcat, List.dropLast_concat])
    have hsplit : finals t.events = finals before ++ finals [last] := by
      simp [hconcat, finals]
    rw [hsplit, hbefore, List.nil_append]
    exact (List.length_filterMap_le _ _).trans (by simp)

/-- A session whose stt service is `StreamTranscribe`, whatever `acquire_engine` comes to for each
of its streams. The audio sent on a stream is cut into consecutive windows, each of which is
transcribed; the transcripts the client is told for the stream are texts of these windows, partial
and final as the windows are, in their order and none twice; and the stream has one chat at most,
prompted with the text of the window that ends the utterance. -/
theorem transcripts_of_windows (interp : Stt.Interpolation)
    (acquired : Nat → Except Stt.STTError Stt.STTEngine) (w : World)
    (hr : system.ReachableWith (ServedBy interp acquired) w) (i : Nat) (c : SttCall)
    (hc : w.stt[i]? = some c) (engine : Stt.STTEngine) (he : acquired i = .ok engine) :
    ∃ t, Stt.Transcribes interp (fun _ ↦ engine) c.messages t ∧
      (w.talk.said i).Sublist (sayings t.events) ∧ (w.talk.asked i).length ≤ 1 ∧
      (w.talk.asked i).Sublist (finals t.events) := by
  obtain ⟨as, hrun⟩ := hr.reachable.exists_run
  have hpos : ∀ m ∈ c.messages, Stt.PositiveFormat m := by
    intro m hm
    obtain ⟨f, hf, rfl⟩ := List.mem_map.mp hm
    exact positive_of_mem_accepted hrun (accepted_of_sent hrun hc hf)
  have ht : Stt.Transcribes interp (fun _ ↦ engine) c.messages
      (Stt.transcription interp (fun _ ↦ engine) 0 [] c.messages) :=
    Stt.transcribes_of_positive hpos
  generalize hte : Stt.transcription interp (fun _ ↦ engine) 0 [] c.messages = t at ht
  have hreceived : c.stream.received <+: t.events := by
    have hanswers := received_answers hr hc
    rwa [SttCall.answers, he, Stt.streamTranscribe_eq_events, hte] at hanswers
  have hrelays := (sttSound_of_reachable hr.reachable i c hc).relays
  have hpasses := (passesOn_of_reachable hr.reachable).own i c.talk (by simp [World.talk, hc])
  have hsaid : c.stream.consumed.filterMap sayingOf <+: sayings t.events :=
    (hrelays.filterMap_consumed fun _ _ ↦ rfl).trans
      ((hreceived.map mapTranscriptEvent).filterMap sayingOf)
  have hfinal : c.stream.consumed.filterMap TranscriptEvent.final? <+: finals t.events :=
    (hrelays.filterMap_consumed fun _ _ ↦ rfl).trans
      ((hreceived.map mapTranscriptEvent).filterMap TranscriptEvent.final?)
  have hasked := ((List.sublist_append_left _ _).trans hpasses.asked).trans hfinal.sublist
  exact ⟨t, ht, ((List.sublist_append_left _ _).trans hpasses.said).trans hsaid.sublist,
    hasked.length_le.trans (length_finals_le ht), hasked⟩

/-- An engine that hears "hi" in every window. -/
def hiEngine : Stt.STTEngine := ⟨none, fun _ ↦ .ok ⟨[⟨0, 0, "hi", none⟩], none⟩⟩

/-- One sample and the end of the utterance are sent, and the service answers. -/
def dictationActions : List Action :=
  startActions ++ [Action.readPump (.frame (.binary [0, 0])), .readPump .next,
    .audioSendWorker .dequeue, .audioSendWorker .next, .audioSendWorker .next,
    .audioSendWorker .sendOk] ++ endUtteranceActions ++ finalActions 0 "hi"

/-- One window is transcribed, the client is told its text, and a chat is started with it. -/
theorem transcripts_of_windows_hi : ∃ (w : World) (c : SttCall) (t : Stt.Transcription),
    w.stt[0]? = some c ∧ c.messages.length = 2 ∧
    Stt.Transcribes (fun samples _ _ ↦ samples) (fun _ ↦ hiEngine) c.messages t ∧
    w.talk.said 0 = [(true, "hi")] ∧ w.talk.asked 0 = ["hi"] ∧
    (true, "hi") ∈ sayings t.events := by
  have hw : ∃ w c, system.runGuarded (ServedBy (fun samples _ _ ↦ samples) fun _ ↦ .ok hiEngine)
      system.init dictationActions = some w ∧ w.stt[0]? = some c ∧ c.messages.length = 2 ∧
      w.talk.said 0 = [(true, "hi")] ∧ w.talk.asked 0 = ["hi"] := by
    have hok : ((system.runGuarded (ServedBy (fun samples _ _ ↦ samples) fun _ ↦ .ok hiEngine)
        system.init dictationActions).any fun w ↦
          decide (w.stt.map (·.messages.length) = [2] ∧ w.talk.said 0 = [(true, "hi")] ∧
            w.talk.asked 0 = ["hi"])) = true := by
      decide +kernel
    obtain ⟨w, hrun, hw⟩ := (Option.any_eq_true _ _).mp hok
    obtain ⟨hlen, hsaid, hasked⟩ := of_decide_eq_true hw
    obtain ⟨c, hc⟩ := List.map_eq_singleton_iff.mp hlen
    exact ⟨w, c, hrun, by simp [hc.1], hc.2, hsaid, hasked⟩
  obtain ⟨w, c, hrun, hc, hlen, hsaid, hasked⟩ := hw
  obtain ⟨t, ht, hsub, -⟩ :=
    transcripts_of_windows _ _ w (.runGuarded .init hrun) 0 c hc hiEngine rfl
  refine ⟨w, c, t, hc, hlen, ht, hsaid, hasked, ?_⟩
  rw [hsaid] at hsub
  exact hsub.subset List.mem_cons_self

end BibiCore.Session
