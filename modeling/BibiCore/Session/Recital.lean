import BibiCore.Session.SpokenText
import BibiCore.Tts.Servicer

/-!
# An answer as it is heard

A session together with its calls of `StreamSynthesize`, one for each tts stream: the text of a
chunk goes out, an engine speaks it in a thread of its own, and the audio comes back through
`iter_in_thread`, the servicer, `recvPump` and `synthesizeAndSend` to `s.send`. All of these take
their steps in any order.
-/

namespace BibiCore.Session

open BibiCore.Gateway World
open BibiCore.Tts (PyException Synthesis SynthesisAction TTSEngine Yields)

/-- A session and its calls of `StreamSynthesize`, in the order of its tts streams. -/
structure Recital where
  gateway : World
  calls : List Synthesis
  deriving DecidableEq

namespace Recital

/-- A step of the session or of call `k`. -/
inductive Move where
  | gateway (a : Action)
  | service (k : Nat) (a : SynthesisAction)
  deriving DecidableEq

/-- `Recv` on a tts stream returns what its call has sent, in order, and `io.EOF` after that when
the call has ended normally. -/
def Arrives (r : Recital) : Action → Prop
  | .ttsRecvPump k (.message m) => ∀ c ∈ r.gateway.tts[k]?, ∀ s ∈ r.calls[k]?,
      s.sent[c.stream.received.length]? = some m
  | .ttsRecvPump k .eof => ∀ c ∈ r.gateway.tts[k]?, ∀ s ∈ r.calls[k]?,
      s.status = some .ok ∧ c.stream.received.length = s.sent.length
  | _ => True

instance (r : Recital) (a : Action) : Decidable (r.Arrives a) := by
  unfold Arrives
  split <;> infer_instance

/-- One step; every stream opened begins a call. `acquired` is what `aacquire_engine` comes to in
each of them. -/
def step (acquired : Nat → Except PyException TTSEngine) (r : Recital) : Move → Option Recital
  | .gateway a =>
    if r.Arrives a then
      (Session.system.step r.gateway a).map fun w ↦
        ⟨w, r.calls ++ List.replicate (w.tts.length - r.gateway.tts.length) .opened⟩
    else none
  | .service k a =>
    match r.gateway.tts[k]?, r.calls[k]? with
    | some c, some s =>
      (s.step ((acquired k).map fun engine ↦ engine c.job.text.toList) a).map fun s ↦
        { r with calls := r.calls.set k s }
    | _, _ => none

/-- A session and its calls from the connection on. -/
def system (acquired : Nat → Except PyException TTSEngine) : TransitionSystem Recital Move where
  init := ⟨.new, []⟩
  step := step acquired

/-- What call `k` has to speak: what its engine yields for the text. -/
def yields (acquired : Nat → Except PyException TTSEngine) (k : Nat) (text : String) : Yields :=
  match acquired k with
  | .ok engine => engine text.toList
  | .error _ => ⟨[], none⟩

end Recital

/-! ### The session's end of a call -/

/-- A tts call as `recvPump` sees it. -/
def TtsCall.line (c : TtsCall) : TtsJob × List Proto.TtsAudioChunkMsg × PumpPc AudioChunk :=
  (c.job, c.stream.received, c.stream.pump)

/-- What a step does to the calls. -/
inductive LineStep (w w' : World) (a : Action) : Prop
  | same (h : w'.tts.map TtsCall.line = w.tts.map TtsCall.line)
  | opened (job : TtsJob) (voice : String) (h : w'.tts = w.tts ++ [TtsCall.opened job voice])
  | pump (k : Nat) (b : PumpAction Proto.TtsAudioChunkMsg) (c : TtsCall) (s : TtsStream)
      (ha : a = .ttsRecvPump k b) (hc : w.tts[k]? = some c)
      (hs : c.stream.recvPump ttsPump w.cancelled b = some s)
      (h : w'.tts = w.tts.modify k fun c ↦ { c with stream := s })

section

variable {w w' : World} {a : Action}

private theorem lines_modify {k : Nat} {g : TtsCall → TtsCall} (h : w'.tts = w.tts.modify k g)
    (hg : ∀ c, w.tts[k]? = some c → (g c).line = c.line) : LineStep w w' a :=
  .same (by rw [h, List.map_modify_of_eq hg])

/-- Every step is one of these. -/
theorem step_lineStep (h : system.step w a = some w') : LineStep w w' a := by
  cases a with
  | ttsWorker b =>
    cases ttsStep_of_ttsWorkerStep h with
    | opened job voice hp => exact .opened job voice rfl
    | take k c sent chunk s hp hc hs =>
      refine lines_modify rfl fun d hd ↦ ?_
      obtain rfl : c = d := Option.some.inj (hc.symm.trans hd)
      show (c.job, s.received, s.pump) = _
      rw [(Stream.next?_eq_some hs).2]
      rfl
    | recheckPassed | store | closeStale => exact lines_modify rfl fun _ _ ↦ rfl
    | openFailed _ _ _ _ hv | report _ _ _ _ _ _ _ _ hv | sendText _ _ _ _ _ _ _ _ hv
    | sendFormat _ _ _ _ _ _ _ _ hv =>
      obtain ⟨send, dropped, rfl, -⟩ := sendJSON_eq_some hv
      exact .same rfl
    | _ => exact .same rfl
  | readPump b =>
    cases readPump_effect h with
    | own _ _ _ _ _ _ _ _ _ _ hw =>
      subst hw
      exact .same rfl
    | report _ _ _ v _ hs hw | notify _ _ v _ hs hw =>
      obtain ⟨send, dropped, rfl, -⟩ := sendJSON_eq_some hs
      subst hw
      exact .same rfl
    | cutLLM _ _ _ _ hw | cutJob _ _ _ _ _ _ hw =>
      subst hw
      exact .same rfl
    | cutTTS turn k b hr hw =>
      subst hw
      exact lines_modify rfl fun _ _ ↦ rfl
  | ttsRecvPump k b =>
    obtain ⟨c, s, hc, hs, rfl⟩ := ttsRecvPump_eq_some h
    exact .pump k b c s rfl hc hs rfl
  | audioSendWorker b =>
    obtain ⟨send, dropped, queue, pc, i, g, rfl, -⟩ := audioSendWorker_footprint h
    exact .same rfl
  | forwardTranscripts i b =>
    obtain ⟨c, send, dropped, active, llm, g, -, rfl, -⟩ := forwardTranscripts_footprint h
    exact .same rfl
  | forwardLLMEvents j b =>
    obtain ⟨send, dropped, active, queue, history, answered, g, rfl, -⟩ :=
      forwardLLMEvents_footprint h
    exact .same rfl
  | sttRecvPump i b =>
    obtain ⟨c, s, -, -, rfl⟩ := sttRecvPump_eq_some h
    exact .same rfl
  | llmRecvPump j b =>
    obtain ⟨c, s, -, -, rfl⟩ := llmRecvPump_eq_some h
    exact .same rfl
  | write =>
    obtain ⟨send, written, rfl, -⟩ := write_eq_some h
    exact .same rfl
  | stopWriting =>
    obtain rfl := stopWriting_eq_some h
    exact .same rfl

end

/-! ### The two ends together -/

namespace Recital

variable {acquired : Nat → Except PyException TTSEngine} {r r' : Recital}

/-- Each call sends what its engine yields, and its stream has received the beginning of it, all of
it when it has seen the end. -/
structure Faithful (acquired : Nat → Except PyException TTSEngine) (r : Recital) : Prop where
  length : r.calls.length = r.gateway.tts.length
  sound : ∀ (k : Nat) (c : TtsCall) (s : Synthesis), r.gateway.tts[k]? = some c →
    r.calls[k]? = some s → s.Sound (yields acquired k c.job.text)
  arrived : ∀ (k : Nat) (c : TtsCall) (s : Synthesis), r.gateway.tts[k]? = some c →
    r.calls[k]? = some s → c.stream.received <+: s.sent
  ended : ∀ (k : Nat) (c : TtsCall) (s : Synthesis), r.gateway.tts[k]? = some c →
    r.calls[k]? = some s → c.stream.ending = some .eof →
    s.status = some .ok ∧ c.stream.received = s.sent

private theorem Faithful.same {w : World} (hr : r.Faithful acquired)
    (h : w.tts.map TtsCall.line = r.gateway.tts.map TtsCall.line) :
    Faithful acquired { r with gateway := w } := by
  have line {k : Nat} {d : TtsCall} (hd : w.tts[k]? = some d) :
      ∃ c, r.gateway.tts[k]? = some c ∧ c.line = d.line := by
    have hline : (r.gateway.tts.map TtsCall.line)[k]? = some d.line := by
      rw [← h, List.getElem?_map, hd, Option.map_some]
    rwa [List.getElem?_map, Option.map_eq_some_iff] at hline
  refine ⟨?_, fun k d s hd hs ↦ ?_, fun k d s hd hs ↦ ?_, fun k d s hd hs he ↦ ?_⟩
  · have hlen := congrArg List.length h
    rw [List.length_map, List.length_map] at hlen
    exact hr.length.trans hlen.symm
  · obtain ⟨c, hc, hline⟩ := line hd
    have hjob : c.job = d.job := congrArg Prod.fst hline
    exact hjob ▸ hr.sound k c s hc hs
  · obtain ⟨c, hc, hline⟩ := line hd
    have hreceived : c.stream.received = d.stream.received := congrArg (·.2.1) hline
    exact hreceived ▸ hr.arrived k c s hc hs
  · obtain ⟨c, hc, hline⟩ := line hd
    have hreceived : c.stream.received = d.stream.received := congrArg (·.2.1) hline
    have hpump : c.stream.pump = d.stream.pump := congrArg (·.2.2) hline
    rw [← hreceived]
    refine hr.ended k c s hc hs ?_
    rwa [Stream.ending, hpump]

private theorem Faithful.opened {w : World} {job : TtsJob} {voice : String}
    (hr : r.Faithful acquired) (h : w.tts = r.gateway.tts ++ [TtsCall.opened job voice]) :
    Faithful acquired ⟨w, r.calls ++ [.opened]⟩ := by
  have cases {k : Nat} {d : TtsCall} {s : Synthesis} (hd : w.tts[k]? = some d)
      (hs : (r.calls ++ [.opened])[k]? = some s) :
      r.gateway.tts[k]? = some d ∧ r.calls[k]? = some s ∨
        d = TtsCall.opened job voice ∧ s = .opened := by
    rw [h] at hd
    have hlen := hr.length
    rcases List.getElem?_concat_eq_some.mp hd with hd | ⟨hk, rfl⟩
    · have hlt := (List.getElem?_eq_some_iff.mp hd).1
      rcases List.getElem?_concat_eq_some.mp hs with hs | ⟨hk, -⟩
      · exact .inl ⟨hd, hs⟩
      · omega
    · rcases List.getElem?_concat_eq_some.mp hs with hs | ⟨-, rfl⟩
      · have hlt := (List.getElem?_eq_some_iff.mp hs).1
        omega
      · exact .inr ⟨rfl, rfl⟩
  refine ⟨by simp [h, hr.length], fun k d s hd hs ↦ ?_, fun k d s hd hs ↦ ?_,
    fun k d s hd hs he ↦ ?_⟩
  · rcases cases hd hs with ⟨hd, hs⟩ | ⟨rfl, rfl⟩
    · exact hr.sound k d s hd hs
    · exact Synthesis.sound_opened
  · rcases cases hd hs with ⟨hd, hs⟩ | ⟨rfl, rfl⟩
    · exact hr.arrived k d s hd hs
    · exact List.nil_prefix
  · rcases cases hd hs with ⟨hd, hs⟩ | ⟨rfl, rfl⟩
    · exact hr.ended k d s hd hs he
    · cases he

private theorem Faithful.pump {w : World} {k : Nat} {b : PumpAction Proto.TtsAudioChunkMsg}
    {c : TtsCall} {t : TtsStream} (hr : r.Faithful acquired) (ha : r.Arrives (.ttsRecvPump k b))
    (hc : r.gateway.tts[k]? = some c)
    (ht : c.stream.recvPump ttsPump r.gateway.cancelled b = some t)
    (h : w.tts = r.gateway.tts.modify k fun c ↦ { c with stream := t }) :
    Faithful acquired { r with gateway := w } := by
  have cases {l : Nat} {d : TtsCall} (hd : w.tts[l]? = some d) :
      r.gateway.tts[l]? = some d ∨ l = k ∧ d = { c with stream := t } := by
    rw [h] at hd
    rcases List.getElem?_modify_eq_some.mp hd with ⟨-, hd⟩ | ⟨hl, c', hc', rfl⟩
    · exact .inl hd
    · exact .inr ⟨hl, by rw [Option.some.inj (hc.symm.trans hc')]⟩
  refine ⟨by simp [h, hr.length], fun l d s hd hs ↦ ?_, fun l d s hd hs ↦ ?_,
    fun l d s hd hs he ↦ ?_⟩
  · rcases cases hd with hd | ⟨rfl, rfl⟩
    · exact hr.sound l d s hd hs
    · exact hr.sound l c s hc hs
  · rcases cases hd with hd | ⟨rfl, rfl⟩
    · exact hr.arrived l d s hd hs
    · have harrived := hr.arrived l c s hc hs
      cases Stream.pumpStep_of_recvPump ht with
      | message m hp =>
        obtain ⟨rest, hrest⟩ := harrived
        have hm : s.sent[c.stream.received.length]? = some m := ha c hc s hs
        rw [← hrest, List.getElem?_append_right (Nat.le_refl _), Nat.sub_self] at hm
        cases rest with
        | nil => cases hm
        | cons m' rest =>
          obtain rfl : m' = m := by simpa using hm
          exact ⟨rest, by simp [← hrest]⟩
      | _ => exact harrived
  · rcases cases hd with hd | ⟨rfl, rfl⟩
    · exact hr.ended l d s hd hs he
    · cases Stream.pumpStep_of_recvPump ht with
      | eof hp =>
        obtain ⟨hok, hlen⟩ := ha c hc s hs
        exact ⟨hok, (hr.arrived l c s hc hs).eq_of_length hlen⟩
      | close e hp =>
        refine hr.ended l c s hc hs ?_
        rw [Stream.ending] at he ⊢
        rwa [hp]
      | _ => cases he

private theorem Faithful.service {k : Nat} {a : SynthesisAction} {c : TtsCall}
    {s s' : Synthesis} (hr : r.Faithful acquired) (hc : r.gateway.tts[k]? = some c)
    (hs : r.calls[k]? = some s)
    (h : s.step ((acquired k).map fun engine ↦ engine c.job.text.toList) a = some s') :
    Faithful acquired { r with calls := r.calls.set k s' } := by
  have cases {l : Nat} {d : TtsCall} {u : Synthesis} (hd : r.gateway.tts[l]? = some d)
      (hu : (r.calls.set k s')[l]? = some u) :
      r.calls[l]? = some u ∨ l = k ∧ d = c ∧ u = s' := by
    rcases List.getElem?_set_eq_some.mp hu with ⟨-, hu⟩ | ⟨rfl, -, rfl⟩
    · exact .inl hu
    · exact .inr ⟨rfl, Option.some.inj (hd.symm.trans hc), rfl⟩
  obtain ⟨hsent, hended⟩ := Synthesis.sent_of_step h
  refine ⟨by simp [hr.length], fun l d u hd hu ↦ ?_, fun l d u hd hu ↦ ?_,
    fun l d u hd hu he ↦ ?_⟩
  · rcases cases hd hu with hu | ⟨rfl, rfl, rfl⟩
    · exact hr.sound l d u hd hu
    · refine (hr.sound l d s hd hs).step (fun z hz ↦ ?_) h
      unfold yields
      cases hacquired : acquired l with
      | ok engine =>
        rw [hacquired] at hz
        exact (Except.ok.inj hz).symm
      | error e =>
        rw [hacquired] at hz
        cases hz
  · rcases cases hd hu with hu | ⟨rfl, rfl, rfl⟩
    · exact hr.arrived l d u hd hu
    · exact (hr.arrived l d s hd hs).trans hsent
  · rcases cases hd hu with hu | ⟨rfl, rfl, rfl⟩
    · exact hr.ended l d u hd hu he
    · obtain ⟨hok, hall⟩ := hr.ended l d s hd hs he
      obtain ⟨hst, hsame⟩ := hended (by simp [hok])
      exact ⟨hst.trans hok, hall.trans hsame.symm⟩

/-- In every run. -/
theorem faithful_of_reachable (hr : (system acquired).Reachable r) : r.Faithful acquired := by
  refine hr.invariant (I := Faithful acquired) ?_ fun r m r' _ hr h ↦ ?_
  · constructor <;> simp [system, World.new]
  · cases m with
    | gateway a =>
      simp only [system, step] at h
      split at h
      · next ha =>
        obtain ⟨w, hw, rfl⟩ := Option.map_eq_some_iff.mp h
        cases step_lineStep hw with
        | same hl =>
          have hlen := congrArg List.length hl
          rw [List.length_map, List.length_map] at hlen
          rw [hlen, Nat.sub_self, List.replicate_zero, List.append_nil]
          exact hr.same hl
        | opened job voice ho =>
          have hone : w.tts.length - r.gateway.tts.length = 1 := by simp [ho]
          rw [hone]
          exact hr.opened ho
        | pump k b c t hb hc ht hm =>
          subst hb
          have hnone : w.tts.length - r.gateway.tts.length = 0 := by simp [hm]
          rw [hnone, List.replicate_zero, List.append_nil]
          exact hr.pump ha hc ht hm
      · cases h
    | service k a =>
      simp only [system, step] at h
      split at h
      · next c s hc hs =>
        obtain ⟨s', hs', rfl⟩ := Option.map_eq_some_iff.mp h
        exact hr.service hc hs hs'
      · cases h

/-- `Recv` returns the llm service's replies in the session's part of the run. -/
def RepliedBy (reply : Nat → Proto.ChatRequest → Llm.Reply) (r : Recital) : Move → Prop
  | .gateway a => Session.RepliedBy reply r.gateway a
  | .service _ _ => True

instance (reply : Nat → Proto.ChatRequest → Llm.Reply) (r : Recital) (m : Move) :
    Decidable (r.RepliedBy reply m) := by
  unfold RepliedBy
  split <;> infer_instance

/-- The session's part of a run. -/
theorem gateway_reachable {reply : Nat → Proto.ChatRequest → Llm.Reply}
    (hr : (system acquired).ReachableWith (RepliedBy reply) r) :
    Session.system.ReachableWith (Session.RepliedBy reply) r.gateway := by
  refine hr.invariant
    (I := fun r ↦ Session.system.ReachableWith (Session.RepliedBy reply) r.gateway) .init
    fun r m r' _ hr hp h ↦ ?_
  cases m with
  | gateway a =>
    simp only [system, step] at h
    split at h
    · obtain ⟨w, hw, rfl⟩ := Option.map_eq_some_iff.mp h
      exact hr.step hp hw
    · cases h
  | service k a =>
    simp only [system, step] at h
    split at h
    · obtain ⟨s', -, rfl⟩ := Option.map_eq_some_iff.mp h
      exact hr
    · cases h

end Recital

section

open Llm

/-- A session whose llm service is `StreamChat` and whose tts service is `StreamSynthesize`, each
stream with its own engine, and all of it in any order. What is spoken for an llm stream are chunks
of the engine's answer to the prompt, in order and none twice. The frames put on `s.send` for a
chunk are audio that the tts engine yields for its text, from the first on; and when nothing has
made the job give up and its stream has been read to a normal end, they are all of it, and the
engine has not failed. -/
theorem answer_heard (isdigit : Char → Bool) (chunking : ChunkingConfig)
    (engines : Nat → LLMEngine) (personality : Proto.ChatMessage) (cancelled : Nat → Nat → Bool)
    (acquired : Nat → Except PyException TTSEngine) (r : Recital)
    (hr : (Recital.system acquired).ReachableWith (Recital.RepliedBy fun j request ↦
      streamChat isdigit chunking (engines j) personality (cancelled j) request) r) (j : Nat)
    (c : LlmCall) (hc : r.gateway.llm[j]? = some c) :
    ((jobsOf j (r.gateway.tts.map TtsCall.job)).map TtsJob.text).Sublist
      ((chunkStream isdigit chunking ((engines j).streamResponse c.prompt
        (personality :: c.context))).items.map String.ofList) ∧
    ∀ (k : Nat) (d : TtsCall), r.gateway.tts[k]? = some d →
      framesOf k r.gateway.audio <+:
        (Recital.yields acquired k d.job.text).chunks.map (·.data) ∧
      (r.gateway.Unspoiled k d.job.turn → d.stream.rangeOver → d.stream.ending = some .eof →
        framesOf k r.gateway.audio ++ r.gateway.inHand k =
          (Recital.yields acquired k d.job.text).chunks.map (·.data) ∧
        (Recital.yields acquired k d.job.text).ending = none) := by
  have hgateway := Recital.gateway_reachable hr
  have hfaithful := Recital.faithful_of_reachable hr.reachable
  refine ⟨(texts_sublist hgateway.reachable hc (jobs_sublist hgateway.reachable)).trans
    (chunks_of_replies hgateway hc).sublist, fun k d hd ↦ ?_⟩
  have hlt : k < r.calls.length := by
    rw [hfaithful.length]
    exact (List.getElem?_eq_some_iff.mp hd).1
  have hs : r.calls[k]? = some r.calls[k] := List.getElem?_eq_getElem hlt
  have hsound := hfaithful.sound k d _ hd hs
  have hrelays := ttsRelays_of_reachable hgateway.reachable hd
  obtain ⟨hbegin, hwhole⟩ := (spoken_of_reachable hgateway.reachable).calls k d hd
  refine ⟨?_, fun hun ho he ↦ ?_⟩
  · have hreceived := ((hfaithful.arrived k d _ hd hs).map (·.data)).trans hsound.begins
    exact (((List.prefix_append _ _).trans hbegin).trans (heard_of_relays hrelays)).trans hreceived
  · obtain ⟨hok, hall⟩ := hfaithful.ended k d _ hd hs he
    obtain ⟨hending, hsent⟩ := hsound.data_of_ok hok
    rw [hwhole hun, heard_of_rangeOver hrelays ho (by simp [he]), hall, hsent]
    exact ⟨rfl, hending⟩

/-- A voice that makes one chunk of a text, a byte of each character. -/
def bytesVoice : TTSEngine :=
  Tts.PiperEngine.stream fun text ↦ ([⟨text.map fun c ↦ c.toNat.toUInt8, 22050, 1, 2⟩], none)

/-- An answer in Markdown. -/
def boldAnswer : String := "It is **very** cold."

/-- The session gets the answer and opens a tts stream for it. -/
def openActions : List Action :=
  startActions ++ finalActions 0 "hi" ++ [.forwardTranscripts 0 .next] ++
    chunkActions 0 boldAnswer ++ [.ttsWorker .dequeue, .ttsWorker .next, .ttsWorker .next,
      .ttsWorker .startOk, .ttsWorker .next, .ttsWorker .next]

/-- The service speaks one chunk. -/
def serveActions : List SynthesisAction :=
  [SynthesisAction.acquire] ++
    (Tts.itemActions ++ [Tts.BridgeAction.consumer .poll]).map .iterate ++
    [SynthesisAction.chunk false] ++
    (Tts.endActions none ++ [Tts.BridgeAction.consumer .poll, .consumer .setStopped]).map
      .iterate ++ [SynthesisAction.finish]

/-- The session receives the chunk and the end of the stream. -/
def hearActions (chunk : Proto.TtsAudioChunkMsg) : List Action :=
  [Action.ttsRecvPump 0 (.message chunk), .ttsRecvPump 0 .next, .ttsWorker .next,
    .ttsWorker .next] ++ List.replicate 3 (.ttsWorker (.select .put)) ++
    [.ttsRecvPump 0 .eof, .ttsRecvPump 0 .next]

/-- What is put is the answer, with its Markdown taken out. -/
theorem answer_heard_bold : ∃ (r : Recital) (c : LlmCall) (d : TtsCall),
    r.gateway.llm[0]? = some c ∧ r.gateway.tts[0]? = some d ∧
    ((jobsOf 0 (r.gateway.tts.map TtsCall.job)).map TtsJob.text).Sublist
      ((chunkStream Char.isDigit .default ⟨[boldAnswer.toList], none⟩).items.map String.ofList) ∧
    framesOf 0 r.gateway.audio = ["It is very cold.".toList.map fun c ↦ c.toNat.toUInt8] ∧
    framesOf 0 r.gateway.audio ++ r.gateway.inHand 0 =
      (Recital.yields (fun _ ↦ .ok bytesVoice) 0 d.job.text).chunks.map (·.data) := by
  have hok : (((Recital.system fun _ ↦ .ok bytesVoice).runGuarded (Recital.RepliedBy fun _ request ↦
      streamChat Char.isDigit .default (tokenEngine [boldAnswer.toList]) ⟨"system", ""⟩
        (fun _ ↦ false) request) (Recital.system fun _ ↦ .ok bytesVoice).init
      (openActions.map .gateway ++ serveActions.map (.service 0) ++ (hearActions
        ⟨"It is very cold.".toList.map fun c ↦ c.toNat.toUInt8, 22050, 1, 2⟩).map .gateway)).any
      fun r ↦ decide (r.gateway.llm.length = 1 ∧
        r.gateway.tts.map (fun d ↦ (decide d.stream.rangeOver, d.stream.ending, d.job.turn)) =
          [(true, some .eof, r.gateway.currentTurn)] ∧ r.gateway.cancelled = false ∧
        framesOf 0 r.gateway.audio =
          ["It is very cold.".toList.map fun c ↦ c.toNat.toUInt8])) = true := by
    decide +kernel
  obtain ⟨r, hrun, hr⟩ := (Option.any_eq_true _ _).mp hok
  obtain ⟨hllm, htts, hcancelled, hframes⟩ := of_decide_eq_true hr
  obtain ⟨c, hc⟩ := List.length_eq_one_iff.mp hllm
  obtain ⟨d, hd, hstream⟩ := List.map_eq_singleton_iff.mp htts
  obtain ⟨hover, heof, hturn⟩ : d.stream.rangeOver ∧ d.stream.ending = some .eof ∧
      d.job.turn = r.gateway.currentTurn := by simpa using hstream
  have hc0 : r.gateway.llm[0]? = some c := by simp [hc]
  have hd0 : r.gateway.tts[0]? = some d := by simp [hd]
  obtain ⟨htexts, hheard⟩ := answer_heard Char.isDigit .default
    (fun _ ↦ tokenEngine [boldAnswer.toList]) ⟨"system", ""⟩ (fun _ _ ↦ false)
    (fun _ ↦ .ok bytesVoice) r (.runGuarded .init hrun) 0 c hc0
  obtain ⟨hall, -⟩ := (hheard 0 d hd0).2 (.inr ⟨hturn, hcancelled⟩) hover heof
  exact ⟨r, c, d, hc0, hd0, htexts, hframes, hall⟩

end

end BibiCore.Session
