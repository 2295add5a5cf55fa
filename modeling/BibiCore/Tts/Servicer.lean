import BibiCore.Base.Traverse
import BibiCore.Proto
import BibiCore.Tts.Iteration
import BibiCore.Tts.Text
import BibiCore.Tts.WavEncoder

/-!
# `StreamSynthesize`

`tts/grpc_servicer.py`: a call acquires an engine, iterates its `stream` in a thread and passes the
chunks on. The engine is given by what `stream` yields for a text and the exception that ends it;
what `aacquire_engine` comes to is a parameter.
-/

namespace BibiCore.Tts

open PyStr
open BibiCore.Proto (TtsAudioChunkMsg)

/-- What a synchronous generator yields and the exception it ends with. -/
structure Yields where
  chunks : List AudioChunk
  ending : Option PyException
  deriving DecidableEq

/-- A `TTSEngine`, `tts/engines/base.py:8`, by its `stream`. -/
abbrev TTSEngine := Str → Yields

/-- A chunk of `PiperVoice.synthesize`. -/
structure PiperChunk where
  audioInt16Bytes : List UInt8
  sampleRate : Int
  sampleChannels : Int
  sampleWidth : Int
  deriving DecidableEq

/-- `PiperEngine.stream`, `tts/engines/piper_engine.py:41`; `synthesize` is that of its voice. -/
def PiperEngine.stream (synthesize : Str → List PiperChunk × Option PyException) : TTSEngine :=
  fun text ↦
    let (chunks, ending) := synthesize (stripMarkdown text)
    ⟨chunks.map fun chunk ↦
      ⟨chunk.audioInt16Bytes, chunk.sampleRate, chunk.sampleChannels, chunk.sampleWidth⟩, ending⟩

/-- The message of a chunk, `tts/grpc_servicer.py:23`. -/
def chunkToProto (chunk : AudioChunk) : Except PyException TtsAudioChunkMsg := do
  let sampleRate ← Proto.int32 (.other "ValueError") chunk.sampleRate
  let channels ← Proto.int32 (.other "ValueError") chunk.channels
  let sampleWidth ← Proto.int32 (.other "ValueError") chunk.sampleWidth
  return ⟨chunk.data, sampleRate, channels, sampleWidth⟩

/-- The status a call ends with, as its caller sees it. -/
inductive Status where
  | ok
  | notFound (details : String)
  | internal (details : String)
  | cancelled
  deriving DecidableEq

/-- The status of an exception that reaches `StreamSynthesize`. -/
def abortStatus : PyException → Status
  | .other name message =>
    if name = "VoiceNotFoundError" then .notFound message else .internal message
  | .stopAsyncIteration message | .runtimeError message => .internal message

/-- One call: the iteration once there is an engine, the messages it has sent, and its status once
it has ended. -/
structure Synthesis where
  iteration : Option (Bridge AudioChunk)
  sent : List TtsAudioChunkMsg
  status : Option Status
  deriving DecidableEq

/-- A step of a call. `chunk` is the body of the `async for`, with the value of
`context.cancelled()`; `cancel` is the end of the call's task by its caller. -/
inductive SynthesisAction where
  | acquire
  | iterate (a : BridgeAction)
  | chunk (cancelled : Bool)
  | finish
  | cancel
  deriving DecidableEq

namespace Synthesis

/-- The call as it comes in. -/
def opened : Synthesis := ⟨none, [], none⟩

/-- One step of a call whose engine yields this for its text, or of a call without one. The async
generator is closed only when the call has ended. -/
def step (engine : Except PyException Yields) (s : Synthesis) : SynthesisAction → Option Synthesis
  | .acquire =>
    match s.iteration, s.status, engine with
    | none, none, .ok _ => some { s with iteration := some .started }
    | none, none, .error e => some { s with status := some (abortStatus e) }
    | _, _, _ => none
  | .iterate a =>
    if a = .consumer .resume ∨ a = .consumer .stop ∧ s.status = none then none
    else
      match s.iteration, engine with
      | some b, .ok y =>
        ((iterInThread (.finite y.chunks y.ending)).step b a).map fun b ↦
          { s with iteration := some b }
      | _, _ => none
  | .chunk cancelled =>
    match s.iteration, s.status with
    | some b, none =>
      match b.consumer, b.received.getLast? with
      | .yielded, some chunk =>
        if cancelled then some { s with status := some .cancelled }
        else
          match chunkToProto chunk with
          | .ok msg => some { s with
              iteration := some { b with consumer := .polling }
              sent := s.sent ++ [msg] }
          | .error e => some { s with status := some (abortStatus e) }
      | _, _ => none
    | _, _ => none
  | .finish =>
    match s.iteration, s.status with
    | some b, none =>
      match b.outcome? with
      | some .finished => some { s with status := some .ok }
      | some (.raised e) => some { s with status := some (abortStatus e) }
      | _ => none
    | _, _ => none
  | .cancel => if s.status = none then some { s with status := some .cancelled } else none

end Synthesis

/-! ### What a call sends -/

/-- The chunks the body of the `async for` is done with. -/
def Bridge.passed (b : Bridge AudioChunk) : List AudioChunk :=
  if b.consumer = .yielded then b.received.dropLast else b.received

/-- A message has its chunk's data. -/
theorem data_of_chunkToProto {chunk : AudioChunk} {msg : TtsAudioChunkMsg}
    (h : chunkToProto chunk = .ok msg) : msg.data = chunk.data := by
  simp only [chunkToProto, Proto.int32, bind, Except.bind, pure, Except.pure] at h
  -- every branch raises, or builds a message with the chunk's data
  repeat' split at h
  all_goals cases h
  rfl

section

variable {gen : Generator AudioChunk} {b b' : Bridge AudioChunk}

/-- What has been yielded stays so. -/
theorem received_of_step {a : BridgeAction} (h : (iterInThread gen).step b a = some b') :
    b.received <+: b'.received := by
  cases a with
  | producer a => cases producerStep_of_step h <;> exact List.prefix_rfl
  | consumer a =>
    cases consumerStep_of_step h with
    | item a => exact List.prefix_append _ _
    | _ => exact List.prefix_rfl

/-- Only who holds the async generator passes over a chunk. -/
theorem passed_of_step {a : BridgeAction} (h : (iterInThread gen).step b a = some b')
    (hresume : a ≠ .consumer .resume) (hstop : a ≠ .consumer .stop) : b'.passed = b.passed := by
  cases a with
  | producer a => cases producerStep_of_step h <;> rfl
  | consumer a =>
    cases consumerStep_of_step h with
    | item a items hc => simp [Bridge.passed, hc]
    | resume => exact absurd rfl hresume
    | stop => exact absurd rfl hstop
    | empty hc | raised _ _ hc | sentinel _ hc | wake hc | setStopped _ hc =>
      simp [Bridge.passed, hc]

end

namespace Synthesis

/-- What a call has sent of what its engine yields: the messages of the first chunks. -/
structure Sound (y : Yields) (s : Synthesis) : Prop where
  iteration : ∀ b ∈ s.iteration, (iterInThread (.finite y.chunks y.ending)).Reachable b
  acquiring : s.iteration = none → s.sent = []
  sent : ∀ b ∈ s.iteration, ∃ chunks, chunks <+: b.received ∧
    chunks.mapM chunkToProto = .ok s.sent
  passed : ∀ b ∈ s.iteration, s.status = none → b.passed.mapM chunkToProto = .ok s.sent
  ok : s.status = some .ok → y.ending = none ∧ y.chunks.mapM chunkToProto = .ok s.sent

variable {engine : Except PyException Yields} {y : Yields} {s s' : Synthesis}

/-- A new call is sound. -/
theorem sound_opened : opened.Sound y := by
  constructor <;> simp [opened]

private theorem Sound.fail {status : Status} (hs : s.Sound y) (hst : status ≠ .ok) :
    ({ s with status := some status } : Synthesis).Sound y := by
  refine ⟨hs.iteration, hs.acquiring, hs.sent, fun b hb h ↦ ?_, fun h ↦ ?_⟩
  · cases h
  · exact absurd (Option.some.inj h) hst

/-- No exception ends a call with `OK`. -/
theorem abortStatus_ne_ok (e : PyException) : abortStatus e ≠ .ok := by
  cases e with
  | other name message =>
    rw [abortStatus]
    split <;> simp
  | _ => simp [abortStatus]

private theorem Sound.iterate {a : BridgeAction} {b b' : Bridge AudioChunk} (hs : s.Sound y)
    (hb : s.iteration = some b)
    (ha : ¬ (a = .consumer .resume ∨ a = .consumer .stop ∧ s.status = none))
    (h : (iterInThread (.finite y.chunks y.ending)).step b a = some b') :
    ({ s with iteration := some b' } : Synthesis).Sound y := by
  obtain ⟨hresume, hstop⟩ := not_or.mp ha
  refine ⟨?_, by simp, ?_, ?_, hs.ok⟩
  · rintro _ ⟨⟩
    exact (hs.iteration b hb).next h
  · rintro _ ⟨⟩
    obtain ⟨chunks, hchunks, hsent⟩ := hs.sent b hb
    exact ⟨chunks, hchunks.trans (received_of_step h), hsent⟩
  · rintro _ ⟨⟩ hst
    have hpassed := passed_of_step h hresume fun he ↦ hstop ⟨he, hst⟩
    rw [hpassed]
    exact hs.passed b hb hst

private theorem Sound.chunk {b : Bridge AudioChunk} {chunk : AudioChunk} {msg : TtsAudioChunkMsg}
    (hs : s.Sound y) (hb : s.iteration = some b) (hst : s.status = none)
    (hc : b.consumer = .yielded) (hlast : b.received.getLast? = some chunk)
    (hmsg : chunkToProto chunk = .ok msg) :
    ({ s with
      iteration := some { b with consumer := .polling }
      sent := s.sent ++ [msg] } : Synthesis).Sound y := by
  have hall : b.received.mapM chunkToProto = .ok (s.sent ++ [msg]) := by
    obtain ⟨before, hbefore⟩ := List.getLast?_eq_some_iff.mp hlast
    have hpassed := hs.passed b hb hst
    rw [Bridge.passed, if_pos hc, hbefore, List.dropLast_concat] at hpassed
    simp [hbefore, hpassed, hmsg, bind, Except.bind, pure, Except.pure]
  have hresume : b.consumerStep .resume = some { b with consumer := .polling } := by
    simp [Bridge.consumerStep, hc]
  refine ⟨?_, by simp, ?_, ?_, by simp [hst]⟩
  · rintro _ ⟨⟩
    exact (hs.iteration b hb).next (a := .consumer .resume) hresume
  · rintro _ ⟨⟩
    exact ⟨b.received, List.prefix_rfl, hall⟩
  · rintro _ ⟨⟩ -
    exact hall

private theorem Sound.finished {b : Bridge AudioChunk} (hs : s.Sound y)
    (hb : s.iteration = some b) (hst : s.status = none) (ho : b.outcome? = some .finished) :
    ({ s with status := some .ok } : Synthesis).Sound y := by
  have hc : b.consumer = .done .finished := by
    unfold Bridge.outcome? at ho
    split at ho
    · next o hc =>
      cases o with
      | finished => exact hc
      | _ => cases ho
    · cases ho
  obtain ⟨hall, hhead⟩ := (Bridge.Relays.of_reachable (hs.iteration b hb)).received_eq
    (e := .sentinel) (by simp) (by rw [hc]; rfl)
  have hending : y.ending = none := by
    cases he : y.ending with
    | none => rfl
    | some e => simp [he, endingEntries] at hhead
  have hsent := hs.passed b hb hst
  rw [Bridge.passed, if_neg (by simp [hc]), hall] at hsent
  refine ⟨hs.iteration, hs.acquiring, hs.sent, fun b hb h ↦ ?_, fun _ ↦ ⟨hending, hsent⟩⟩
  cases h

/-- Every step. -/
theorem Sound.step {a : SynthesisAction} (hs : s.Sound y) (he : ∀ z, engine = .ok z → z = y)
    (h : s.step engine a = some s') : s'.Sound y := by
  cases a with
  | acquire =>
    simp only [Synthesis.step] at h
    split at h
    · next z hnone hst =>
      cases h
      refine ⟨?_, by simp, ?_, ?_, hs.ok⟩
      · rintro _ ⟨⟩
        exact .init
      · rintro _ ⟨⟩
        exact ⟨[], List.nil_prefix, by rw [hs.acquiring hnone]; rfl⟩
      · rintro _ ⟨⟩ -
        rw [hs.acquiring hnone]
        rfl
    · cases h
      exact hs.fail (abortStatus_ne_ok _)
    · cases h
  | iterate a =>
    simp only [Synthesis.step] at h
    split at h
    · cases h
    · next ha =>
      split at h
      · next b z hb =>
        obtain ⟨b', hb', rfl⟩ := Option.map_eq_some_iff.mp h
        obtain rfl := he z rfl
        exact hs.iterate hb ha hb'
      · cases h
  | chunk cancelled =>
    simp only [Synthesis.step] at h
    split at h
    · next b hb hst =>
      split at h
      · next chunk hc hlast =>
        split at h
        · cases h
          exact hs.fail (by simp)
        · split at h
          · next msg hmsg =>
            cases h
            exact hs.chunk hb hst hc hlast hmsg
          · cases h
            exact hs.fail (abortStatus_ne_ok _)
      · cases h
    · cases h
  | finish =>
    simp only [Synthesis.step] at h
    split at h
    · next b hb hst =>
      split at h
      · next ho =>
        cases h
        exact hs.finished hb hst ho
      · cases h
        exact hs.fail (abortStatus_ne_ok _)
      · cases h
    · cases h
  | cancel =>
    simp only [Synthesis.step] at h
    split at h <;> cases h
    exact hs.fail (by simp)

/-- A call only sends more, and nothing once it has ended. -/
theorem sent_of_step {a : SynthesisAction} (h : s.step engine a = some s') :
    s.sent <+: s'.sent ∧ (s.status ≠ none → s'.status = s.status ∧ s'.sent = s.sent) := by
  cases a with
  | acquire =>
    simp only [Synthesis.step] at h
    split at h <;> cases h
    · next hst => exact ⟨List.prefix_rfl, fun hne ↦ absurd hst hne⟩
    · next hst => exact ⟨List.prefix_rfl, fun hne ↦ absurd hst hne⟩
  | iterate a =>
    simp only [Synthesis.step] at h
    split at h
    · cases h
    · split at h
      · obtain ⟨b', -, rfl⟩ := Option.map_eq_some_iff.mp h
        exact ⟨List.prefix_rfl, fun _ ↦ ⟨rfl, rfl⟩⟩
      · cases h
  | chunk cancelled =>
    simp only [Synthesis.step] at h
    split at h
    · next hst =>
      refine ⟨?_, fun hne ↦ absurd hst hne⟩
      split at h
      · split at h
        · cases h
          exact List.prefix_rfl
        · split at h <;> cases h
          · exact List.prefix_append _ _
          · exact List.prefix_rfl
      · cases h
    · cases h
  | finish =>
    simp only [Synthesis.step] at h
    split at h
    · next hst =>
      refine ⟨?_, fun hne ↦ absurd hst hne⟩
      split at h <;> cases h <;> exact List.prefix_rfl
    · cases h
  | cancel =>
    simp only [Synthesis.step] at h
    split at h <;> cases h
    next hst => exact ⟨List.prefix_rfl, fun hne ↦ absurd hst hne⟩

/-- The audio sent is that of the first chunks. -/
theorem Sound.begins (hs : s.Sound y) : s.sent.map (·.data) <+: y.chunks.map (·.data) := by
  cases hb : s.iteration with
  | none =>
    rw [hs.acquiring hb]
    exact List.nil_prefix
  | some b =>
    have hrelays := Bridge.Relays.of_reachable (hs.iteration b hb)
    have hreceived : b.received <+: y.chunks := hrelays.received_prefix
    obtain ⟨chunks, hchunks, hsent⟩ := hs.sent b hb
    have hdata : s.sent.map (·.data) = chunks.map (·.data) :=
      List.map_eq_of_mapM (fun _ _ ↦ data_of_chunkToProto) hsent
    rw [hdata]
    exact (hchunks.trans hreceived).map _

/-- It is all of it when the call has ended normally. -/
theorem Sound.data_of_ok (hs : s.Sound y) (hok : s.status = some .ok) :
    y.ending = none ∧ s.sent.map (·.data) = y.chunks.map (·.data) := by
  obtain ⟨hending, hsent⟩ := hs.ok hok
  exact ⟨hending, List.map_eq_of_mapM (fun _ _ ↦ data_of_chunkToProto) hsent⟩

end Synthesis

end BibiCore.Tts
