import BibiCore.Gateway.Delivery
import BibiCore.Session.Playback
import BibiCore.Session.Speech

/-!
# The audio a session speaks

`session.go:440`–`525`: `ttsWorker` synthesizes one job after another and relays the audio of
each. What a client gets to hear is, job after job, what the tts service sent for it; of an
interrupted job it is the beginning.
-/

namespace BibiCore.Gateway

/-- The audio of a chunk. -/
@[simp] def AudioChunk.data? : AudioChunk → Option (List UInt8)
  | .audio data _ => some data
  | .error _ _ => none

end BibiCore.Gateway

namespace BibiCore.Session

open BibiCore.Gateway World

/-- A binary frame, with the job it belongs to. -/
@[simp] def Put.audio? (p : Put) : Option (Nat × List UInt8) :=
  match p.origin, p.message with
  | .synthesizeAndSend k, .binary data => some (k, data)
  | _, _ => none

/-- The bytes of a binary frame. -/
def Put.data? (p : Put) : Option (List UInt8) :=
  match p.message with
  | .binary data => some data
  | .text _ => none

/-- The frames of job `k` among the frames of all jobs. -/
def framesOf (k : Nat) (audio : List (Nat × List UInt8)) : List (List UInt8) :=
  (audio.filter (·.1 = k)).map Prod.snd

/-- The audio `synthesizeAndSend` has taken off its stream and not put on `s.send` yet. -/
@[simp] def JobPc.inHand : JobPc → List (List UInt8)
  | .check _ chunk => chunk.data?.toList
  | .sendText data _ | .sendFormat data _ | .sendAudio data => [data]
  | _ => []

/-- The job `ttsWorker` has taken up without a stream for it yet. -/
@[simp] def TtsPc.unopened : TtsPc → List TtsJob
  | .got next | .synthesize next | .opening next _ | .openFailed next => [next]
  | _ => []

/-- The same once its turn was found to be the current one. -/
@[simp] def TtsPc.begun : TtsPc → Option TtsJob
  | .synthesize next | .opening next _ => some next
  | _ => none

namespace World

/-- The binary frames put on `s.send`, in order. -/
def audio (w : World) : List (Nat × List UInt8) := w.puts.filterMap Put.audio?

/-- The audio of job `k` that is in hand. -/
def inHand (w : World) (k : Nat) : List (List UInt8) :=
  match w.ttsWorker with
  | .job l pc => if l = k then pc.inHand else []
  | _ => []

/-- Nothing has made job `k`, which is of turn `turn`, give up its audio: it is in hand, or its turn
is the current one and the context not done. -/
def Unspoiled (w : World) (k turn : Nat) : Prop :=
  (∃ pc, w.ttsWorker = .job k pc) ∨ turn = w.currentTurn ∧ w.cancelled = false

/-- What job `k` has put, with what it has in hand, against what it has taken off its stream. -/
structure Speaks (w : World) (k turn : Nat) (heard : List AudioChunk) : Prop where
  beginning : framesOf k w.audio ++ w.inHand k <+: heard.filterMap AudioChunk.data?
  whole : w.Unspoiled k turn →
    framesOf k w.audio ++ w.inHand k = heard.filterMap AudioChunk.data?

end World

/-! ### What a step puts -/

private theorem framesOf_append (k : Nat) (xs ys : List (Nat × List UInt8)) :
    framesOf k (xs ++ ys) = framesOf k xs ++ framesOf k ys := by
  simp [framesOf]

/-- Frames of other jobs. -/
theorem framesOf_eq_nil {k : Nat} {xs : List (Nat × List UInt8)} (h : ∀ x ∈ xs, x.1 ≠ k) :
    framesOf k xs = [] := by
  rw [framesOf, List.filter_eq_nil_iff.mpr fun x hx ↦ by simpa using h x hx, List.map_nil]

section

variable {w w' : World}

private theorem audio_of_silent {new : List Put} (hp : w'.puts = w.puts ++ new)
    (hn : ∀ p ∈ new, p.Silent) : w'.audio = w.audio := by
  have hnone : new.filterMap Put.audio? = [] := by
    refine List.filterMap_eq_nil_iff.mpr fun p hmem ↦ ?_
    unfold Put.audio?
    split
    · next data _ hdata => exact absurd hdata ((hn p hmem).2 data)
    · rfl
  rw [World.audio, World.audio, hp, List.filterMap_append, hnone, List.append_nil]

private theorem sendJSON_audio {v : World} {o : Origin} {m : ControlMessage} {b : Branch}
    (h : w.sendJSON o m b = some v) : v.audio = w.audio := by
  obtain ⟨send, dropped, rfl, hs⟩ := sendJSON_eq_some h
  rcases hs with ⟨hs, -⟩ | ⟨rfl, -⟩ | ⟨rfl, -⟩
  · have hnone : Put.audio? ⟨.text m, o⟩ = none := by
      unfold Put.audio?
      split
      · next hdata => cases hdata
      · rfl
    simp only [World.audio, World.puts, hs, List.filterMap_append, List.filterMap_cons, hnone,
      List.filterMap_nil, List.append_nil]
  · rfl
  · rfl

/-- What a step that is not `ttsWorker`'s leaves of the jobs. -/
private structure SameJobs (w w' : World) : Prop where
  tts : w'.tts.map (fun c ↦ (c.job, c.stream.consumed)) =
    w.tts.map fun c ↦ (c.job, c.stream.consumed)
  taken : w'.taken = w.taken
  turn : w.currentTurn ≤ w'.currentTurn
  cancelled : w.cancelled = true → w'.cancelled = true

private theorem step_sameJobs {a : Action} (h : system.step w a = some w')
    (ha : ∀ b, a ≠ .ttsWorker b) : SameJobs w w' := by
  cases a with
  | readPump b =>
    cases readPump_effect h with
    | own _ _ _ _ _ _ _ _ _ _ hw _ hc ht =>
      subst hw
      exact ⟨rfl, rfl, ht, hc⟩
    | report _ _ _ v _ hs hw | notify _ _ v _ hs hw =>
      obtain ⟨send, dropped, rfl, -⟩ := sendJSON_eq_some hs
      subst hw
      exact ⟨rfl, rfl, Nat.le_refl _, id⟩
    | cutLLM _ _ _ _ hw | cutJob _ _ _ _ _ _ hw =>
      subst hw
      exact ⟨rfl, rfl, Nat.le_refl _, id⟩
    | cutTTS turn k b hr hw =>
      subst hw
      exact ⟨List.map_modify_of_eq fun _ _ ↦ rfl, rfl, Nat.le_refl _, id⟩
  | ttsWorker b => exact absurd rfl (ha b)
  | ttsRecvPump k b =>
    obtain ⟨c, s, hc, hs, rfl⟩ := ttsRecvPump_eq_some h
    refine ⟨List.map_modify_of_eq fun d hd ↦ ?_, rfl, Nat.le_refl _, id⟩
    obtain rfl : c = d := Option.some.inj (hc.symm.trans hd)
    rw [(Stream.recvPump_frame hs).2]
  | audioSendWorker b =>
    obtain ⟨send, dropped, queue, pc, i, g, rfl, -⟩ := audioSendWorker_footprint h
    exact ⟨rfl, rfl, Nat.le_refl _, id⟩
  | forwardTranscripts i b =>
    obtain ⟨c, send, dropped, active, llm, g, -, rfl, -⟩ := forwardTranscripts_footprint h
    exact ⟨rfl, rfl, Nat.le_refl _, id⟩
  | forwardLLMEvents j b =>
    obtain ⟨send, dropped, active, queue, history, answered, g, rfl, -⟩ :=
      forwardLLMEvents_footprint h
    exact ⟨rfl, rfl, Nat.le_refl _, id⟩
  | sttRecvPump i b =>
    obtain ⟨c, s, -, -, rfl⟩ := sttRecvPump_eq_some h
    exact ⟨rfl, rfl, Nat.le_refl _, id⟩
  | llmRecvPump j b =>
    obtain ⟨c, s, -, -, rfl⟩ := llmRecvPump_eq_some h
    exact ⟨rfl, rfl, Nat.le_refl _, id⟩
  | write =>
    obtain ⟨send, written, hw, -⟩ := write_eq_some h
    subst hw
    exact ⟨rfl, rfl, Nat.le_refl _, id⟩
  | stopWriting =>
    obtain rfl := stopWriting_eq_some h
    exact ⟨rfl, rfl, Nat.le_refl _, id⟩

/-! ### The invariant -/

/-- Every frame is of a job that has its stream, the jobs' frames come one job after another, each
job has put the beginning of what it took, and the jobs are those taken up, in their order. -/
structure Spoken (w : World) : Prop where
  known : ∀ x ∈ w.audio, x.1 < w.tts.length
  ordered : (w.audio.map Prod.fst).Pairwise (· ≤ ·)
  calls : ∀ (k : Nat) (c : TtsCall), w.tts[k]? = some c →
    w.Speaks k c.job.turn c.stream.consumed
  jobs : (w.tts.map TtsCall.job ++ w.ttsWorker.unopened).Sublist w.taken
  turns : ∀ c ∈ w.tts, c.job.turn ≤ w.currentTurn
  begun : ∀ next, w.ttsWorker.begun = some next → next.turn ≤ w.currentTurn

private theorem World.Speaks.mono {k turn : Nat} {heard : List AudioChunk}
    (h : w.Speaks k turn heard)
    (ha : framesOf k w'.audio ++ w'.inHand k = framesOf k w.audio ++ w.inHand k)
    (hu : w'.Unspoiled k turn → w.Unspoiled k turn) : w'.Speaks k turn heard :=
  ⟨ha ▸ h.beginning, fun hun ↦ ha ▸ h.whole (hu hun)⟩

private theorem World.Speaks.drop {k turn : Nat} {heard : List AudioChunk}
    (h : w.Speaks k turn heard) (ha : w'.audio = w.audio) (hi : w'.inHand k = [])
    (hu : ¬ w'.Unspoiled k turn) : w'.Speaks k turn heard := by
  refine ⟨?_, fun hun ↦ absurd hun hu⟩
  rw [ha, hi, List.append_nil]
  exact (List.prefix_append _ _).trans h.beginning

private theorem World.Unspoiled.of_le {k turn : Nat} (h : w'.Unspoiled k turn)
    (hp : ∀ pc, w'.ttsWorker = .job k pc → ∃ pc, w.ttsWorker = .job k pc)
    (hle : turn ≤ w.currentTurn) (ht : w.currentTurn ≤ w'.currentTurn)
    (hc : w.cancelled = true → w'.cancelled = true) : w.Unspoiled k turn := by
  rcases h with ⟨pc, hpc⟩ | ⟨hturn, hcancel⟩
  · exact .inl (hp pc hpc)
  · refine .inr ⟨Nat.le_antisymm hle (hturn ▸ ht), ?_⟩
    cases hw : w.cancelled with
    | false => rfl
    | true => exact absurd (hc hw) (by simp [hcancel])

private theorem Spoken.quiet (hw : Spoken w) (ha : w'.audio = w.audio) (hs : SameJobs w w')
    (hp : ∀ k pc, w'.ttsWorker = .job k pc → ∃ pc, w.ttsWorker = .job k pc)
    (hi : ∀ (k : Nat) (c : TtsCall), w.tts[k]? = some c →
      w'.inHand k = w.inHand k ∨ w'.inHand k = [] ∧ ¬ w'.Unspoiled k c.job.turn)
    (hj : w'.ttsWorker.unopened.Sublist w.ttsWorker.unopened)
    (hb : ∀ next, w'.ttsWorker.begun = some next →
      w.ttsWorker.begun = some next ∨ next.turn ≤ w.currentTurn) : Spoken w' := by
  -- the calls of the two states match
  have call {k : Nat} {d : TtsCall} (hd : w'.tts[k]? = some d) :
      ∃ c, w.tts[k]? = some c ∧ c.job = d.job ∧ c.stream.consumed = d.stream.consumed := by
    have hget := congrArg (·[k]?) hs.tts
    simp only [List.getElem?_map, hd, Option.map_some] at hget
    obtain ⟨c, hc, hcd⟩ := Option.map_eq_some_iff.mp hget.symm
    exact ⟨c, hc, congrArg Prod.fst hcd, congrArg Prod.snd hcd⟩
  have hlen : w'.tts.length = w.tts.length := by simpa using congrArg List.length hs.tts
  have hjobs : w'.tts.map TtsCall.job = w.tts.map TtsCall.job := by
    simpa [List.map_map, Function.comp_def] using congrArg (List.map Prod.fst) hs.tts
  constructor
  case known => rw [ha, hlen]; exact hw.known
  case ordered => rw [ha]; exact hw.ordered
  case jobs =>
    rw [hjobs, hs.taken]
    exact (hj.append_left _).trans hw.jobs
  case turns =>
    intro d hd
    obtain ⟨k, hk⟩ := List.mem_iff_getElem?.mp hd
    obtain ⟨c, hc, hjob, -⟩ := call hk
    exact hjob ▸ (hw.turns c (List.mem_of_getElem? hc)).trans hs.turn
  case begun =>
    intro next hnext
    rcases hb next hnext with hnext | hle
    · exact (hw.begun next hnext).trans hs.turn
    · exact hle.trans hs.turn
  case calls =>
    intro k d hd
    obtain ⟨c, hc, hjob, hheard⟩ := call hd
    have hspeaks := hw.calls k c hc
    have hturn := hw.turns c (List.mem_of_getElem? hc)
    rw [← hjob, ← hheard]
    rcases hi k c hc with hi | ⟨hi, hover⟩
    · exact hspeaks.mono (by rw [ha, hi]) fun hun ↦
        hun.of_le (hp k) hturn hs.turn hs.cancelled
    · exact hspeaks.drop ha hi hover

private theorem Spoken.opened {next : TtsJob} {voice : String} (hw : Spoken w)
    (hp : w.ttsWorker = .opening next voice) : Spoken { w with
      tts := w.tts ++ [TtsCall.opened next voice], ttsWorker := .job w.tts.length .publish } := by
  constructor
  case known =>
    intro x hx
    have := hw.known x hx
    simp only [List.length_append, List.length_singleton]
    omega
  case ordered => exact hw.ordered
  case jobs => simpa [hp, TtsCall.opened] using hw.jobs
  case turns => exact List.forall_mem_concat hw.turns (hw.begun next (by simp [hp]))
  case begun => simp
  case calls =>
    intro k c hc
    rcases List.getElem?_concat_eq_some.mp hc with hc | ⟨rfl, rfl⟩
    · refine (hw.calls k c hc).mono ?_ fun hun ↦ ?_
      · simp [World.audio, World.puts, World.inHand, hp]
      · have hlt := (List.getElem?_eq_some_iff.mp hc).1
        refine hun.of_le (fun pc hpc ↦ ?_) (hw.turns c (List.mem_of_getElem? hc)) le_rfl id
        obtain ⟨rfl, -⟩ := TtsPc.job.inj hpc
        exact absurd hlt (Nat.lt_irrefl _)
    · have hnone : framesOf w.tts.length w.audio = [] :=
        framesOf_eq_nil fun x hx ↦ Nat.ne_of_lt (hw.known x hx)
      have hempty : framesOf w.tts.length (World.audio { w with
          tts := w.tts ++ [TtsCall.opened next voice]
          ttsWorker := .job w.tts.length .publish }) ++ World.inHand { w with
          tts := w.tts ++ [TtsCall.opened next voice]
          ttsWorker := .job w.tts.length .publish } w.tts.length = [] := by
        change framesOf w.tts.length w.audio ++
          (if w.tts.length = w.tts.length then [] else []) = []
        rw [hnone, if_pos rfl, List.append_nil]
      exact ⟨hempty ▸ List.nil_prefix, fun _ ↦ hempty⟩

private theorem Spoken.take {k : Nat} {c : TtsCall} {sent : Bool} {chunk : AudioChunk}
    {s : TtsStream} (hw : Spoken w) (hp : w.ttsWorker = .job k (.ranging sent))
    (hc : w.tts[k]? = some c) (hs : c.stream.next? = some (chunk, s)) : Spoken { w with
      tts := w.tts.modify k fun c ↦ { c with stream := s }
      ttsWorker := .job k (.check sent chunk) } := by
  have hjobs : (w.tts.modify k fun c ↦ { c with stream := s }).map TtsCall.job =
      w.tts.map TtsCall.job := List.map_modify_of_eq fun _ _ ↦ rfl
  constructor
  case known =>
    intro x hx
    rw [List.length_modify]
    exact hw.known x hx
  case ordered => exact hw.ordered
  case jobs => simpa [hp, hjobs] using hw.jobs
  case turns =>
    intro d hd
    obtain ⟨l, hl⟩ := List.mem_iff_getElem?.mp hd
    rcases List.getElem?_modify_eq_some.mp hl with ⟨-, hl⟩ | ⟨rfl, e, he, rfl⟩
    · exact hw.turns d (List.mem_of_getElem? hl)
    · exact hw.turns e (List.mem_of_getElem? he)
  case begun => simp
  case calls =>
    intro l d hd
    rcases List.getElem?_modify_eq_some.mp hd with ⟨hne, hd⟩ | ⟨rfl, e, he, rfl⟩
    · refine (hw.calls l d hd).mono ?_ fun hun ↦ ?_
      · simp [World.audio, World.puts, World.inHand, hp, Ne.symm hne]
      · refine hun.of_le (fun pc hpc ↦ ?_) (hw.turns d (List.mem_of_getElem? hd)) le_rfl id
        obtain ⟨rfl, -⟩ := TtsPc.job.inj hpc
        exact absurd rfl hne
    · obtain rfl : c = e := Option.some.inj (hc.symm.trans he)
      -- as long as the job is in hand it has given up nothing
      have hframes := (hw.calls l c hc).whole (.inl ⟨_, hp⟩)
      simp only [World.inHand, hp, if_pos, JobPc.inHand, List.append_nil] at hframes
      have hdata : s.consumed.filterMap AudioChunk.data? =
          c.stream.consumed.filterMap AudioChunk.data? ++ chunk.data?.toList := by
        rw [Stream.consumed_next? hs, List.filterMap_append]
        cases chunk <;> rfl
      have hspoken : framesOf l (World.audio { w with
          tts := w.tts.modify l fun c ↦ { c with stream := s }
          ttsWorker := .job l (.check sent chunk) }) ++ chunk.data?.toList =
          s.consumed.filterMap AudioChunk.data? := by
        rw [hdata, ← hframes]
        rfl
      refine ⟨?_, fun _ ↦ ?_⟩
      · simpa [World.inHand] using hspoken ▸ List.prefix_rfl
      · simpa [World.inHand] using hspoken

private theorem Spoken.sendAudio (hr : system.Reachable w) {k : Nat} {data : List UInt8}
    {q : Chan Put 32} (hw : Spoken w) (hp : w.ttsWorker = .job k (.sendAudio data))
    (hq : q.items = w.send.items ++ [⟨.binary data, .synthesizeAndSend k⟩]) :
    Spoken { w with send := q, ttsWorker := .job k (.ranging true) } := by
  have haudio : World.audio { w with send := q, ttsWorker := .job k (.ranging true) } =
      w.audio ++ [(k, data)] := by
    simp [World.audio, World.puts, hq]
  have hnewest := newest_of_job hr hp
  constructor
  case known =>
    rw [haudio]
    refine List.forall_mem_concat hw.known ?_
    change k < w.tts.length
    omega
  case ordered =>
    rw [haudio, List.map_append, List.map_singleton, List.pairwise_append]
    refine ⟨hw.ordered, List.pairwise_singleton _ _, fun l hl m hm ↦ ?_⟩
    obtain ⟨x, hx, rfl⟩ := List.mem_map.mp hl
    obtain rfl := List.mem_singleton.mp hm
    have hlt := hw.known x hx
    omega
  case jobs => simpa [hp] using hw.jobs
  case turns => exact hw.turns
  case begun => simp
  case calls =>
    intro l d hd
    have hframes : framesOf l (World.audio { w with
        send := q, ttsWorker := .job k (.ranging true) }) ++ World.inHand { w with
        send := q, ttsWorker := .job k (.ranging true) } l =
        framesOf l w.audio ++ w.inHand l := by
      rw [haudio, framesOf_append]
      by_cases hl : k = l
      · simp [World.inHand, hp, hl, framesOf]
      · simp [World.inHand, hp, hl, framesOf]
    refine (hw.calls l d hd).mono hframes fun hun ↦ ?_
    refine hun.of_le (fun pc hpc ↦ ?_) (hw.turns d (List.mem_of_getElem? hd)) le_rfl id
    obtain ⟨rfl, -⟩ := TtsPc.job.inj hpc
    exact ⟨_, hp⟩

private theorem sameJobs_move {send : Chan Put 32} {dropped : List (ControlMessage × Nat)}
    {active : Option Nat} {pc : TtsPc} : SameJobs w { w with
      send := send, dropped := dropped, activeTTSStream := active, ttsWorker := pc } :=
  ⟨rfl, rfl, Nat.le_refl _, id⟩

private theorem Spoken.goto {k : Nat} {pc pc' : JobPc} (hw : Spoken w)
    (hp : w.ttsWorker = .job k pc) (hp' : w'.ttsWorker = .job k pc') (ha : w'.audio = w.audio)
    (hs : SameJobs w w') (hi : pc'.inHand = pc.inHand) : Spoken w' := by
  refine hw.quiet ha hs (fun l pc hpc ↦ ?_) (fun l c _ ↦ .inl ?_) ?_ ?_
  · obtain ⟨rfl, -⟩ := TtsPc.job.inj (hp'.symm.trans hpc)
    exact ⟨_, hp⟩
  · simp only [World.inHand, hp, hp', hi]
  · simp [hp']
  · simp [hp']

private theorem Spoken.leave (hw : Spoken w) (pc : TtsPc) (hp : w'.ttsWorker = pc)
    (ha : w'.audio = w.audio) (hs : SameJobs w w') (hout : ∀ k jpc, pc ≠ .job k jpc)
    (hi : ∀ (k : Nat) (c : TtsCall), w.tts[k]? = some c → w.inHand k = [] ∨
      c.job.turn ≠ w'.currentTurn ∨ w'.cancelled = true)
    (hj : pc.unopened.Sublist w.ttsWorker.unopened)
    (hb : ∀ next, pc.begun = some next →
      w.ttsWorker.begun = some next ∨ next.turn ≤ w.currentTurn) : Spoken w' := by
  have hnone (k : Nat) : w'.inHand k = [] := by
    unfold World.inHand
    split
    · next l jpc hpc => exact absurd (hp.symm.trans hpc) (hout l jpc)
    · rfl
  refine hw.quiet ha hs (fun k jpc hpc ↦ absurd (hp.symm.trans hpc) (hout k jpc))
    (fun k c hc ↦ ?_) (hp ▸ hj) (fun next hnext ↦ hb next (hp ▸ hnext))
  rcases hi k c hc with hi | hover
  · exact .inl ((hnone k).trans hi.symm)
  · refine .inr ⟨hnone k, ?_⟩
    rintro (⟨jpc, hpc⟩ | ⟨hturn, hcancel⟩)
    · exact hout k jpc (hp.symm.trans hpc)
    · rcases hover with hover | hover
      · exact hover hturn
      · exact absurd hover (by simp [hcancel])

private theorem Spoken.ttsWorkerStep {a : TtsAction} (hr : system.Reachable w) (hw : Spoken w)
    (h : w.ttsWorkerStep a = some w') : Spoken w' := by
  -- nothing is in hand at the statements between the jobs
  have idle (hn : ∀ k pc, w.ttsWorker ≠ .job k pc) (k : Nat) : w.inHand k = [] := by
    unfold World.inHand
    split
    · next l pc hpc => exact absurd hpc (hn l pc)
    · rfl
  have empty {l : Nat} {pc : JobPc} (hp : w.ttsWorker = .job l pc) (hi : pc.inHand = [])
      (k : Nat) : w.inHand k = [] := by
    simp only [World.inHand, hp, hi, ite_self]
  cases ttsStep_of_ttsWorkerStep h with
  | dequeue next q hp hq =>
    refine ⟨hw.known, hw.ordered, fun k c hc ↦ (hw.calls k c hc).mono ?_ fun hun ↦ ?_, ?_,
      hw.turns, by simp⟩
    · simp [World.inHand, hp, World.audio, World.puts]
    · exact hun.of_le (fun pc hpc ↦ by cases hpc) (hw.turns c (List.mem_of_getElem? hc)) le_rfl id
    · have hjobs := hw.jobs
      simp only [hp, TtsPc.unopened, List.append_nil] at hjobs
      exact hjobs.append (List.Sublist.refl [next])
  | opened next voice hp => exact hw.opened hp
  | take k c sent chunk s hp hc hs => exact hw.take hp hc hs
  | sendAudio k c data q hp hc hq => exact hw.sendAudio hr hp (Chan.send?_eq_some.mp hq).2
  | recheckPassed k c hp hc ht =>
    exact hw.goto hp rfl rfl ⟨List.map_modify_of_eq fun _ _ ↦ rfl, rfl, le_rfl, id⟩ rfl
  | store k c hp hc =>
    exact hw.goto hp rfl rfl ⟨List.map_modify_of_eq fun _ _ ↦ rfl, rfl, le_rfl, id⟩ rfl
  | closeStale k c hp hc =>
    exact hw.leave .idle rfl rfl ⟨List.map_modify_of_eq fun _ _ ↦ rfl, rfl, le_rfl, id⟩
      (by simp) (fun l _ _ ↦ .inl (empty hp rfl l)) (List.nil_sublist _) (by simp)
  | recheckFailed k c hp | rangeOver k c sent hp =>
    exact hw.goto hp rfl rfl sameJobs_move rfl
  | gotError k c sent code message hp => exact hw.goto hp rfl rfl sameJobs_move rfl
  | gotAudio k c sent data format hp =>
    exact hw.goto hp rfl rfl sameJobs_move (by cases sent <;> rfl)
  | sendText k c data format b v hp hc hv | sendFormat k c data format b v hp hc hv =>
    have haudio := sendJSON_audio hv
    obtain ⟨send, dropped, rfl, -⟩ := sendJSON_eq_some hv
    exact hw.goto hp rfl haudio sameJobs_move rfl
  | report k c code message b v hp hc hv =>
    have haudio := sendJSON_audio hv
    obtain ⟨send, dropped, rfl, -⟩ := sendJSON_eq_some hv
    exact hw.leave .idle rfl haudio sameJobs_move (by simp)
      (fun l _ _ ↦ .inl (empty hp rfl l)) (List.nil_sublist _) (by simp)
  | openFailed next b v hp hv =>
    have haudio := sendJSON_audio hv
    obtain ⟨send, dropped, rfl, -⟩ := sendJSON_eq_some hv
    exact hw.leave .idle rfl haudio sameJobs_move (by simp)
      (fun l _ _ ↦ .inl (idle (by simp [hp]) l)) (List.nil_sublist _) (by simp)
  | clear k c hp =>
    exact hw.leave .idle rfl rfl sameJobs_move (by simp)
      (fun l _ _ ↦ .inl (empty hp rfl l)) (List.nil_sublist _) (by simp)
  | stopStale k c sent chunk hp hc ht =>
    refine hw.leave .idle rfl rfl sameJobs_move (by simp) (fun l d hd ↦ ?_)
      (List.nil_sublist _) (by simp)
    by_cases hl : k = l
    · subst hl
      obtain rfl : c = d := Option.some.inj (hc.symm.trans hd)
      exact .inr (.inl (Ne.symm ht))
    · exact .inl (by simp [World.inHand, hp, hl])
  | sendDone k c data hp hc hd =>
    exact hw.leave .idle rfl rfl sameJobs_move (by simp) (fun l _ _ ↦ .inr (.inr hd))
      (List.nil_sublist _) (by simp)
  | quit hp =>
    exact hw.leave .done rfl rfl sameJobs_move (by simp)
      (fun l _ _ ↦ .inl (idle (by simp [hp]) l)) (List.nil_sublist _) (by simp)
  | skipJob next hp =>
    exact hw.leave .idle rfl rfl sameJobs_move (by simp)
      (fun l _ _ ↦ .inl (idle (by simp [hp]) l)) (List.nil_sublist _) (by simp)
  | startJob next hp ht =>
    refine hw.leave (.synthesize next) rfl rfl sameJobs_move (by simp)
      (fun l _ _ ↦ .inl (idle (by simp [hp]) l)) (by simp [hp]) ?_
    rintro _ ⟨⟩
    exact .inr (Nat.le_of_eq ht.symm)
  | loadVoice next hp =>
    exact hw.leave (.opening next w.getVoice) rfl rfl sameJobs_move (by simp)
      (fun l _ _ ↦ .inl (idle (by simp [hp]) l)) (by simp [hp]) (by simp [hp])
  | openError next voice hp =>
    exact hw.leave (.openFailed next) rfl rfl sameJobs_move (by simp)
      (fun l _ _ ↦ .inl (idle (by simp [hp]) l)) (by simp [hp]) (by simp)

/-- In every run. -/
theorem spoken_of_reachable (hr : system.Reachable w) : Spoken w := by
  refine hr.invariant (I := Spoken) ?_ fun w a w' hr hw h ↦ ?_
  · constructor <;> simp [system, World.new, World.audio, World.puts]
  · by_cases ha : ∃ b, a = .ttsWorker b
    · obtain ⟨b, rfl⟩ := ha
      exact Spoken.ttsWorkerStep hr hw h
    · have hne : ∀ b, a ≠ .ttsWorker b := fun b hb ↦ ha ⟨b, hb⟩
      obtain ⟨hworker, -, new, hp, hn⟩ := step_samePlayback h hne
      refine hw.quiet (audio_of_silent hp hn) (step_sameJobs h hne)
        (fun k pc hpc ↦ ⟨pc, hworker ▸ hpc⟩) (fun k c _ ↦ .inl ?_) ?_ ?_
      · simp only [World.inHand, hworker]
      · rw [hworker]
      · rw [hworker]
        exact fun _ hnext ↦ .inl hnext

/-! ### Only jobs put audio, and only what they were sent -/

private theorem sendJSON_data {v : World} {o : Origin} {m : ControlMessage} {b : Branch}
    (h : w.sendJSON o m b = some v) :
    v.puts.filterMap Put.data? = w.puts.filterMap Put.data? := by
  obtain ⟨send, dropped, rfl, hs⟩ := sendJSON_eq_some h
  rcases hs with ⟨hs, -⟩ | ⟨rfl, -⟩ | ⟨rfl, -⟩
  · simp [World.puts, hs, Put.data?]
  · rfl
  · rfl

/-- Every binary frame is one of `synthesizeAndSend`. -/
theorem data_of_reachable (hr : system.Reachable w) :
    w.puts.filterMap Put.data? = w.audio.map Prod.snd := by
  refine hr.invariant (I := fun w ↦ w.puts.filterMap Put.data? = w.audio.map Prod.snd) rfl
    fun w a w' _ hw h ↦ ?_
  have same (hd : w'.puts.filterMap Put.data? = w.puts.filterMap Put.data?)
      (ha : w'.audio = w.audio) : w'.puts.filterMap Put.data? = w'.audio.map Prod.snd := by
    rw [hd, ha, hw]
  by_cases ha : ∃ b, a = .ttsWorker b
  · obtain ⟨b, rfl⟩ := ha
    cases ttsStep_of_ttsWorkerStep h with
    | sendAudio k c data q hp hc hq =>
      have hitems := (Chan.send?_eq_some.mp hq).2
      simp only [World.audio, World.puts] at hw ⊢
      rw [hitems, ← List.append_assoc, List.filterMap_append, hw]
      simp [Put.data?]
    | openFailed _ _ _ _ hv | report _ _ _ _ _ _ _ _ hv | sendText _ _ _ _ _ _ _ _ hv
    | sendFormat _ _ _ _ _ _ _ _ hv =>
      have hdata := sendJSON_data hv
      have haudio := sendJSON_audio hv
      exact same hdata haudio
    | quit | dequeue | skipJob | startJob | loadVoice | opened | openError | recheckFailed
    | recheckPassed | store | closeStale | take | rangeOver | stopStale | gotError | gotAudio
    | sendDone | clear => exact same rfl rfl
  · obtain ⟨-, -, new, hp, hn⟩ := step_samePlayback h fun b hb ↦ ha ⟨b, hb⟩
    refine same ?_ (audio_of_silent hp hn)
    have hnone : new.filterMap Put.data? = [] := by
      refine List.filterMap_eq_nil_iff.mpr fun p hmem ↦ ?_
      unfold Put.data?
      split
      · next data hdata => exact absurd hdata ((hn p hmem).2 data)
      · rfl
    rw [hp, List.filterMap_append, hnone, List.append_nil]

/-- The tts streams relay what the service sends. -/
theorem ttsRelays_of_reachable (hr : system.Reachable w) {k : Nat} {c : TtsCall}
    (hc : w.tts[k]? = some c) : c.stream.Relays ttsPump := by
  refine hr.invariant (I := fun w ↦ ∀ c ∈ w.tts, c.stream.Relays ttsPump)
    (fun c hc ↦ by cases hc) (fun w a w' _ hw h ↦ ?_) c (List.mem_of_getElem? hc)
  have modify {l : Nat} {g : TtsCall → TtsCall}
      (hg : ∀ c, w.tts[l]? = some c → c.stream.Relays ttsPump → (g c).stream.Relays ttsPump) :
      ∀ c ∈ w.tts.modify l g, c.stream.Relays ttsPump := by
    intro d hd
    obtain ⟨i, hi⟩ := List.mem_iff_getElem?.mp hd
    rcases List.getElem?_modify_eq_some.mp hi with ⟨-, hi⟩ | ⟨rfl, c, hc, rfl⟩
    · exact hw d (List.mem_of_getElem? hi)
    · exact hg c hc (hw c (List.mem_of_getElem? hc))
  cases a with
  | ttsWorker b =>
    cases ttsStep_of_ttsWorkerStep h with
    | opened next voice hp => exact List.forall_mem_concat hw Stream.relays_opened
    | recheckPassed | store => exact modify fun c _ hc ↦ hc
    | closeStale => exact modify fun c _ hc ↦ hc.close
    | take l c sent chunk s hp hc hs =>
      refine modify fun d hd hrel ↦ ?_
      obtain rfl : c = d := Option.some.inj (hc.symm.trans hd)
      exact hrel.next? hs
    | openFailed _ _ _ _ hv | report _ _ _ _ _ _ _ _ hv | sendText _ _ _ _ _ _ _ _ hv
    | sendFormat _ _ _ _ _ _ _ _ hv =>
      obtain ⟨send, dropped, rfl, -⟩ := sendJSON_eq_some hv
      exact hw
    | quit | dequeue | skipJob | startJob | loadVoice | openError | recheckFailed | rangeOver
    | stopStale | gotError | gotAudio | sendAudio | sendDone | clear => exact hw
  | readPump b =>
    cases readPump_effect h with
    | own _ _ _ _ _ _ _ _ _ _ hw' | cutLLM _ _ _ _ hw' | cutJob _ _ _ _ _ _ hw' =>
      subst hw'
      exact hw
    | cutTTS turn l b hr hw' =>
      subst hw'
      exact modify fun c _ hc ↦ hc.close
    | report _ _ _ v _ hs hw' | notify _ _ v _ hs hw' =>
      obtain ⟨send, dropped, rfl, -⟩ := sendJSON_eq_some hs
      subst hw'
      exact hw
  | ttsRecvPump l b =>
    obtain ⟨c, s, hc, hs, rfl⟩ := ttsRecvPump_eq_some h
    refine modify fun d hd hrel ↦ ?_
    obtain rfl : c = d := Option.some.inj (hc.symm.trans hd)
    exact hrel.recvPump hs
  | audioSendWorker b =>
    obtain ⟨send, dropped, queue, pc, i, g, rfl, -⟩ := audioSendWorker_footprint h
    exact hw
  | forwardTranscripts i b =>
    obtain ⟨c, send, dropped, active, llm, g, -, rfl, -⟩ := forwardTranscripts_footprint h
    exact hw
  | forwardLLMEvents j b =>
    obtain ⟨send, dropped, active, queue, history, answered, g, rfl, -⟩ :=
      forwardLLMEvents_footprint h
    exact hw
  | sttRecvPump i b =>
    obtain ⟨c, s, -, -, rfl⟩ := sttRecvPump_eq_some h
    exact hw
  | llmRecvPump j b =>
    obtain ⟨c, s, -, -, rfl⟩ := llmRecvPump_eq_some h
    exact hw
  | write =>
    obtain ⟨send, written, hw', -⟩ := write_eq_some h
    subst hw'
    exact hw
  | stopWriting =>
    obtain rfl := stopWriting_eq_some h
    exact hw

private theorem filterMap_mapEvent (ms : List Proto.TtsAudioChunkMsg) :
    (ms.map ttsPump.mapEvent).filterMap AudioChunk.data? = ms.map (·.data) := by
  induction ms with
  | nil => rfl
  | cons m ms ih => simpa [ttsPump, mapAudioChunk] using ih

/-- What a job hears is audio the service sent, from the first on. -/
theorem heard_of_relays {s : TtsStream} (hs : s.Relays ttsPump) :
    s.consumed.filterMap AudioChunk.data? <+: s.received.map (·.data) := by
  rw [← filterMap_mapEvent]
  exact hs.filterMap_consumed fun _ _ ↦ rfl

/-- A job that has read its stream to the end has heard everything the service sent. -/
theorem heard_of_rangeOver {s : TtsStream} (hs : s.Relays ttsPump) (ho : s.rangeOver)
    (he : s.ending ≠ some .contextDone) :
    s.consumed.filterMap AudioChunk.data? = s.received.map (·.data) := by
  have hin : s.inHand = [] := by
    have hclosed := ho.1
    unfold Stream.eventsClosed at hclosed
    unfold Stream.inHand
    split at hclosed
    · next r hp => rw [hp]
    · cases hclosed
  rw [Stream.consumed_of_rangeOver ho, ← filterMap_mapEvent]
  unfold Stream.Relays at hs
  split at hs
  · obtain ⟨code, message, hs⟩ := hs
    rw [hs, List.filterMap_append]
    exact List.append_nil _
  · next hdone => exact absurd hdone he
  · rw [← hs, hin, List.append_nil]

end

/-- In every run: the binary frames a session has put on `s.send` are its jobs' audio, one job after
another, the jobs in the order in which they were taken up. Each job has put the beginning of what
the tts service has sent for it, nothing twice or out of order; and as long as nothing has made the
job give up, a job that has read its stream to the end has put all of it but what it has in hand. -/
theorem audio_relayed (w : World) (hr : system.Reachable w) :
    w.puts.filterMap Put.data? = w.audio.map Prod.snd ∧
    (w.audio.map Prod.fst).Pairwise (· ≤ ·) ∧ (w.tts.map TtsCall.job).Sublist w.taken ∧
    ∀ (k : Nat) (c : TtsCall), w.tts[k]? = some c →
      framesOf k w.audio <+: c.stream.received.map (·.data) ∧
      (w.Unspoiled k c.job.turn → c.stream.rangeOver → c.stream.ending ≠ some .contextDone →
        framesOf k w.audio ++ w.inHand k = c.stream.received.map (·.data)) := by
  have hs := spoken_of_reachable hr
  refine ⟨data_of_reachable hr, hs.ordered, (List.sublist_append_left _ _).trans hs.jobs,
    fun k c hc ↦ ?_⟩
  have hrelays := ttsRelays_of_reachable hr hc
  obtain ⟨hbegin, hwhole⟩ := hs.calls k c hc
  refine ⟨?_, fun hun ho he ↦ ?_⟩
  · exact ((List.prefix_append _ _).trans hbegin).trans (heard_of_relays hrelays)
  · rw [hwhole hun, heard_of_rangeOver hrelays ho he]

/-- A job whose first frame waits on `s.send` while its stream has come to the end. -/
theorem audio_relayed_spoken : ∃ (w : World) (c : TtsCall), w.tts[0]? = some c ∧
    w.audio = [(0, [1, 2])] ∧ (w.tts.map TtsCall.job).Sublist w.taken ∧
    framesOf 0 w.audio ++ w.inHand 0 = c.stream.received.map (·.data) := by
  have hw : ∃ w c, system.run (startActions ++ finalActions 0 "hi" ++
      [Action.forwardTranscripts 0 .next] ++ chunkActions 0 "Hello." ++
      speakActions 0 ⟨[1, 2], 22050, 1, 2⟩ ++ List.replicate 3 (Action.ttsWorker (.select .put)) ++
      [.ttsRecvPump 0 .eof, .ttsRecvPump 0 .next]) = some w ∧ w.tts[0]? = some c ∧
      w.audio = [(0, [1, 2])] ∧ c.stream.rangeOver ∧ c.stream.ending = some .eof ∧
      c.job.turn = w.currentTurn ∧
      w.cancelled = false := ⟨_, _, rfl, rfl, rfl, ⟨rfl, rfl⟩, rfl, rfl, rfl⟩
  obtain ⟨w, c, hrun, hc, haudio, hover, heof, hturn, hcancel⟩ := hw
  obtain ⟨-, -, hjobs, hcalls⟩ := audio_relayed w (TransitionSystem.reachable_of_run hrun)
  have hwhole := (hcalls 0 c hc).2 (.inr ⟨hturn, hcancel⟩) hover (by simp [heof])
  exact ⟨w, c, hc, haudio, hjobs, hwhole⟩

end BibiCore.Session
