import Mathlib.Data.List.Flatten
import BibiCore.Llm.Rebuild
import BibiCore.Session.Chunks
import BibiCore.Session.SpokenAudio

/-!
# The words a session shows

The text of an answer on its way to the client: `StreamChat` yields it in chunks,
`forwardLLMEvents` makes a job of each, `ttsWorker` takes the jobs up, and `synthesizeAndSend` puts
a job's text on `s.send` before its first audio, `session.go:404`–`525`. Chunks are lost on the
way when a queue is full or a turn is over; none is shown twice, out of order or in another turn.
-/

namespace BibiCore.Session

open BibiCore.Gateway World

/-! ### From chunks to jobs -/

/-- What a goroutine has offered or has in hand are chunks it took, and the jobs of a stream that
are left are chunks it has offered, all in order. -/
structure Offered (w : World) : Prop where
  chunks : ∀ (j : Nat) (c : LlmCall), w.llm[j]? = some c →
    (c.offered.map Prod.fst ++ c.inHand).Sublist c.chunks
  jobs : ∀ (j : Nat) (c : LlmCall), w.llm[j]? = some c →
    (jobsOf j w.kept).Sublist (c.offered.map fun offer ↦ c.job j offer.1)
  known : ∀ job ∈ w.kept, job.llm < w.llm.length

section

variable {w w' : World}

private theorem Offered.of_same (hw : Offered w) (h : SameChunks w w') : Offered w' where
  chunks j d hd := by
    rcases h.calls j d hd with ⟨c, hc, hch, hof, hin, -⟩ | ⟨-, hch, hof, hin⟩
    · rw [← hch, ← hof, ← hin]
      exact hw.chunks j c hc
    · rw [hch, hof, hin]
      exact List.Sublist.refl _
  jobs j d hd := by
    rw [h.kept]
    rcases h.calls j d hd with ⟨c, hc, -, hof, -, hct⟩ | ⟨rfl, -, hof, -⟩
    · have hjob : d.job j = c.job j := by
        funext text
        rw [LlmCall.job, LlmCall.job, hct]
      rw [← hof, hjob]
      exact hw.jobs j c hc
    · rw [hof, jobsOf, List.filter_eq_nil_iff.mpr]
      · exact List.Sublist.refl _
      · intro job hjob
        have := hw.known job hjob
        simp only [decide_eq_true_eq]
        omega
  known job hjob := by
    rw [h.kept] at hjob
    exact Nat.lt_of_lt_of_le (hw.known job hjob) h.length

private theorem Offered.modify {j : Nat} {c : LlmCall} {g : LlmCall → LlmCall}
    (new more : List String) (hw : Offered w) (hc : w.llm[j]? = some c)
    (hl : w'.llm = w.llm.modify j g) (hturn : (g c).turn = c.turn)
    (hkept : w'.kept = w.kept ++ new.map (c.job j)) (hnew : new.Sublist more)
    (hoffered : (g c).offered.map Prod.fst = c.offered.map Prod.fst ++ more)
    (hchunks : ((g c).offered.map Prod.fst ++ (g c).inHand).Sublist (g c).chunks) : Offered w' := by
  have cases (k : Nat) (d : LlmCall) (h : w'.llm[k]? = some d) :
      k ≠ j ∧ w.llm[k]? = some d ∨ k = j ∧ d = g c := by
    rw [hl] at h
    rcases List.getElem?_modify_eq_some.mp h with h | ⟨hk, c', hc', rfl⟩
    · exact .inl h
    · exact .inr ⟨hk, by rw [Option.some.inj (hc.symm.trans hc')]⟩
  have texts (c : LlmCall) : (c.offered.map fun offer ↦ c.job j offer.1) =
      (c.offered.map Prod.fst).map (c.job j) := by
    rw [List.map_map]
    rfl
  refine ⟨fun k d h ↦ ?_, fun k d h ↦ ?_, fun job hjob ↦ ?_⟩
  · rcases cases k d h with ⟨-, h⟩ | ⟨rfl, rfl⟩
    · exact hw.chunks k d h
    · exact hchunks
  · rw [hkept, jobsOf, List.filter_append]
    rcases cases k d h with ⟨hne, h⟩ | ⟨rfl, rfl⟩
    · have hnone : (new.map (c.job j)).filter (·.llm = k) = [] := by
        rw [List.filter_eq_nil_iff]
        intro job hjob
        obtain ⟨text, -, rfl⟩ := List.mem_map.mp hjob
        exact fun h ↦ hne (of_decide_eq_true h).symm
      rw [hnone, List.append_nil]
      exact hw.jobs k d h
    · have hjob : (g c).job k = c.job k := by
        funext text
        rw [LlmCall.job, LlmCall.job, hturn]
      have hall : (new.map (c.job k)).filter (·.llm = k) = new.map (c.job k) := by
        rw [List.filter_eq_self]
        intro job hjob
        obtain ⟨text, -, rfl⟩ := List.mem_map.mp hjob
        simp [LlmCall.job]
      rw [hall, texts, hoffered, List.map_append, hjob, ← texts]
      exact (hw.jobs k c hc).append (hnew.map _)
  · rw [hkept] at hjob
    rw [hl, List.length_modify]
    rcases List.mem_append.mp hjob with hjob | hjob
    · exact hw.known job hjob
    · obtain ⟨text, -, rfl⟩ := List.mem_map.mp hjob
      exact (List.getElem?_eq_some_iff.mp hc).1

private theorem Offered.forwardLLMEvents {j : Nat} {a : LlmEventsAction} (hw : Offered w)
    (h : w.forwardLLMEvents j a = some w') : Offered w' := by
  obtain ⟨c, hc, hstep⟩ := llmEventsStep_of_forwardLLMEvents h
  have hch := hw.chunks j c hc
  -- a step that offers nothing
  have quiet {w' : World} {g : LlmCall → LlmCall} (hl : w'.llm = w.llm.modify j g)
      (hk : w'.kept = w.kept) (hturn : (g c).turn = c.turn) (hof : (g c).offered = c.offered)
      (hin : (c.offered.map Prod.fst ++ (g c).inHand).Sublist (g c).chunks) : Offered w' :=
    hw.modify [] [] hc hl hturn (by simp [hk]) (List.Sublist.refl _) (by simp [hof])
      (by rwa [hof])
  have hoffer {text : String} {waiting : Nat} (hp : c.forwarder = .handle (.chunk text)) :
      ((c.offer text waiting).offered.map Prod.fst ++ (c.offer text waiting).inHand).Sublist
        (c.offer text waiting).chunks := by
    simpa [LlmCall.chunks, LlmCall.inHand, LlmCall.offer, ChatEvent.text?, hp] using hch
  cases hstep with
  | take event s hp hs =>
    refine quiet rfl rfl rfl rfl ?_
    have hold : (c.offered.map Prod.fst).Sublist c.chunks :=
      (List.sublist_append_left _ _).trans hch
    simpa [LlmCall.chunks, LlmCall.inHand, Stream.consumed_next? hs] using
      hold.append (List.Sublist.refl ([event].filterMap ChatEvent.text?))
  | rangeOver hp =>
    refine quiet rfl rfl rfl rfl ?_
    simpa [LlmCall.inHand, LlmCall.chunks, LlmCall.finish, hp] using hch
  | stale event hp ht =>
    refine quiet rfl rfl rfl rfl ?_
    simpa [LlmCall.inHand, LlmCall.chunks, LlmCall.finish] using
      (List.sublist_append_left _ _).trans hch
  | pass event hp ht =>
    refine quiet rfl rfl rfl rfl ?_
    simpa [LlmCall.inHand, LlmCall.chunks, hp] using hch
  | enqueue text q hp hq =>
    obtain ⟨-, hitems⟩ := Chan.send?_eq_some.mp hq
    exact hw.modify [text] [text] hc rfl rfl (by simp [World.kept, hitems, LlmCall.job])
      (List.Sublist.refl _) (by simp [LlmCall.offer]) (hoffer hp)
  | dropChunk text hp hq =>
    exact hw.modify [] [text] hc rfl rfl (by simp [World.kept]) (List.nil_sublist _)
      (by simp [LlmCall.offer]) (hoffer hp)
  | complete hp =>
    refine quiet rfl rfl rfl rfl ?_
    simpa [LlmCall.inHand, LlmCall.chunks, LlmCall.settle, ChatEvent.text?, List.filterMap_cons,
      hp] using hch
  | report code message b v hp hv =>
    obtain ⟨send, dropped, rfl, -⟩ := sendJSON_eq_some hv
    refine quiet rfl rfl rfl rfl ?_
    simpa [LlmCall.inHand, LlmCall.chunks, LlmCall.settle, ChatEvent.text?, List.filterMap_cons,
      hp] using hch

private theorem Offered.readPump {a : ReadAction} (hw : Offered w) (h : w.readPump a = some w') :
    Offered w' := by
  cases readPump_effect h with
  | own _ _ _ _ _ _ _ _ _ _ h _ _ ht =>
    subst h
    exact hw.of_same (sameChunks_of_eq ht rfl rfl rfl)
  | report _ _ _ _ _ hs h | notify _ _ _ _ hs h =>
    obtain ⟨send, dropped, rfl, -⟩ := sendJSON_eq_some hs
    subst h
    exact hw.of_same (sameChunks_of_eq (Nat.le_refl _) rfl rfl rfl)
  | cutLLM turn j tts hr h =>
    subst h
    exact hw.of_same (sameChunks_modify rfl rfl rfl rfl fun _ _ ↦ ⟨rfl, rfl, rfl, rfl⟩)
  | cutTTS turn k b hr h =>
    subst h
    exact hw.of_same (sameChunks_of_eq (Nat.le_refl _) rfl rfl rfl)
  | cutJob turn b job q hr hq h =>
    subst h
    have hless : (w.taken ++ q.items).Sublist w.kept := by
      rw [World.kept, hq]
      exact (List.Sublist.refl _).append (List.sublist_cons_self job q.items)
    exact ⟨hw.chunks, fun j c hc ↦ (hless.filter _).trans (hw.jobs j c hc),
      fun job hjob ↦ hw.known job (hless.subset hjob)⟩

/-- In every run. -/
theorem offered_of_reachable (hr : system.Reachable w) : Offered w := by
  refine hr.invariant (I := Offered) ?_ fun w a w' hr hw h ↦ ?_
  · constructor <;> simp [system, World.new, World.kept]
  · have eq (ht : w'.currentTurn = w.currentTurn) (hk : w'.kept = w.kept)
        (hd : w'.drained = w.drained) (hll : w'.llm = w.llm) : Offered w' :=
      hw.of_same (sameChunks_of_eq (ht ▸ Nat.le_refl _) hk hd hll)
    cases a with
    | readPump b => exact hw.readPump h
    | audioSendWorker b =>
      obtain ⟨send, dropped, queue, pc, i, g, rfl, -⟩ := audioSendWorker_footprint h
      exact eq rfl rfl rfl rfl
    | forwardTranscripts i b =>
      exact hw.of_same (forwardTranscripts_sameChunks (publishesOnce_of_reachable hr) h)
    | forwardLLMEvents j b => exact hw.forwardLLMEvents h
    | ttsWorker b =>
      obtain ⟨send, dropped, queue, taken, active, pc, tts, rfl, -, -, -, hk⟩ :=
        ttsWorkerStep_footprint h
      exact eq rfl hk rfl rfl
    | sttRecvPump i b =>
      obtain ⟨c, s, -, -, rfl⟩ := sttRecvPump_eq_some h
      exact eq rfl rfl rfl rfl
    | llmRecvPump j b =>
      obtain ⟨c, s, hc, hs, rfl⟩ := llmRecvPump_eq_some h
      refine hw.of_same (sameChunks_modify rfl rfl rfl rfl fun d hd ↦ ⟨?_, rfl, rfl, rfl⟩)
      obtain rfl : c = d := Option.some.inj (hc.symm.trans hd)
      rw [LlmCall.chunks, LlmCall.chunks, (Stream.recvPump_frame hs).2]
    | ttsRecvPump k b =>
      obtain ⟨c, s, -, -, rfl⟩ := ttsRecvPump_eq_some h
      exact eq rfl rfl rfl rfl
    | write =>
      obtain ⟨send, written, rfl, -⟩ := write_eq_some h
      exact eq rfl rfl rfl rfl
    | stopWriting =>
      obtain rfl := stopWriting_eq_some h
      exact eq rfl rfl rfl rfl

end

/-! ### From jobs to the client -/

/-- The text of an `llm_chunk`, with the job it belongs to and its turn. -/
def Put.words? (p : Put) : Option (Nat × String × Nat) :=
  match p.origin, p.message with
  | .synthesizeAndSend k, .text (.llmChunk text turn) => some (k, text, turn)
  | _, _ => none

/-- The text of the job has not been put on `s.send` yet. -/
@[simp] def JobPc.textDue : JobPc → Bool
  | .publish | .store | .ranging false | .check false _ | .sendText _ _ => true
  | _ => false

/-- The texts put on `s.send`, in order. -/
def World.words (w : World) : List (Nat × String × Nat) := w.puts.filterMap Put.words?

/-- Every text is that of its job, with the job's turn; the texts come in the order of the jobs,
none twice. -/
structure Shown (w : World) : Prop where
  words : ∀ x ∈ w.words, ∃ c, w.tts[x.1]? = some c ∧ x.2 = (c.job.text, c.job.turn)
  ordered : (w.words.map Prod.fst).Pairwise (· < ·)
  due : ∀ k pc, w.ttsWorker = .job k pc → pc.textDue = true → ∀ x ∈ w.words, x.1 ≠ k

section

variable {w w' : World}

private theorem Shown.quiet (hw : Shown w) (ha : w'.words = w.words)
    (hjobs : ∀ (k : Nat) (c : TtsCall), w.tts[k]? = some c →
      ∃ d, w'.tts[k]? = some d ∧ d.job = c.job)
    (hdue : ∀ k pc, w'.ttsWorker = .job k pc → pc.textDue = true →
      (∃ pc, w.ttsWorker = .job k pc ∧ pc.textDue = true) ∨ k = w.tts.length) : Shown w' := by
  refine ⟨fun x hx ↦ ?_, ?_, fun k pc hp hd x hx ↦ ?_⟩
  · rw [ha] at hx
    obtain ⟨c, hc, hxc⟩ := hw.words x hx
    obtain ⟨d, hd, hjob⟩ := hjobs x.1 c hc
    exact ⟨d, hd, by rw [hxc, hjob]⟩
  · rw [ha]
    exact hw.ordered
  · rw [ha] at hx
    rcases hdue k pc hp hd with ⟨pc, hp, hd⟩ | rfl
    · exact hw.due k pc hp hd x hx
    · obtain ⟨c, hc, -⟩ := hw.words x hx
      exact (List.getElem?_eq_some_iff.mp hc).1.ne

private theorem sendJSON_words {v : World} {o : Origin} {m : ControlMessage} {b : Branch}
    (h : w.sendJSON o m b = some v) :
    v.words = w.words ∨ v.words = w.words ++ (Put.words? ⟨.text m, o⟩).toList := by
  obtain ⟨send, dropped, rfl, hs⟩ := sendJSON_eq_some h
  rcases hs with ⟨hs, -⟩ | ⟨rfl, -⟩ | ⟨rfl, -⟩
  · right
    simp only [World.words, World.puts, hs, List.filterMap_append, List.append_assoc]
    cases hm : Put.words? ⟨.text m, o⟩ <;> simp [hm]
  · exact .inl rfl
  · exact .inl rfl

private theorem sendJSON_words_of_none {v : World} {o : Origin} {m : ControlMessage} {b : Branch}
    (h : w.sendJSON o m b = some v) (hm : Put.words? ⟨.text m, o⟩ = none) : v.words = w.words := by
  rcases sendJSON_words h with hsame | hmore
  · exact hsame
  · rw [hmore, hm, Option.toList_none, List.append_nil]

private theorem words_of_elsewhere {new : List Put} (hp : w'.puts = w.puts ++ new)
    (hn : ∀ p ∈ new, p.origin.Elsewhere) : w'.words = w.words := by
  have hnone : new.filterMap Put.words? = [] := by
    rw [List.filterMap_eq_nil_iff]
    intro p hmem
    have ho := hn p hmem
    unfold Put.words?
    split
    · next horigin _ => simp [horigin, Origin.Elsewhere] at ho
    · rfl
  rw [World.words, World.words, hp, List.filterMap_append, hnone, List.append_nil]

private theorem Shown.ttsWorker {a : TtsAction} (hr : system.Reachable w) (hw : Shown w)
    (h : system.step w (.ttsWorker a) = some w') : Shown w' := by
  have hjobs : ∀ (k : Nat) (c : TtsCall), w.tts[k]? = some c →
      ∃ d, w'.tts[k]? = some d ∧ d.job = c.job := fun k c hc ↦ (step_speechStep h).job hc
  cases ttsStep_of_ttsWorkerStep h with
  | quit | dequeue | skipJob | startJob | loadVoice | openError | recheckFailed | closeStale
    | rangeOver | stopStale | gotError | sendDone | clear =>
    exact hw.quiet rfl hjobs (by simp)
  | opened job voice hp => exact hw.quiet rfl hjobs (by simp)
  | openFailed job b v hp hv =>
    have hsame : v.words = w.words := sendJSON_words_of_none hv rfl
    exact hw.quiet hsame hjobs (by simp)
  | recheckPassed k c hp hc ht => exact hw.quiet rfl hjobs (by simp [hp])
  | store k c hp hc => exact hw.quiet rfl hjobs (by simp [hp])
  | take k c sent chunk s hp hc hs =>
    refine hw.quiet rfl hjobs fun l pc hl hd ↦ .inl ?_
    cases hl
    cases sent with
    | true => cases hd
    | false => exact ⟨_, hp, rfl⟩
  | gotAudio k c sent data format hp hc ht =>
    refine hw.quiet rfl hjobs fun l pc hl hd ↦ .inl ?_
    cases hl
    cases sent with
    | true => cases hd
    | false => exact ⟨_, hp, rfl⟩
  | report k c code message b v hp hc hv =>
    have hsame : v.words = w.words := sendJSON_words_of_none hv rfl
    exact hw.quiet hsame hjobs (by simp)
  | sendText k c data format b v hp hc hv =>
    rcases sendJSON_words hv with hsame | hmore
    · have hsame : ({ v with ttsWorker := .job k (.sendFormat data format) } : World).words =
        w.words := hsame
      exact hw.quiet hsame hjobs (by simp)
    · -- the job is the newest, and this is its first text
      have hmore : ({ v with ttsWorker := .job k (.sendFormat data format) } : World).words =
          w.words ++ [(k, c.job.text, c.job.turn)] := hmore
      have hbefore : ∀ x ∈ w.words, x.1 < k := by
        intro x hx
        obtain ⟨d, hd, -⟩ := hw.words x hx
        have hlt := (List.getElem?_eq_some_iff.mp hd).1
        have hlast := newest_of_job hr hp
        have hne := hw.due k _ hp rfl x hx
        omega
      refine ⟨?_, ?_, ?_⟩
      · intro x hx
        rw [hmore] at hx
        rcases List.mem_append.mp hx with hx | hx
        · obtain ⟨c', hc', hxc⟩ := hw.words x hx
          obtain ⟨d, hd, hjob⟩ := hjobs x.1 c' hc'
          exact ⟨d, hd, by rw [hxc, hjob]⟩
        · obtain rfl := List.mem_singleton.mp hx
          obtain ⟨d, hd, hjob⟩ := hjobs k c hc
          exact ⟨d, hd, by rw [hjob]⟩
      · rw [hmore, List.map_append, List.pairwise_append]
        refine ⟨hw.ordered, List.pairwise_singleton _ _, ?_⟩
        simpa using fun l text turn hx ↦ hbefore (l, text, turn) hx
      · intro l pc hl hd
        cases hl
        cases hd
  | sendFormat k c data format b v hp hc hv =>
    have hsame : v.words = w.words := sendJSON_words_of_none hv rfl
    exact hw.quiet hsame hjobs (by simp)
  | sendAudio k c data q hp hc hq =>
    refine hw.quiet ?_ hjobs (by simp)
    have hitems := (Chan.send?_eq_some.mp hq).2
    simp [World.words, World.puts, hitems, Put.words?, List.filterMap_append]

/-- In every run. -/
theorem shown_of_reachable (hr : system.Reachable w) : Shown w := by
  refine hr.invariant (I := Shown) ?_ fun w a w' hr hw h ↦ ?_
  · exact ⟨by simp [system, World.new, World.words, World.puts],
      by simp [system, World.new, World.words, World.puts],
      by simp [system, World.new]⟩
  · by_cases ha : ∃ b, a = .ttsWorker b
    · obtain ⟨b, rfl⟩ := ha
      exact hw.ttsWorker hr h
    · obtain ⟨hp, new, hputs, hnew⟩ := step_elsewhere h fun b hb ↦ ha ⟨b, hb⟩
      refine hw.quiet (words_of_elsewhere hputs fun p hm ↦ (hnew p hm).origin)
        (fun k c hc ↦ (step_speechStep h).job hc) fun k pc hpc hd ↦ .inl ⟨pc, hp ▸ hpc, hd⟩

end

/-! ### The service at the other end -/

/-- What `StreamChat` streams in answer to a request. -/
def Reply.events : Llm.Reply → List Proto.ChatEvent
  | .streamed events => events
  | _ => []

/-- The request `StartChat` makes, `internal/llm/client.go:88`. -/
def LlmCall.request (c : LlmCall) : Proto.ChatRequest := ⟨c.prompt, c.context⟩

/-- What `Recv` returns on stream `j` is the next event of the service's reply. -/
def RepliedBy (reply : Nat → Proto.ChatRequest → Llm.Reply) (w : World) : Action → Prop
  | .llmRecvPump j (.message event) =>
    ∀ c ∈ w.llm[j]?, c.stream.received ++ [event] <+: Reply.events (reply j c.request)
  | _ => True

instance (reply : Nat → Proto.ChatRequest → Llm.Reply) (w : World) (a : Action) :
    Decidable (RepliedBy reply w a) := by
  unfold RepliedBy
  split <;> infer_instance

section

variable {w w' : World} {a : Action}

/-- A call after a step: nothing received, or the same request with the events received from
before, and one event more only where `recvPump` has just received it. -/
def Asks (w w' : World) (a : Action) : Prop :=
  ∀ (j : Nat) (d : LlmCall), w'.llm[j]? = some d →
    d.stream.received = [] ∨
    ∃ c, w.llm[j]? = some c ∧ c.request = d.request ∧
      (d.stream.received = c.stream.received ∨
        ∃ event, a = .llmRecvPump j (.message event) ∧
          d.stream.received = c.stream.received ++ [event])

private theorem asks_same (h : w'.llm = w.llm) : Asks w w' a :=
  fun _ d hd ↦ .inr ⟨d, h ▸ hd, rfl, .inl rfl⟩

private theorem asks_modify {j : Nat} {g : LlmCall → LlmCall} (h : w'.llm = w.llm.modify j g)
    (hg : ∀ c, w.llm[j]? = some c → c.request = (g c).request ∧
      ((g c).stream.received = c.stream.received ∨
        ∃ event, a = .llmRecvPump j (.message event) ∧
          (g c).stream.received = c.stream.received ++ [event])) : Asks w w' a := by
  intro k d hd
  rw [h] at hd
  rcases List.getElem?_modify_eq_some.mp hd with ⟨-, hd⟩ | ⟨rfl, c, hc, rfl⟩
  · exact .inr ⟨d, hd, rfl, .inl rfl⟩
  · exact .inr ⟨c, hc, hg c hc⟩

private theorem forwardLLMEvents_asks {j : Nat} {b : LlmEventsAction}
    (h : w.forwardLLMEvents j b = some w') : Asks w w' a := by
  obtain ⟨c, hc, hstep⟩ := llmEventsStep_of_forwardLLMEvents h
  cases hstep with
  | take event s hp hs =>
    refine asks_modify rfl fun d hd ↦ ⟨rfl, .inl ?_⟩
    obtain rfl : c = d := Option.some.inj (hc.symm.trans hd)
    show s.received = c.stream.received
    rw [(Stream.next?_eq_some hs).2]
  | rangeOver | stale | pass | enqueue | dropChunk | complete =>
    exact asks_modify rfl fun _ _ ↦ ⟨rfl, .inl rfl⟩
  | report code message b v hp hv =>
    obtain ⟨send, dropped, rfl, -⟩ := sendJSON_eq_some hv
    exact asks_modify rfl fun _ _ ↦ ⟨rfl, .inl rfl⟩

/-- Every step changes a call in this way. -/
theorem step_asks (h : system.step w a = some w') : Asks w w' a := by
  cases a with
  | readPump b =>
    cases readPump_effect h with
    | own _ _ _ _ _ _ _ _ _ _ h =>
      subst h
      exact asks_same rfl
    | report _ _ _ _ _ hs h | notify _ _ _ _ hs h =>
      obtain ⟨send, dropped, rfl, -⟩ := sendJSON_eq_some hs
      subst h
      exact asks_same rfl
    | cutLLM _ _ _ _ h =>
      subst h
      exact asks_modify rfl fun _ _ ↦ ⟨rfl, .inl rfl⟩
    | cutTTS _ _ _ _ h | cutJob _ _ _ _ _ _ h =>
      subst h
      exact asks_same rfl
  | audioSendWorker b =>
    obtain ⟨send, dropped, queue, pc, i, g, rfl, -⟩ := audioSendWorker_footprint h
    exact asks_same rfl
  | forwardTranscripts i b =>
    obtain ⟨c, send, dropped, active, llm, g, -, rfl, -, hl, -⟩ := forwardTranscripts_footprint h
    cases hl with
    | keep h => exact asks_same h
    | publish turn j hp h => exact asks_modify h fun _ _ ↦ ⟨rfl, .inl rfl⟩
    | opened opener turn prompt context h =>
      intro k d hd
      rw [show _ = _ from h] at hd
      rcases List.getElem?_concat_eq_some.mp hd with hd | ⟨-, rfl⟩
      · exact .inr ⟨d, hd, rfl, .inl rfl⟩
      · exact .inl rfl
  | forwardLLMEvents j b => exact forwardLLMEvents_asks h
  | ttsWorker b =>
    obtain ⟨send, dropped, queue, taken, active, pc, tts, rfl, -⟩ := ttsWorkerStep_footprint h
    exact asks_same rfl
  | sttRecvPump i b =>
    obtain ⟨c, s, -, -, rfl⟩ := sttRecvPump_eq_some h
    exact asks_same rfl
  | llmRecvPump j b =>
    obtain ⟨c, s, hc, hs, rfl⟩ := llmRecvPump_eq_some h
    refine asks_modify rfl fun d hd ↦ ⟨rfl, ?_⟩
    obtain rfl : c = d := Option.some.inj (hc.symm.trans hd)
    cases Stream.pumpStep_of_recvPump hs with
    | message m hp => exact .inr ⟨m, rfl, rfl⟩
    | _ => exact .inl rfl
  | ttsRecvPump k b =>
    obtain ⟨c, s, -, -, rfl⟩ := ttsRecvPump_eq_some h
    exact asks_same rfl
  | write =>
    obtain ⟨send, written, rfl, -⟩ := write_eq_some h
    exact asks_same rfl
  | stopWriting =>
    obtain rfl := stopWriting_eq_some h
    exact asks_same rfl

/-- What has been received on a stream is the beginning of the reply to its request. -/
theorem received_replies {reply : Nat → Proto.ChatRequest → Llm.Reply}
    (hr : system.ReachableWith (RepliedBy reply) w) {j : Nat} {c : LlmCall}
    (hc : w.llm[j]? = some c) : c.stream.received <+: Reply.events (reply j c.request) := by
  refine hr.invariant (I := fun w ↦ ∀ (j : Nat) (c : LlmCall), w.llm[j]? = some c →
    c.stream.received <+: Reply.events (reply j c.request)) (by simp [system, World.new]) ?_ j c hc
  intro w a w' _ hw hs h j d hd
  rcases step_asks h j d hd with hnil | ⟨c, hc, hrequest, hreceived⟩
  · rw [hnil]
    exact List.nil_prefix
  · rw [← hrequest]
    rcases hreceived with hreceived | ⟨event, rfl, hreceived⟩ <;> rw [hreceived]
    · exact hw j c hc
    · exact hs c hc

end

/-! ### What a client is shown -/

/-- The texts put on `s.send` for the jobs of llm stream `j`, in order. -/
def World.shown (w : World) (j : Nat) : List String :=
  (w.words.filter fun x ↦ (w.tts[x.1]?).any (·.job.llm = j)).map (·.2.1)

private theorem shown_eq {calls : List TtsCall} {words : List (Nat × String × Nat)} (j : Nat)
    (h : ∀ x ∈ words, ∃ c, calls[x.1]? = some c ∧ x.2 = (c.job.text, c.job.turn)) :
    ((words.filter fun x ↦ (calls[x.1]?).any (·.job.llm = j)).map (·.2.1)) =
      (jobsOf j (((words.map Prod.fst).filterMap (calls[·]?)).map TtsCall.job)).map
        TtsJob.text := by
  induction words with
  | nil => rfl
  | cons x words ih =>
    obtain ⟨⟨c, hc, hx⟩, hrest⟩ := List.forall_mem_cons.mp h
    have htext : x.2.1 = c.job.text := congrArg Prod.fst hx
    simp only [List.map_cons, List.filterMap_cons, hc, jobsOf, List.filter_cons] at ih ⊢
    by_cases hj : c.job.llm = j
    · simp [hj, htext, ih hrest]
    · simp [hj, ih hrest]

/-- The texts of the jobs of a stream are chunks its goroutine took, in order. -/
theorem texts_sublist {w : World} (hr : system.Reachable w) {j : Nat} {c : LlmCall}
    (hc : w.llm[j]? = some c) {jobs : List TtsJob} (h : jobs.Sublist w.kept) :
    ((jobsOf j jobs).map TtsJob.text).Sublist c.chunks := by
  have hoffered := offered_of_reachable hr
  have hjobs : (jobsOf j jobs).Sublist (jobsOf j w.kept) := h.filter _
  have htexts := (hjobs.trans (hoffered.jobs j c hc)).map TtsJob.text
  rw [List.map_map] at htexts
  exact htexts.trans ((List.sublist_append_left _ _).trans (hoffered.chunks j c hc))

/-- The jobs synthesized are among those that were not drained. -/
theorem jobs_sublist {w : World} (hr : system.Reachable w) :
    (w.tts.map TtsCall.job).Sublist w.kept :=
  ((List.sublist_append_left _ _).trans (spoken_of_reachable hr).jobs).trans
    (List.sublist_append_left _ _)

/-- The client is shown chunks that the goroutine of the stream took, in order. -/
theorem shown_sublist {w : World} (hr : system.Reachable w) {j : Nat} {c : LlmCall}
    (hc : w.llm[j]? = some c) : (w.shown j).Sublist c.chunks := by
  have hshown := shown_of_reachable hr
  have hjobs : (((w.words.map Prod.fst).filterMap (w.tts[·]?)).map TtsCall.job).Sublist w.kept :=
    ((List.filterMap_getElem?_sublist hshown.ordered).map TtsCall.job).trans (jobs_sublist hr)
  rw [World.shown, shown_eq j hshown.words]
  exact texts_sublist hr hc hjobs

/-- Each is tagged with the turn of the chat. -/
theorem shown_turn {w : World} (hr : system.Reachable w) {j : Nat} {c : LlmCall}
    (hc : w.llm[j]? = some c) {x : Nat × String × Nat} (hx : x ∈ w.words) {d : TtsCall}
    (hd : w.tts[x.1]? = some d) (hj : d.job.llm = j) : x.2.2 = c.turn := by
  have hkept : d.job ∈ w.kept :=
    (jobs_sublist hr).subset (List.mem_map_of_mem (List.mem_of_getElem? hd))
  have hjob : d.job ∈ jobsOf j w.kept := List.mem_filter.mpr ⟨hkept, by simpa using hj⟩
  obtain ⟨offer, -, heq⟩ := List.mem_map.mp (((offered_of_reachable hr).jobs j c hc).subset hjob)
  obtain ⟨d', hd', hwords⟩ := (shown_of_reachable hr).words x hx
  obtain rfl : d = d' := Option.some.inj (hd.symm.trans hd')
  rw [hwords, ← heq]
  rfl

section

open Llm

variable {isdigit : Char → Bool} {chunking : ChunkingConfig} {engine : LLMEngine}
  {personality : Proto.ChatMessage} {cancelled : Nat → Bool} {request : Proto.ChatRequest}

/-- `StreamChat` sends the chunks in order until it is cancelled. -/
theorem sendChunks_beginning (n : Nat) (chunks : List PyStr.Str) :
    (sendChunks cancelled n chunks).1 <+: chunks.map chunkEvent := by
  induction chunks generalizing n with
  | nil => exact List.prefix_rfl
  | cons chunk chunks ih =>
    rw [sendChunks]
    split
    · exact List.nil_prefix
    · rw [List.map_cons, List.cons_prefix_cons]
      exact ⟨rfl, ih (n + 1)⟩

/-- The texts in a reply are chunks of the answer, from the first on. -/
theorem texts_of_reply :
    ((Reply.events (streamChat isdigit chunking engine personality cancelled request)).map
        mapChatEvent).filterMap ChatEvent.text? <+:
      (streamChatResponse isdigit chunking engine request.prompt
        (personality :: request.conversationHistory)).items.map String.ofList := by
  generalize hchunks : streamChatResponse isdigit chunking engine request.prompt
    (personality :: request.conversationHistory) = chunks
  have htexts : ((chunks.items.map chunkEvent).map mapChatEvent).filterMap ChatEvent.text? =
      chunks.items.map String.ofList := by
    simp [Function.comp_def, mapChatEvent, chunkEvent, ChatEvent.text?, List.filterMap_map]
  have hsent : ((sendChunks cancelled 0 chunks.items).1.map mapChatEvent).filterMap
      ChatEvent.text? <+: chunks.items.map String.ofList :=
    htexts ▸ ((sendChunks_beginning 0 chunks.items).map mapChatEvent).filterMap ChatEvent.text?
  have hlast {event : Proto.ChatEvent} (h : event.type ≠ .chunk) :
      (((sendChunks cancelled 0 chunks.items).1 ++ [event]).map mapChatEvent).filterMap
        ChatEvent.text? <+: chunks.items.map String.ofList := by
    have hnone : ChatEvent.text? (mapChatEvent event) = none := by
      cases ht : event.type <;> simp_all [mapChatEvent, ChatEvent.text?]
    rwa [List.map_append, List.filterMap_append, List.map_singleton, List.filterMap_cons, hnone,
      List.filterMap_nil, List.append_nil]
  unfold streamChat
  split
  · exact List.nil_prefix
  · exact List.nil_prefix
  · exact List.nil_prefix
  · simp only [hchunks]
    split
    · exact hsent
    · split
      · exact hlast (by simp [errorEvent])
      · exact hlast (by simp [doneEvent])

/-- What is chunked before an exception is what would be chunked without it. -/
theorem chunkStream_beginning (tokens : Generator PyStr.Str) :
    (chunkStream isdigit chunking tokens).items <+:
      streamChunks isdigit chunking [] tokens.items := by
  unfold chunkStream
  simp only []
  split
  · exact List.prefix_append _ _
  · exact List.prefix_rfl

/-- The chunks taken off a stream are those of the answer, from the first on. -/
theorem chunks_of_replies {engines : Nat → LLMEngine} {cancelled : Nat → Nat → Bool} {w : World}
    (hr : system.ReachableWith (RepliedBy fun j request ↦
      streamChat isdigit chunking (engines j) personality (cancelled j) request) w) {j : Nat}
    {c : LlmCall} (hc : w.llm[j]? = some c) :
    c.chunks <+: (chunkStream isdigit chunking ((engines j).streamResponse c.prompt
      (personality :: c.context))).items.map String.ofList := by
  have hreceived : c.stream.received <+: Reply.events
      (streamChat isdigit chunking (engines j) personality (cancelled j) c.request) :=
    received_replies hr hc
  have hconsumed : c.chunks <+:
      (c.stream.received.map mapChatEvent).filterMap ChatEvent.text? :=
    (sound_of_reachable hr.reachable j c hc).relays.filterMap_consumed fun _ _ ↦ rfl
  exact (hconsumed.trans ((hreceived.map mapChatEvent).filterMap ChatEvent.text?)).trans
    texts_of_reply

/-- A session whose llm service is `StreamChat`, with an engine and cancellations of its own for
each stream. The texts the client is shown for a stream are chunks of the engine's answer to the
prompt, in their order and none twice; but for white space they read the answer in order, with
nothing that is not in it; and each is tagged with the turn of the chat. -/
theorem answer_shown (isdigit : Char → Bool) (chunking : ChunkingConfig)
    (engines : Nat → LLMEngine) (personality : Proto.ChatMessage) (cancelled : Nat → Nat → Bool)
    (w : World)
    (hr : system.ReachableWith (RepliedBy fun j request ↦
      streamChat isdigit chunking (engines j) personality (cancelled j) request) w) (j : Nat)
    (c : LlmCall) (hc : w.llm[j]? = some c) :
    let tokens := (engines j).streamResponse c.prompt (personality :: c.context)
    (w.shown j).Sublist ((chunkStream isdigit chunking tokens).items.map String.ofList) ∧
      (((w.shown j).map String.toList).flatten.filter fun a ↦ !PyStr.isspace a).Sublist
        (tokens.items.flatten.filter fun a ↦ !PyStr.isspace a) ∧
      ∀ x ∈ w.words, ∀ d, w.tts[x.1]? = some d → d.job.llm = j → x.2.2 = c.turn := by
  intro tokens
  have hchunks : c.chunks <+: (chunkStream isdigit chunking tokens).items.map String.ofList :=
    chunks_of_replies hr hc
  have hshown := (shown_sublist hr.reachable hc).trans hchunks.sublist
  refine ⟨hshown, ?_, fun x hx d hd hj ↦ shown_turn hr.reachable hc hx hd hj⟩
  -- the chunks are the answer, less white space around them
  have htext : ((w.shown j).map String.toList).Sublist
      (streamChunks isdigit chunking [] tokens.items) := by
    have h := hshown.map String.toList
    rw [List.map_map] at h
    simp only [Function.comp_def, String.toList_ofList, List.map_id'] at h
    exact h.trans (chunkStream_beginning tokens).sublist
  have hall : (streamChunks isdigit chunking [] tokens.items).flatten.filter
      (fun a ↦ !PyStr.isspace a) = tokens.items.flatten.filter fun a ↦ !PyStr.isspace a :=
    (streamChunks_interleaved [] tokens.items).filter_not
  exact hall ▸ htext.flatten.filter _

/-- The client is shown the first of two chunks, before the second has come. -/
theorem answer_shown_first : ∃ (w : World) (c : LlmCall), w.llm[0]? = some c ∧
    w.shown 0 = ["See www.example."] ∧
    (w.shown 0).Sublist ((chunkStream Char.isDigit .default
      ⟨addressTokens, none⟩).items.map String.ofList) ∧ (0, "See www.example.", 1) ∈ w.words := by
  have hw : ∃ w c, system.runGuarded (RepliedBy fun j request ↦ streamChat Char.isDigit .default
        (tokenEngine addressTokens) ⟨"system", ""⟩ (fun _ ↦ false) request) system.init
      (startActions ++ finalActions 0 "hi" ++ [.forwardTranscripts 0 .next] ++
        chunkActions 0 "See www.example." ++ speakActions 0 ⟨[1, 2], 22050, 1, 2⟩ ++
        [.ttsWorker (.select .put)]) = some w ∧ w.llm[0]? = some c ∧
      w.shown 0 = ["See www.example."] ∧ (0, "See www.example.", 1) ∈ w.words := by
    have hok : ((system.runGuarded (RepliedBy fun j request ↦ streamChat Char.isDigit .default
        (tokenEngine addressTokens) ⟨"system", ""⟩ (fun _ ↦ false) request) system.init
        (startActions ++ finalActions 0 "hi" ++ [.forwardTranscripts 0 .next] ++
          chunkActions 0 "See www.example." ++ speakActions 0 ⟨[1, 2], 22050, 1, 2⟩ ++
          [.ttsWorker (.select .put)])).any fun w ↦
            decide (w.llm.length = 1 ∧ w.shown 0 = ["See www.example."] ∧
              (0, "See www.example.", 1) ∈ w.words)) = true := by
      decide +kernel
    obtain ⟨w, hrun, hw⟩ := (Option.any_eq_true _ _).mp hok
    obtain ⟨hlen, hshown, hwords⟩ := of_decide_eq_true hw
    obtain ⟨c, hc⟩ := List.length_eq_one_iff.mp hlen
    exact ⟨w, c, hrun, by simp [hc], hshown, hwords⟩
  obtain ⟨w, c, hrun, hc, hshown, hwords⟩ := hw
  obtain ⟨hsub, -⟩ := answer_shown Char.isDigit .default (fun _ ↦ tokenEngine addressTokens)
    ⟨"system", ""⟩ (fun _ _ ↦ false) w (.runGuarded .init hrun) 0 c hc
  exact ⟨w, c, hc, hshown, hsub, hwords⟩

end

end BibiCore.Session
