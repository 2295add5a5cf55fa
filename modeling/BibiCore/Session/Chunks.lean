import BibiCore.Session.Chat

/-!
# From the chunks of an answer to the jobs of `ttsWorker`

`forwardLLMEvents` offers every chunk to `ttsQueue` without blocking, `session.go:418`;
`ttsWorker` takes the queued jobs one by one, `session.go:440`; `interruptCurrentTurn` drains
them.
-/

namespace BibiCore.Session

open BibiCore.Gateway World

namespace LlmCall

/-- The chunks the goroutine has taken off `Events`. -/
def chunks (c : LlmCall) : List String := c.stream.consumed.filterMap ChatEvent.text?

/-- The chunk it has taken and not offered yet. -/
def inHand (c : LlmCall) : List String := c.forwarder.event?.toList.filterMap ChatEvent.text?

/-- The offered chunks that found fewer than 32 jobs waiting. -/
def accepted (c : LlmCall) : List String := (c.offered.filter (·.2 < 32)).map Prod.fst

/-- The job that carries a chunk of the call, the `j`-th. -/
def job (j : Nat) (c : LlmCall) (text : String) : TtsJob := ⟨c.turn, text, j⟩

end LlmCall

/-- The jobs that came onto `ttsQueue` and were not drained: taken up, then still waiting. -/
def World.kept (w : World) : List TtsJob := w.taken ++ w.ttsQueue.items

/-- The jobs of llm stream `j` among some jobs. -/
def jobsOf (j : Nat) (jobs : List TtsJob) : List TtsJob := jobs.filter (·.llm = j)

/-- None of the jobs of llm stream `j` was drained. -/
def World.Undrained (w : World) (j : Nat) : Prop := ∀ p ∈ w.drained, p.2.llm ≠ j

/-- Every chunk of the current turn is offered, and the accepted ones are jobs, in order. -/
structure Chunks (w : World) : Prop where
  offered : ∀ (j : Nat) (c : LlmCall), w.llm[j]? = some c → c.turn = w.currentTurn →
    c.chunks = c.offered.map Prod.fst ++ c.inHand
  jobs : ∀ (j : Nat) (c : LlmCall), w.llm[j]? = some c → w.Undrained j →
    jobsOf j w.kept = c.accepted.map (c.job j)
  known : ∀ job ∈ w.kept, job.llm < w.llm.length

/-! ### Steps that offer nothing -/

/-- What a step that offers no chunk leaves of the chunks. -/
structure SameChunks (w w' : World) : Prop where
  turn : w.currentTurn ≤ w'.currentTurn
  kept : w'.kept = w.kept
  drained : w'.drained = w.drained
  calls : ∀ (j : Nat) (d : LlmCall), w'.llm[j]? = some d →
    (∃ c, w.llm[j]? = some c ∧ c.chunks = d.chunks ∧ c.offered = d.offered ∧
      c.inHand = d.inHand ∧ c.turn = d.turn) ∨
    (j = w.llm.length ∧ d.chunks = [] ∧ d.offered = [] ∧ d.inHand = [])
  length : w.llm.length ≤ w'.llm.length

private theorem Chunks.of_same {w w' : World} (hw : Chunks w) (hl : w.chat.Linked)
    (h : SameChunks w w') : Chunks w' := by
  refine ⟨fun j d hd ht ↦ ?_, fun j d hd hu ↦ ?_, fun job hjob ↦ ?_⟩
  · rcases h.calls j d hd with ⟨c, hc, hch, hof, hin, hct⟩ | ⟨-, hch, hof, hin⟩
    · have hle : c.turn ≤ w.currentTurn := hl.calls j c hc
      have hcur : c.turn = w.currentTurn := by
        have := h.turn
        omega
      rw [← hch, ← hof, ← hin]
      exact hw.offered j c hc hcur
    · rw [hch, hof, hin]
      rfl
  · have hold : w.Undrained j := by rwa [World.Undrained, ← h.drained]
    rw [h.kept]
    rcases h.calls j d hd with ⟨c, hc, -, hof, -, hct⟩ | ⟨rfl, -, hof, -⟩
    · have hjob : d.job j = c.job j := by
        funext text
        rw [LlmCall.job, LlmCall.job, hct]
      rw [hjob, LlmCall.accepted, ← hof]
      exact hw.jobs j c hc hold
    · rw [LlmCall.accepted, hof, jobsOf, List.filter_eq_nil_iff.mpr]
      · rfl
      · intro job hjob
        have := hw.known job hjob
        simp only [decide_eq_true_eq]
        omega
  · rw [h.kept] at hjob
    exact Nat.lt_of_lt_of_le (hw.known job hjob) h.length

/-- A step that touches none of it. -/
theorem sameChunks_of_eq {w w' : World} (ht : w.currentTurn ≤ w'.currentTurn)
    (hk : w'.kept = w.kept) (hd : w'.drained = w.drained) (hl : w'.llm = w.llm) :
    SameChunks w w' :=
  ⟨ht, hk, hd, fun _ d h ↦ .inl ⟨d, hl ▸ h, rfl, rfl, rfl, rfl⟩, hl ▸ Nat.le_refl _⟩

/-- A step that touches one call and none of its chunks. -/
theorem sameChunks_modify {w w' : World} {j : Nat} {g : LlmCall → LlmCall}
    (ht : w'.currentTurn = w.currentTurn) (hk : w'.kept = w.kept) (hd : w'.drained = w.drained)
    (hl : w'.llm = w.llm.modify j g)
    (hg : ∀ c, w.llm[j]? = some c → c.chunks = (g c).chunks ∧ c.offered = (g c).offered ∧
      c.inHand = (g c).inHand ∧ c.turn = (g c).turn) : SameChunks w w' := by
  refine ⟨ht ▸ Nat.le_refl _, hk, hd, fun k d h ↦ .inl ?_, by simp [hl]⟩
  rw [hl] at h
  rcases List.getElem?_modify_eq_some.mp h with ⟨-, h⟩ | ⟨rfl, c, hc, rfl⟩
  · exact ⟨d, h, rfl, rfl, rfl, rfl⟩
  · exact ⟨c, hc, hg c hc⟩

/-- `forwardTranscripts` leaves the chunks of every stream that was there. -/
theorem forwardTranscripts_sameChunks {w w' : World} {i : Nat} {a : TranscriptsAction}
    (hp : w.chat.PublishesOnce) (h : w.forwardTranscripts i a = some w') : SameChunks w w' := by
  obtain ⟨c, send, dropped, active, llm, g, hc, rfl, -, hl, -⟩ := forwardTranscripts_footprint h
  cases hl with
  | keep h => exact sameChunks_of_eq (Nat.le_refl _) rfl rfl h
  | opened opener turn prompt context h =>
    refine ⟨Nat.le_refl _, rfl, rfl, fun j d hd ↦ ?_, by simp [h]⟩
    rw [show _ = _ from h] at hd
    rcases List.getElem?_concat_eq_some.mp hd with hd | ⟨hj, rfl⟩
    · exact .inl ⟨d, hd, rfl, rfl, rfl, rfl⟩
    · exact .inr ⟨hj, rfl, rfl, rfl⟩
  | publish turn j hpc h =>
    refine sameChunks_modify rfl rfl rfl h fun d hd ↦ ⟨rfl, rfl, ?_, rfl⟩
    have hf : w.chat.forwarders[i]? = some (.chatPublish turn j) := by
      simp [World.chat, World.forwarders, hc, hpc]
    obtain ⟨e, he, hu⟩ := hp.unstarted i turn j hf
    obtain rfl : e = d := Option.some.inj (he.symm.trans hd)
    simp [LlmCall.inHand, hu]

/-! ### Steps of `forwardLLMEvents` -/

private theorem jobsOf_append {j k : Nat} {c : LlmCall} {jobs : List TtsJob} {new : List String} :
    jobsOf k (jobs ++ new.map (c.job j)) =
      jobsOf k jobs ++ if j = k then new.map (c.job j) else [] := by
  rw [jobsOf, jobsOf, List.filter_append]
  congr 1
  split
  · next h =>
    apply List.filter_eq_self.mpr
    intro job hjob
    obtain ⟨text, -, rfl⟩ := List.mem_map.mp hjob
    simp [LlmCall.job, h]
  · next h =>
    apply List.filter_eq_nil_iff.mpr
    intro job hjob
    obtain ⟨text, -, rfl⟩ := List.mem_map.mp hjob
    simp [LlmCall.job, h]

private theorem Chunks.modify {w w' : World} {j : Nat} {c : LlmCall} {g : LlmCall → LlmCall}
    (new : List String) (hw : Chunks w) (hc : w.llm[j]? = some c)
    (ht : w'.currentTurn = w.currentTurn) (hd : w'.drained = w.drained)
    (hl : w'.llm = w.llm.modify j g) (hturn : (g c).turn = c.turn)
    (hoffered : c.turn = w.currentTurn → c.chunks = c.offered.map Prod.fst ++ c.inHand →
      (g c).chunks = (g c).offered.map Prod.fst ++ (g c).inHand)
    (hkept : w'.kept = w.kept ++ new.map (c.job j))
    (haccepted : (g c).accepted = c.accepted ++ new) : Chunks w' := by
  have hlen : w'.llm.length = w.llm.length := by simp [hl]
  have cases (k : Nat) (d : LlmCall) (h : w'.llm[k]? = some d) :
      k ≠ j ∧ w.llm[k]? = some d ∨ k = j ∧ d = g c := by
    rw [hl] at h
    rcases List.getElem?_modify_eq_some.mp h with h | ⟨hk, c', hc', rfl⟩
    · exact .inl h
    · exact .inr ⟨hk, by rw [Option.some.inj (hc.symm.trans hc')]⟩
  refine ⟨fun k d h hdt ↦ ?_, fun k d h hu ↦ ?_, fun job hjob ↦ ?_⟩
  · rw [ht] at hdt
    rcases cases k d h with ⟨-, h⟩ | ⟨rfl, rfl⟩
    · exact hw.offered k d h hdt
    · have hcur : c.turn = w.currentTurn := hturn ▸ hdt
      exact hoffered hcur (hw.offered k c hc hcur)
  · have hold : w.Undrained k := by rwa [World.Undrained, ← hd]
    rw [hkept, jobsOf_append]
    rcases cases k d h with ⟨hne, h⟩ | ⟨rfl, rfl⟩
    · rw [if_neg (Ne.symm hne), List.append_nil]
      exact hw.jobs k d h hold
    · have hjob : (g c).job k = c.job k := by
        funext text
        rw [LlmCall.job, LlmCall.job, hturn]
      rw [if_pos rfl, hw.jobs k c hc hold, haccepted, hjob, List.map_append]
  · rw [hkept] at hjob
    rw [hlen]
    rcases List.mem_append.mp hjob with hjob | hjob
    · exact hw.known job hjob
    · obtain ⟨text, -, rfl⟩ := List.mem_map.mp hjob
      exact (List.getElem?_eq_some_iff.mp hc).1

private theorem accepted_offer {c : LlmCall} {text : String} {waiting : Nat} :
    (c.offer text waiting).accepted =
      c.accepted ++ if waiting < 32 then [text] else [] := by
  simp only [LlmCall.accepted, LlmCall.offer, List.filter_append, List.map_append]
  congr 1
  split <;> simp_all

private theorem forwardLLMEvents_chunks {w w' : World} {j : Nat} {a : LlmEventsAction}
    (hw : Chunks w) (h : w.forwardLLMEvents j a = some w') : Chunks w' := by
  obtain ⟨c, hc, hstep⟩ := llmEventsStep_of_forwardLLMEvents h
  have keep {w' : World} {g : LlmCall → LlmCall} (ht : w'.currentTurn = w.currentTurn)
      (hd : w'.drained = w.drained) (hl : w'.llm = w.llm.modify j g)
      (hk : w'.kept = w.kept) (hturn : (g c).turn = c.turn)
      (hof : (g c).offered = c.offered)
      (hin : c.turn = w.currentTurn → c.chunks = c.offered.map Prod.fst ++ c.inHand →
        (g c).chunks = c.offered.map Prod.fst ++ (g c).inHand) : Chunks w' := by
    refine hw.modify [] hc ht hd hl hturn ?_ (by simp [hk]) ?_
    · rwa [hof]
    · rw [LlmCall.accepted, hof, List.append_nil, LlmCall.accepted]
  have hoffered {text : String} (waiting : Nat) (hp : c.forwarder = .handle (.chunk text))
      (hch : c.chunks = c.offered.map Prod.fst ++ c.inHand) :
      (c.offer text waiting).chunks =
        (c.offer text waiting).offered.map Prod.fst ++ (c.offer text waiting).inHand := by
    simpa [LlmCall.chunks, LlmCall.inHand, LlmCall.offer, ChatEvent.text?, hp] using hch
  cases hstep with
  | take event s hp hs =>
    refine keep rfl rfl rfl rfl rfl rfl fun _ hch ↦ ?_
    simp only [LlmCall.inHand, hp] at hch
    simp [LlmCall.chunks, LlmCall.inHand, Stream.consumed_next? hs] at hch ⊢
    rw [hch]
  | rangeOver hp =>
    refine keep rfl rfl rfl rfl rfl rfl fun _ hch ↦ ?_
    simpa [LlmCall.inHand, LlmCall.chunks, LlmCall.finish, hp] using hch
  | stale event hp hne => exact keep rfl rfl rfl rfl rfl rfl fun ht _ ↦ absurd ht.symm hne
  | pass event hp =>
    refine keep rfl rfl rfl rfl rfl rfl fun _ hch ↦ ?_
    simpa [LlmCall.inHand, LlmCall.chunks, hp] using hch
  | enqueue text q hp hq =>
    obtain ⟨hroom, hitems⟩ := Chan.send?_eq_some.mp hq
    refine hw.modify [text] hc rfl rfl rfl rfl (fun _ ↦ hoffered _ hp) ?_ ?_
    · simp [World.kept, hitems, LlmCall.job]
    · rw [accepted_offer, if_pos hroom]
  | dropChunk text hp hq =>
    have hfull : w.ttsQueue.items.length = 32 := hq
    refine hw.modify [] hc rfl rfl rfl rfl (fun _ ↦ hoffered _ hp) ?_ ?_
    · simp [World.kept]
    · rw [accepted_offer, if_neg (by omega)]
  | complete hp =>
    refine keep rfl rfl rfl rfl rfl rfl fun _ hch ↦ ?_
    simpa [LlmCall.inHand, LlmCall.chunks, LlmCall.settle, ChatEvent.text?, List.filterMap_cons,
      hp] using hch
  | report code message b v hp hv =>
    obtain ⟨send, dropped, rfl, -⟩ := sendJSON_eq_some hv
    refine keep rfl rfl rfl rfl rfl rfl fun _ hch ↦ ?_
    simpa [LlmCall.inHand, LlmCall.chunks, LlmCall.settle, ChatEvent.text?, List.filterMap_cons,
      hp] using hch

/-! ### The other steps -/

private theorem readPump_chunks {w w' : World} {a : ReadAction} (hw : Chunks w) (hl : w.chat.Linked)
    (h : w.readPump a = some w') : Chunks w' := by
  cases readPump_effect h with
  | own _ _ _ _ _ _ _ _ _ _ h _ _ ht =>
    subst h
    exact hw.of_same hl (sameChunks_of_eq ht rfl rfl rfl)
  | report code message b v reader hs h =>
    obtain ⟨send, dropped, rfl, -⟩ := sendJSON_eq_some hs
    subst h
    exact hw.of_same hl (sameChunks_of_eq (Nat.le_refl _) rfl rfl rfl)
  | cutLLM turn j tts hr h =>
    subst h
    exact hw.of_same hl (sameChunks_modify rfl rfl rfl rfl fun _ _ ↦ ⟨rfl, rfl, rfl, rfl⟩)
  | cutTTS turn k b hr h =>
    subst h
    exact hw.of_same hl (sameChunks_of_eq (Nat.le_refl _) rfl rfl rfl)
  | cutJob turn b job q hr hq h =>
    subst h
    refine ⟨hw.offered, fun j c hc hu ↦ ?_, fun job' hjob ↦ hw.known job' ?_⟩
    · have hne : job.llm ≠ j := hu (turn, job) (by simp)
      have hold : w.Undrained j := fun p hp ↦ hu p (List.mem_append_left _ hp)
      rw [← hw.jobs j c hc hold]
      simp [jobsOf, World.kept, hq, hne]
    · simp only [World.kept, hq, List.mem_append, List.mem_cons] at hjob ⊢
      exact hjob.imp_right .inr
  | notify turn b v hr hs h =>
    obtain ⟨send, dropped, rfl, -⟩ := sendJSON_eq_some hs
    subst h
    exact hw.of_same hl (sameChunks_of_eq (Nat.le_refl _) rfl rfl rfl)

/-- In every run the chunks are where they belong. -/
theorem chunks_of_reachable {w : World} (hr : system.Reachable w) : Chunks w := by
  refine hr.invariant (I := Chunks) ?_ fun w a w' hr hw h ↦ ?_
  · constructor <;> simp [system, World.new, World.kept]
  · have hl := linked_of_reachable hr
    have same (hs : SameChunks w w') : Chunks w' := hw.of_same hl hs
    have eq (ht : w'.currentTurn = w.currentTurn) (hk : w'.kept = w.kept)
        (hd : w'.drained = w.drained) (hll : w'.llm = w.llm) : Chunks w' :=
      same (sameChunks_of_eq (ht ▸ Nat.le_refl _) hk hd hll)
    cases a with
    | readPump b => exact readPump_chunks hw hl h
    | audioSendWorker b =>
      obtain ⟨send, dropped, queue, pc, i, g, rfl, -⟩ := audioSendWorker_footprint h
      exact eq rfl rfl rfl rfl
    | forwardTranscripts i b =>
      exact same (forwardTranscripts_sameChunks (publishesOnce_of_reachable hr) h)
    | forwardLLMEvents j b => exact forwardLLMEvents_chunks hw h
    | ttsWorker b =>
      obtain ⟨send, dropped, queue, taken, active, pc, tts, rfl, -, -, -, hk⟩ :=
        ttsWorkerStep_footprint h
      exact eq rfl hk rfl rfl
    | sttRecvPump i b =>
      obtain ⟨c, s, -, -, rfl⟩ := sttRecvPump_eq_some h
      exact eq rfl rfl rfl rfl
    | llmRecvPump j b =>
      obtain ⟨c, s, hc, hs, rfl⟩ := llmRecvPump_eq_some h
      refine same (sameChunks_modify rfl rfl rfl rfl fun d hd ↦ ⟨?_, rfl, rfl, rfl⟩)
      obtain rfl : c = d := Option.some.inj (hc.symm.trans hd)
      rw [LlmCall.chunks, LlmCall.chunks, (Stream.recvPump_frame hs).2]
    | ttsRecvPump k b =>
      obtain ⟨c, s, -, -, rfl⟩ := ttsRecvPump_eq_some h
      exact eq rfl rfl rfl rfl
    | write =>
      obtain ⟨send, written, rfl, -⟩ := write_eq_some h
      exact eq rfl rfl rfl rfl
    | stopWriting =>
      obtain rfl := stopWriting_eq_some h
      exact eq rfl rfl rfl rfl

/-- While a turn is current and none of its jobs was drained: every chunk its goroutine took off
the stream was offered to `ttsQueue`, one after the other, up to the one in hand; and the jobs
`ttsWorker` took up, followed by those still waiting, are exactly the chunks that found fewer
than 32 jobs waiting, each once and in order. -/
theorem accepted_chunks_taken (w : World) (j : Nat) (c : LlmCall) (hr : system.Reachable w)
    (hc : w.llm[j]? = some c) (ht : c.turn = w.currentTurn) (hu : w.Undrained j) :
    c.chunks = c.offered.map Prod.fst ++ c.inHand ∧
      jobsOf j w.taken ++ jobsOf j w.ttsQueue.items = c.accepted.map (c.job j) := by
  have hw := chunks_of_reachable hr
  refine ⟨hw.offered j c hc ht, ?_⟩
  rw [← hw.jobs j c hc hu, World.kept, jobsOf, jobsOf, jobsOf, List.filter_append]

/-- Two chunks, the first of them taken up. -/
theorem accepted_chunks_taken_run : ∃ (w : World) (c : LlmCall), c.chunks = ["a", "b"] ∧
    jobsOf 0 w.taken ++ jobsOf 0 w.ttsQueue.items = c.accepted.map (c.job 0) ∧
      w.taken.map TtsJob.text = ["a"] := by
  have hw : ∃ w c, system.run (startActions ++ finalActions 0 "hi" ++
      [Action.forwardTranscripts 0 .next] ++ chunkActions 0 "a" ++ chunkActions 0 "b" ++
      [Action.ttsWorker .dequeue]) = some w ∧ w.llm[0]? = some c ∧ c.turn = w.currentTurn ∧
        w.drained = [] ∧ c.chunks = ["a", "b"] ∧ w.taken.map TtsJob.text = ["a"] :=
    ⟨_, _, rfl, rfl, rfl, rfl, rfl, rfl⟩
  obtain ⟨w, c, hrun, hc, ht, hd, hch, htaken⟩ := hw
  have hu : w.Undrained 0 := by simp [World.Undrained, hd]
  have h := accepted_chunks_taken w 0 c (TransitionSystem.reachable_of_run hrun) hc ht hu
  exact ⟨w, c, hch, h.2, htaken⟩

set_option maxRecDepth 4000 in
/-- An answer of 33 chunks arrives before `ttsWorker` is scheduled: the last one goes into the
history and into no job. -/
theorem not_every_chunk_taken : ∃ w c, system.run (startActions ++ finalActions 0 "hi" ++
      [.forwardTranscripts 0 .next] ++ (List.replicate 32 (chunkActions 0 "x")).flatten ++
      chunkActions 0 "last" ++
      [.llmRecvPump 0 (.message ⟨.done, "", "", ""⟩), .llmRecvPump 0 .next,
        .forwardLLMEvents 0 .next, .forwardLLMEvents 0 .next, .forwardLLMEvents 0 .next]) =
        some w ∧
    w.llm[0]? = some c ∧ c.turn = w.currentTurn ∧ w.cancelled = false ∧ w.drained = [] ∧
      w.answered = [0] ∧ "last" ∈ c.chunks ∧ c.inHand = [] ∧
        ∀ job ∈ w.kept, job.text ≠ "last" := by
  refine ⟨_, _, rfl, rfl, rfl, rfl, rfl, rfl, ?_, rfl, ?_⟩
  · decide
  · decide

end BibiCore.Session
