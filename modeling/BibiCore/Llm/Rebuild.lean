import BibiCore.Llm.Servicer
import BibiCore.Session.Answers

/-!
# The answer as the history keeps it

`StreamChat` sends the chunks, stripped; `forwardLLMEvents`, `session.go:404`, puts them back
together without anything in between.
-/

namespace BibiCore.Llm

open PyStr

/-- A cut that more text follows is between two characters that are not white space. -/
def CutInsideWord (before after : Str) : Prop :=
  strip after ≠ [] → (∀ c ∈ before.getLast?, isspace c = false) ∧
    ∀ c ∈ after.head?, isspace c = false

instance (before after : Str) : Decidable (CutInsideWord before after) :=
  -- over the character that is there, never over all characters
  have (o : Option Char) : Decidable (∀ c ∈ o, isspace c = false) := Option.decidableForallMem o
  inferInstanceAs (Decidable (_ → _))

/-- Every flush of `chunk_stream` cuts inside a word; `buffer` is the text that waits. -/
def FlushesInsideWords (isdigit : Char → Bool) (chunking : ChunkingConfig) (buffer : Str) :
    List Str → Prop
  | [] => True
  | token :: tokens =>
    if flushes isdigit chunking (strip (buffer ++ token)) = true then
      CutInsideWord (buffer ++ token) tokens.flatten ∧
        FlushesInsideWords isdigit chunking [] tokens
    else FlushesInsideWords isdigit chunking (buffer ++ token) tokens

/-- The condition is decided along the tokens. -/
def decidableFlushesInsideWords (isdigit : Char → Bool) (chunking : ChunkingConfig) :
    (buffer : Str) → (tokens : List Str) →
      Decidable (FlushesInsideWords isdigit chunking buffer tokens)
  | _, [] => inferInstanceAs (Decidable True)
  | buffer, token :: tokens =>
    have := decidableFlushesInsideWords isdigit chunking [] tokens
    have := decidableFlushesInsideWords isdigit chunking (buffer ++ token) tokens
    inferInstanceAs (Decidable (if flushes isdigit chunking (strip (buffer ++ token)) = true then
      CutInsideWord (buffer ++ token) tokens.flatten ∧
        FlushesInsideWords isdigit chunking [] tokens
      else FlushesInsideWords isdigit chunking (buffer ++ token) tokens))

instance (isdigit : Char → Bool) (chunking : ChunkingConfig) (buffer : Str) (tokens : List Str) :
    Decidable (FlushesInsideWords isdigit chunking buffer tokens) :=
  decidableFlushesInsideWords isdigit chunking buffer tokens

variable {isdigit : Char → Bool} {chunking : ChunkingConfig} {buffer : Str} {tokens : List Str}

/-- The chunks have no more characters than the stripped text. -/
theorem length_streamChunks_le (buffer : Str) (tokens : List Str) :
    (streamChunks isdigit chunking buffer tokens).flatten.length ≤
      (strip (buffer ++ tokens.flatten)).length := by
  induction tokens generalizing buffer with
  | nil =>
    rw [streamChunks_nil, List.flatten_nil, List.append_nil]
    by_cases h : strip buffer = []
    · simp [flushRemainder_of_blank h]
    · simp [flushRemainder_of_text h]
  | cons token tokens ih =>
    rw [List.flatten_cons, ← List.append_assoc]
    cases h : flushes isdigit chunking (strip (buffer ++ token)) with
    | false =>
      rw [streamChunks_cons_of_waiting h]
      exact ih (buffer ++ token)
    | true =>
      rw [streamChunks_cons_of_flushes h, List.flatten_cons, List.length_append]
      have hlater := ih []
      rw [List.nil_append] at hlater
      by_cases hblank : strip tokens.flatten = []
      · rw [hblank, List.length_nil] at hlater
        rw [strip, strip, List.strip_append_of_nil hblank]
        omega
      · obtain ⟨gap, hgap, -⟩ := List.exists_strip_append (ne_nil_of_flushes h) hblank
        rw [strip, strip, hgap, List.length_append, List.length_append]
        rw [strip] at hlater
        omega

/-- The chunks put together are the stripped text exactly when every flush falls inside a word. -/
theorem flatten_streamChunks_iff (buffer : Str) (tokens : List Str) :
    (streamChunks isdigit chunking buffer tokens).flatten = strip (buffer ++ tokens.flatten) ↔
      FlushesInsideWords isdigit chunking buffer tokens := by
  induction tokens generalizing buffer with
  | nil =>
    rw [streamChunks_nil, List.flatten_nil, List.append_nil, FlushesInsideWords]
    by_cases h : strip buffer = []
    · simp [flushRemainder_of_blank h, h]
    · simp [flushRemainder_of_text h]
  | cons token tokens ih =>
    rw [List.flatten_cons, ← List.append_assoc, FlushesInsideWords]
    cases h : flushes isdigit chunking (strip (buffer ++ token)) with
    | false =>
      rw [streamChunks_cons_of_waiting h, if_neg (by simp)]
      exact ih (buffer ++ token)
    | true =>
      rw [streamChunks_cons_of_flushes h, if_pos rfl, List.flatten_cons, ← ih [], List.nil_append]
      have hle := @length_streamChunks_le isdigit chunking [] tokens
      rw [List.nil_append] at hle
      by_cases hblank : strip tokens.flatten = []
      · have hstrip : strip (buffer ++ token ++ tokens.flatten) = strip (buffer ++ token) :=
          List.strip_append_of_nil hblank
        rw [hstrip, hblank]
        simp [CutInsideWord, hblank]
      · obtain ⟨gap, hgap, hnil⟩ := List.exists_strip_append (ne_nil_of_flushes h) hblank
        rw [CutInsideWord, ← hnil]
        have hstrip : strip (buffer ++ token ++ tokens.flatten) =
            strip (buffer ++ token) ++ gap ++ strip tokens.flatten := hgap
        rw [hstrip, List.append_assoc, List.append_cancel_left_eq]
        constructor
        · intro heq
          have hlen := congrArg List.length heq
          rw [List.length_append] at hlen
          have hgap0 : gap = [] := List.length_eq_zero_iff.mp (by omega)
          refine ⟨fun _ ↦ hgap0, ?_⟩
          rw [heq, hgap0, List.nil_append]
        · rintro ⟨hgap0, heq⟩
          rw [hgap0 hblank, heq, List.nil_append]

/-! ### The whole way -/

open BibiCore.Session BibiCore.Gateway
open BibiCore.Proto (ChatMessage)

private theorem toList_join_chunks (chunks : List Str) :
    (String.join (chunks.map String.ofList)).toList = chunks.flatten := by
  rw [String.toList_join, List.flatMap_map]
  simp [List.flatMap_id']

private theorem join_of_prefix {chunks : List Str} {events : List Gateway.ChatEvent}
    {received : List Proto.ChatEvent}
    (hr : received <+: chunks.map chunkEvent ++ [doneEvent])
    (h : events ++ [.done] <+: received.map mapChatEvent) :
    String.join (events.filterMap ChatEvent.text?) = String.join (chunks.map String.ofList) := by
  have hmap : (chunks.map chunkEvent ++ [doneEvent]).map mapChatEvent =
      chunks.map (fun chunk ↦ Gateway.ChatEvent.chunk (String.ofList chunk)) ++ [.done] := by
    simp [Function.comp_def, mapChatEvent, chunkEvent, doneEvent]
  have hall := h.trans (hr.map mapChatEvent)
  rw [hmap] at hall
  rcases List.prefix_concat_iff.mp hall with heq | hpre
  · rw [List.append_inj_left' heq rfl, List.filterMap_map]
    simp [Function.comp_def, ChatEvent.text?]
  · have hmem := hpre.subset (List.mem_append_right events (List.mem_singleton_self _))
    simp at hmem

/-- In every run, the answer that the history keeps of a completed turn is, up to white space at
its ends, the text the engine generated exactly when every flush falls inside a word. -/
theorem answer_iff_flushesInsideWords (isdigit : Char → Bool) (chunking : ChunkingConfig)
    (engine : LLMEngine) (personality : ChatMessage) (w : World)
    (hr : Session.system.Reachable w) (i j : Nat) (c : LlmCall) (hj : w.answered[i]? = some j)
    (hc : w.llm[j]? = some c) (tokens : List Str) (events : List Proto.ChatEvent)
    (hgen : engine.streamResponse c.prompt (personality :: c.context) = ⟨tokens, none⟩)
    (hchat : streamChat isdigit chunking engine personality (fun _ ↦ false)
      ⟨c.prompt, c.context⟩ = .streamed events)
    (hserver : c.stream.received <+: events) :
    ∃ answer, w.history[2 * i + 1]? = some ⟨"assistant", answer⟩ ∧
      (strip answer.toList = strip tokens.flatten ↔
        FlushesInsideWords isdigit chunking [] tokens) := by
  obtain ⟨es, hhistory, hes⟩ := (exchanges_of_reachable hr).history
  obtain ⟨e, he, hx⟩ : ∃ e, es[i]? = some e ∧ w.answers.Exchanged j e := by
    obtain ⟨hi, rfl⟩ := List.getElem?_eq_some_iff.mp hj
    have hlt : i < es.length := hes.length_eq ▸ hi
    exact ⟨es.get ⟨i, hlt⟩, List.getElem?_eq_getElem hlt, hes.get hi hlt⟩
  obtain ⟨d, hd, -, -, evs, hpre, hanswer⟩ := hx
  obtain rfl : c.answer = d := by
    simpa [World.answers, hc] using hd
  have hdone : evs ++ [.done] <+: c.stream.received.map mapChatEvent := by
    apply (sound_of_reachable hr j c hc).relays.prefix_received
    · exact hpre.trans (List.prefix_append _ _)
    · intro _ _ h
      cases h
  have hevents := streamChat_of_completed hgen hchat
  rw [hevents] at hserver
  refine ⟨e.assistant, ?_, ?_⟩
  · rw [show w.history = _ from hhistory]
    exact getElem?_flatMap_messages he
  · have htrim : List.Trimmed isspace (streamChunks isdigit chunking [] tokens).flatten := by
      apply List.trimmed_flatten
      intro chunk hmem
      obtain ⟨hne, text, rfl⟩ := exists_strip_of_mem hmem
      exact ⟨hne, List.trimmed_strip isspace text⟩
    rw [hanswer, join_of_prefix hserver hdone, toList_join_chunks, strip, htrim.strip_eq]
    exact flatten_streamChunks_iff [] tokens

/-- An engine that answers everything with the same tokens. -/
def tokenEngine (tokens : List Str) : LLMEngine := ⟨.ok (), fun _ _ ↦ ⟨tokens, none⟩⟩

/-- One turn: the llm service sends `events`, and the session takes them. -/
def turnActions (events : List Proto.ChatEvent) : List Action :=
  startActions ++ finalActions 0 "hi" ++ [.forwardTranscripts 0 .next] ++
    events.flatMap fun event ↦
      [.llmRecvPump 0 (.message event), .llmRecvPump 0 .next] ++
        List.replicate 3 (.forwardLLMEvents 0 .next)

/-- A sentence with a full stop inside a word, where a token ends. -/
def addressTokens : List Str := ["See www.example.".toList, "org!\n".toList]

/-- A session whose answer was flushed inside a word alone. -/
theorem answer_iff_flushesInsideWords_run : ∃ (w : World) (answer : String),
    w.history[1]? = some ⟨"assistant", answer⟩ ∧
      strip answer.toList = strip addressTokens.flatten := by
  have hw : ∃ w c, Session.system.run (turnActions
        [chunkEvent "See www.example.".toList, chunkEvent "org!".toList, doneEvent]) = some w ∧
      w.answered[0]? = some 0 ∧ w.llm[0]? = some c ∧ c.stream.received =
        [chunkEvent "See www.example.".toList, chunkEvent "org!".toList, doneEvent] :=
    ⟨_, _, rfl, rfl, rfl, rfl⟩
  obtain ⟨w, c, hrun, hj, hc, hserver⟩ := hw
  have hchat : streamChat Char.isDigit .default (tokenEngine addressTokens) ⟨"system", ""⟩
      (fun _ ↦ false) ⟨c.prompt, c.context⟩ = .streamed
        [chunkEvent "See www.example.".toList, chunkEvent "org!".toList, doneEvent] := rfl
  obtain ⟨answer, hanswer, hiff⟩ := answer_iff_flushesInsideWords Char.isDigit .default
    (tokenEngine addressTokens) ⟨"system", ""⟩ w (TransitionSystem.reachable_of_run hrun) 0 0 c hj
    hc addressTokens _ rfl hchat (hserver ▸ List.prefix_rfl)
  exact ⟨w, answer, hanswer, hiff.mpr (by decide)⟩

/-- Two sentences, the space between them at the end of a token. -/
def sentenceTokens : List Str :=
  ["Hello there, friend. ".toList, "How are you doing today?".toList]

/-- The history runs the two sentences together. -/
theorem not_answer_eq : ∃ (w : World) (c : LlmCall) (answer : String),
    Session.system.Reachable w ∧ w.answered[0]? = some 0 ∧ w.llm[0]? = some c ∧
      streamChat Char.isDigit .default (tokenEngine sentenceTokens) ⟨"system", ""⟩ (fun _ ↦ false)
        ⟨c.prompt, c.context⟩ = .streamed c.stream.received ∧
      w.history[1]? = some ⟨"assistant", answer⟩ ∧
      answer = "Hello there, friend.How are you doing today?" ∧
      strip answer.toList ≠ strip sentenceTokens.flatten := by
  have hw : ∃ w c, Session.system.run (turnActions [chunkEvent "Hello there, friend.".toList,
        chunkEvent "How are you doing today?".toList, doneEvent]) = some w ∧
      w.answered[0]? = some 0 ∧ w.llm[0]? = some c ∧ c.stream.received =
        [chunkEvent "Hello there, friend.".toList, chunkEvent "How are you doing today?".toList,
          doneEvent] ∧
      w.history[1]? = some ⟨"assistant", "Hello there, friend.How are you doing today?"⟩ :=
    ⟨_, _, rfl, rfl, rfl, rfl, rfl⟩
  obtain ⟨w, c, hrun, hj, hc, hserver, hanswer⟩ := hw
  refine ⟨w, c, _, TransitionSystem.reachable_of_run hrun, hj, hc, ?_, hanswer, rfl, by decide⟩
  rw [hserver]
  rfl

end BibiCore.Llm
