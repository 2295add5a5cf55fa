import BibiCore.Llm.Ollama
import BibiCore.Llm.Servicer

/-!
# The HTTP endpoints of the llm service

`/chat` and `/chat/stream` of `llm/api/routes.py`. The models of `llm/api/models.py` have the
fields of the proto messages. `cancelledAfter` says after how many chunks the task of the request
is cancelled, if it is. A line of the NDJSON stream is the object whose JSON text it is.
-/

namespace BibiCore.Llm

open PyStr
open BibiCore.Proto (ChatEvent ChatMessage ChatRequest)

/-- A JSON object of strings, in the order of its keys. -/
abbrev JsonObject := List (String × String)

/-- `HTTPException`. -/
structure HTTPException where
  statusCode : Nat
  detail : JsonObject
  deriving DecidableEq

/-- `ApiResponse`, `llm/api/models.py:6`. -/
structure ApiResponse where
  data : List JsonObject
  status : Nat
  message : String
  deriving DecidableEq

/-- The body of a streaming response, and whether a cancellation has ended it. -/
structure StreamingResponse where
  lines : List JsonObject
  cancelled : Bool
  deriving DecidableEq

/-- How the `async for` over the chunks ends. -/
inductive ChunksEnd where
  | finished
  | raised (error : LLMError)
  | cancelled
  deriving DecidableEq

/-- The chunks an `async for` reads before it ends, and how it ends. -/
def readChunks (cancelledAfter : Option Nat) (chunks : Generator Str) : List Str × ChunksEnd :=
  let ending := match chunks.raised with
    | some error => .raised error
    | none => .finished
  match cancelledAfter with
  | some n =>
    if n ≤ chunks.items.length then (chunks.items.take n, .cancelled) else (chunks.items, ending)
  | none => (chunks.items, ending)

/-- `_validate_prompt`, `llm/api/routes.py:16`. -/
def validatePrompt (prompt : String) : Except HTTPException Unit :=
  if strip prompt.toList = [] then
    .error ⟨400, [("code", "invalid_request"), ("message", "Prompt is required")]⟩
  else .ok ()

/-- `_ensure_engine_ready`, `llm/api/routes.py:24`. -/
def ensureEngineReady (engine : LLMEngine) : Except HTTPException Unit :=
  match engine.ensureModelAvailable with
  | .ok _ => .ok ()
  | .error (.modelNotFound model) =>
    .error ⟨404, [("code", (LLMError.modelNotFound model).code),
      ("message", (LLMError.modelNotFound model).message)]⟩
  | .error .ollamaUnreachable =>
    .error ⟨503, [("code", LLMError.ollamaUnreachable.code),
      ("message", LLMError.ollamaUnreachable.message)]⟩
  | .error error => .error ⟨500, [("code", "internal_error"), ("message", error.message)]⟩

/-- The object of a chunk. -/
def chunkLine (chunk : Str) : JsonObject := [("type", "chunk"), ("text", String.ofList chunk)]

/-- The object that ends a finished stream. -/
def doneLine : JsonObject := [("type", "done")]

/-- The object of an exception: an `LLMServiceError` has a code of its own. -/
def errorLine : LLMError → JsonObject
  | .other message => [("type", "error"), ("code", "internal_error"), ("message", message)]
  | error => [("type", "error"), ("code", error.code), ("message", error.message)]

/-- What `chat` raises for an exception of the generation. -/
def generationError : LLMError → HTTPException
  | .other message => ⟨500, [("type", "internal_error"), ("message", message)]⟩
  | error => ⟨400, [("type", "error"), ("code", error.code), ("message", error.message)]⟩

section

variable (isdigit : Char → Bool) (chunking : ChunkingConfig) (engine : LLMEngine)
  (personality : ChatMessage) (cancelledAfter : Option Nat)

/-- `chat`, `llm/api/routes.py:42`. -/
def chat (request : ChatRequest) : Except HTTPException ApiResponse := do
  validatePrompt request.prompt
  ensureEngineReady engine
  let history := personality :: request.conversationHistory
  let chunks := readChunks cancelledAfter
    (streamChatResponse isdigit chunking engine request.prompt history)
  let responseChunks := chunks.1.map chunkLine
  match chunks.2 with
  | .finished => return ⟨responseChunks ++ [doneLine], 200, "OK"⟩
  | .cancelled =>
    throw ⟨400, [("type", "error"), ("code", "stream_cancelled"), ("message", "stream cancelled")]⟩
  | .raised error => throw (generationError error)

/-- `chat_stream`, `llm/api/routes.py:85`. -/
def chatStream (request : ChatRequest) : Except HTTPException StreamingResponse := do
  validatePrompt request.prompt
  ensureEngineReady engine
  let history := personality :: request.conversationHistory
  let chunks := readChunks cancelledAfter
    (streamChatResponse isdigit chunking engine request.prompt history)
  let lines := chunks.1.map chunkLine
  match chunks.2 with
  | .finished => return ⟨lines ++ [doneLine], false⟩
  | .cancelled => return ⟨lines, true⟩
  | .raised error => return ⟨lines ++ [errorLine error], false⟩

end

/-! ### One sequence of events -/

/-- The line that stands for an event in the NDJSON stream. -/
def lineOf (event : ChatEvent) : JsonObject :=
  match event.type with
  | .chunk => [("type", "chunk"), ("text", event.text)]
  | .done => [("type", "done")]
  | .error => [("type", "error"), ("code", event.errorCode), ("message", event.errorMessage)]

/-- The event that ends a stream, by the exception that ended the chunks. -/
def lastEvent : Option LLMError → ChatEvent
  | none => doneEvent
  | some error => errorEvent error

/-- With an available Ollama engine, the handler's outcome is decided by what the client answers to
these messages, and by its answer to no other messages. -/
def HandsOver {β : Type} (handler : LLMEngine → β) (config : OllamaConfig)
    (messages : List ChatMessage) : Prop :=
  ∀ sent, (∀ client client' : ChatCall → ClientStream,
      client (chatCall config sent) = client' (chatCall config sent) →
      handler (ollamaEngine config (.ok ()) client) =
        handler (ollamaEngine config (.ok ()) client')) ↔
    sent = messages

section

variable {isdigit : Char → Bool} {chunking : ChunkingConfig} {engine : LLMEngine}
  {personality : ChatMessage} {request : ChatRequest}

/-- The line of an exception's event is the line of the exception. -/
theorem lineOf_errorEvent (error : LLMError) : lineOf (errorEvent error) = errorLine error := by
  cases error <;> rfl

private theorem validatePrompt_of_text (hprompt : strip request.prompt.toList ≠ []) :
    validatePrompt request.prompt = .ok () :=
  if_neg hprompt

private theorem ensureEngineReady_of_ok (hready : engine.ensureModelAvailable = .ok ()) :
    ensureEngineReady engine = .ok () := by
  rw [ensureEngineReady, hready]

/-- `StreamChat`, when nothing cancels it. -/
theorem streamChat_eq (hready : engine.ensureModelAvailable = .ok ())
    {chunks : Generator Str} (hchunks : streamChatResponse isdigit chunking engine request.prompt
      (personality :: request.conversationHistory) = chunks) :
    streamChat isdigit chunking engine personality (fun _ ↦ false) request =
      .streamed (chunks.items.map chunkEvent ++ [lastEvent chunks.raised]) := by
  unfold streamChat
  rw [hready]
  simp only [hchunks, sendChunks_of_not_cancelled]
  cases chunks.raised <;> rfl

/-- `/chat/stream`, when nothing cancels it. -/
theorem chatStream_eq (hready : engine.ensureModelAvailable = .ok ())
    (hprompt : strip request.prompt.toList ≠ [])
    {chunks : Generator Str} (hchunks : streamChatResponse isdigit chunking engine request.prompt
      (personality :: request.conversationHistory) = chunks) :
    chatStream isdigit chunking engine personality none request =
      .ok ⟨chunks.items.map chunkLine ++ [lineOf (lastEvent chunks.raised)], false⟩ := by
  simp only [chatStream, validatePrompt_of_text hprompt, ensureEngineReady_of_ok hready, hchunks]
  cases h : chunks.raised with
  | none => simp only [readChunks, h]; rfl
  | some error =>
    simp only [readChunks, h, lastEvent, lineOf_errorEvent]
    rfl

/-- What `/chat` makes of the chunks, when nothing cancels it. -/
def blockingOutcome (chunks : Generator Str) : Except HTTPException ApiResponse :=
  match chunks.raised with
  | none => .ok ⟨chunks.items.map chunkLine ++ [lineOf doneEvent], 200, "OK"⟩
  | some error => .error (generationError error)

/-- `/chat`, when nothing cancels it. -/
theorem chat_eq (hready : engine.ensureModelAvailable = .ok ())
    (hprompt : strip request.prompt.toList ≠ [])
    {chunks : Generator Str} (hchunks : streamChatResponse isdigit chunking engine request.prompt
      (personality :: request.conversationHistory) = chunks) :
    chat isdigit chunking engine personality none request = blockingOutcome chunks := by
  simp only [chat, validatePrompt_of_text hprompt, ensureEngineReady_of_ok hready, hchunks]
  cases h : chunks.raised with
  | none => simp only [readChunks, blockingOutcome, h]; rfl
  | some error => simp only [readChunks, blockingOutcome, h]; rfl

private theorem chunkStream_of_no_tokens (raised : Option LLMError) :
    chunkStream isdigit chunking ⟨[], raised⟩ = ⟨[], raised⟩ := by
  cases raised <;> rfl

/-- A handler whose outcome is decided by the chunks for a prompt and a history hands over that
history and then the prompt. -/
theorem handsOver_of_chunks {β : Type} {handler : LLMEngine → β} {config : OllamaConfig}
    {prompt : String} {history : List ChatMessage} (outcome : Generator Str → β)
    (hhandler : ∀ client, handler (ollamaEngine config (.ok ()) client) =
      outcome (streamChatResponse isdigit chunking (ollamaEngine config (.ok ()) client)
        prompt history))
    (hne : outcome ⟨[], none⟩ ≠ outcome ⟨[], some (.other "")⟩) :
    HandsOver handler config (history ++ [⟨"user", prompt⟩]) := by
  intro sent
  constructor
  · intro h
    by_contra hsent
    -- two clients that differ at the messages of the engine alone
    have hcall : chatCall config sent ≠ chatCall config (history ++ [⟨"user", prompt⟩]) :=
      fun heq ↦ hsent (congrArg ChatCall.messages heq)
    have heq := h (fun _ ↦ ⟨[], none⟩)
      (fun call ↦ if call = chatCall config (history ++ [⟨"user", prompt⟩])
        then ⟨[], some (.other "")⟩ else ⟨[], none⟩) (by rw [if_neg hcall])
    rw [hhandler, hhandler] at heq
    apply hne
    simpa [streamChatResponse, ollamaEngine, ollamaStreamResponse, streamError,
      chunkStream_of_no_tokens] using heq
  · intro hsent client client' h
    rw [hsent] at h
    rw [hhandler, hhandler]
    simp only [streamChatResponse, ollamaEngine, ollamaStreamResponse, h]

private theorem handsOver_streamChat (config : OllamaConfig) :
    HandsOver (streamChat isdigit chunking · personality (fun _ ↦ false) request) config
      (personality :: request.conversationHistory ++ [⟨"user", request.prompt⟩]) := by
  apply handsOver_of_chunks fun chunks ↦
    Reply.streamed (chunks.items.map chunkEvent ++ [lastEvent chunks.raised])
  · intro client
    exact streamChat_eq rfl rfl
  · simp [lastEvent, doneEvent, errorEvent]

private theorem handsOver_chatStream (hprompt : strip request.prompt.toList ≠ [])
    (config : OllamaConfig) :
    HandsOver (chatStream isdigit chunking · personality none request) config
      (personality :: request.conversationHistory ++ [⟨"user", request.prompt⟩]) := by
  apply handsOver_of_chunks fun chunks ↦ (.ok ⟨chunks.items.map chunkLine ++
    [lineOf (lastEvent chunks.raised)], false⟩ : Except HTTPException StreamingResponse)
  · intro client
    exact chatStream_eq rfl hprompt rfl
  · simp [lastEvent, doneEvent, errorEvent, lineOf]

private theorem handsOver_chat (hprompt : strip request.prompt.toList ≠ [])
    (config : OllamaConfig) :
    HandsOver (chat isdigit chunking · personality none request) config
      (personality :: request.conversationHistory ++ [⟨"user", request.prompt⟩]) := by
  apply handsOver_of_chunks blockingOutcome
  · intro client
    exact chat_eq rfl hprompt rfl
  · simp [blockingOutcome]

/-- Once the engine is ready, the three handlers make the same of one request: `StreamChat` streams
the chunks of the answer and one last event for its ending, `/chat/stream` the lines of these
events, and `/chat` returns these lines exactly when the last event is `DONE`. All three hand the
engine the same messages. -/
theorem handlers_agree (hready : engine.ensureModelAvailable = .ok ())
    (hprompt : strip request.prompt.toList ≠ []) :
    (∃ (chunks : List ChatEvent) (last : ChatEvent),
      chunks = (streamChatResponse isdigit chunking engine request.prompt
        (personality :: request.conversationHistory)).items.map chunkEvent ∧
      last = lastEvent (streamChatResponse isdigit chunking engine request.prompt
        (personality :: request.conversationHistory)).raised ∧
      (∀ event ∈ chunks, event.type = .chunk) ∧ last.type ≠ .chunk ∧
      streamChat isdigit chunking engine personality (fun _ ↦ false) request =
        .streamed (chunks ++ [last]) ∧
      chatStream isdigit chunking engine personality none request =
        .ok ⟨(chunks ++ [last]).map lineOf, false⟩ ∧
      ∀ response, chat isdigit chunking engine personality none request = .ok response ↔
        last.type = .done ∧ response = ⟨(chunks ++ [last]).map lineOf, 200, "OK"⟩) ∧
    ∀ config,
      HandsOver (streamChat isdigit chunking · personality (fun _ ↦ false) request) config
        (personality :: request.conversationHistory ++ [⟨"user", request.prompt⟩]) ∧
      HandsOver (chatStream isdigit chunking · personality none request) config
        (personality :: request.conversationHistory ++ [⟨"user", request.prompt⟩]) ∧
      HandsOver (chat isdigit chunking · personality none request) config
        (personality :: request.conversationHistory ++ [⟨"user", request.prompt⟩]) := by
  refine ⟨?_, fun config ↦ ⟨handsOver_streamChat config, handsOver_chatStream hprompt config,
    handsOver_chat hprompt config⟩⟩
  obtain ⟨⟨items, raised⟩, hchunks⟩ : ∃ chunks, streamChatResponse isdigit chunking engine
      request.prompt (personality :: request.conversationHistory) = chunks := ⟨_, rfl⟩
  have hlines : (items.map chunkEvent ++ [lastEvent raised]).map lineOf =
      items.map chunkLine ++ [lineOf (lastEvent raised)] := by
    rw [List.map_append, List.map_map]
    rfl
  refine ⟨items.map chunkEvent, lastEvent raised, by rw [hchunks], by rw [hchunks], ?_, ?_,
    streamChat_eq hready hchunks, ?_, ?_⟩
  · simp [chunkEvent]
  · cases raised <;> simp [lastEvent, doneEvent, errorEvent]
  · rw [hlines]
    exact chatStream_eq hready hprompt hchunks
  · intro response
    rw [hlines, chat_eq hready hprompt hchunks]
    cases raised with
    | none => simp [blockingOutcome, lastEvent, doneEvent, eq_comm]
    | some error => simp [blockingOutcome, lastEvent, errorEvent]

end

/-- An engine whose connection drops in the second sentence. -/
def droppingEngine : LLMEngine :=
  ollamaEngine ⟨"llama3.1", 0, 4096, "5m"⟩ (.ok ()) fun _ ↦
    ⟨["Good evening. ".toList, "I".toList], some (.readTimeout "timed out")⟩

/-- The engine whose connection drops. -/
theorem handlers_agree_dropped :
    droppingEngine.ensureModelAvailable = .ok () ∧ strip "Hello".toList ≠ [] ∧
      ∃ (chunks : List ChatEvent) (last : ChatEvent), last = ⟨.error, "", "stream_interrupted",
          "timed out"⟩ ∧
        streamChat Char.isDigit .default droppingEngine ⟨"system", "Bibi"⟩ (fun _ ↦ false)
          ⟨"Hello", []⟩ = .streamed (chunks ++ [last]) ∧
        chatStream Char.isDigit .default droppingEngine ⟨"system", "Bibi"⟩ none ⟨"Hello", []⟩ =
          .ok ⟨(chunks ++ [last]).map lineOf, false⟩ := by
  have hprompt : strip "Hello".toList ≠ [] := by decide
  obtain ⟨⟨chunks, last, -, -, -, -, hgrpc, hndjson, -⟩, -⟩ := @handlers_agree Char.isDigit .default
    droppingEngine ⟨"system", "Bibi"⟩ ⟨"Hello", []⟩ rfl hprompt
  refine ⟨rfl, hprompt, chunks, last, ?_, hgrpc, hndjson⟩
  have hstream : streamChat Char.isDigit .default droppingEngine ⟨"system", "Bibi"⟩
      (fun _ ↦ false) ⟨"Hello", []⟩ = .streamed ([chunkEvent "Good evening.".toList] ++
        [⟨.error, "", "stream_interrupted", "timed out"⟩]) := by decide +kernel
  rw [hstream] at hgrpc
  simpa using (List.append_inj_right' (Reply.streamed.inj hgrpc) rfl).symm

end BibiCore.Llm
