import BibiCore.Llm.Chunker

/-!
# `StreamChat`

`llm/engine_manager.py` and `llm/grpc_servicer.py`. The system prompt `personality` is a
parameter; `cancelled` says whether the context is cancelled when a chunk is about to be sent.
-/

namespace BibiCore.Llm

open PyStr
open BibiCore.Proto (ChatEvent ChatMessage ChatRequest)

/-- The status codes `StreamChat` aborts with. -/
inductive StatusCode where
  | notFound
  | unavailable
  deriving DecidableEq

/-- How a call of `StreamChat` ends: aborted, by an exception it does not catch, or with the events
it has streamed. -/
inductive Reply where
  | aborted (code : StatusCode) (details : String)
  | raised (error : LLMError)
  | streamed (events : List ChatEvent)
  deriving DecidableEq

/-- The `CHUNK` event of a chunk. -/
def chunkEvent (chunk : Str) : ChatEvent := ⟨.chunk, String.ofList chunk, "", ""⟩

/-- The `DONE` event. -/
def doneEvent : ChatEvent := ⟨.done, "", "", ""⟩

/-- The `ERROR` event of an exception. -/
def errorEvent (error : LLMError) : ChatEvent := ⟨.error, "", error.code, error.message⟩

/-- The `async for` of `StreamChat`, from chunk number `n` on: the events, and whether it has
returned. -/
def sendChunks (cancelled : Nat → Bool) (n : Nat) : List Str → List ChatEvent × Bool
  | [] => ([], false)
  | chunk :: chunks =>
    if cancelled n then ([], true)
    else
      (chunkEvent chunk :: (sendChunks cancelled (n + 1) chunks).1,
        (sendChunks cancelled (n + 1) chunks).2)

section

variable (isdigit : Char → Bool) (chunking : ChunkingConfig) (engine : LLMEngine)

/-- `EngineManager.stream_chat_response`, `llm/engine_manager.py:13`. -/
def streamChatResponse (prompt : String) (history : List ChatMessage) : Generator Str :=
  chunkStream isdigit chunking (engine.streamResponse prompt history)

/-- `StreamChat`, `llm/grpc_servicer.py:20`. -/
def streamChat (personality : ChatMessage) (cancelled : Nat → Bool) (request : ChatRequest) :
    Reply :=
  match engine.ensureModelAvailable with
  | .error (.modelNotFound model) => .aborted .notFound (LLMError.modelNotFound model).message
  | .error .ollamaUnreachable => .aborted .unavailable LLMError.ollamaUnreachable.message
  | .error error => .raised error
  | .ok _ =>
    let history := personality :: request.conversationHistory
    let chunks := streamChatResponse isdigit chunking engine request.prompt history
    let result := sendChunks cancelled 0 chunks.items
    if result.2 then .streamed result.1
    else
      match chunks.raised with
      | some error => .streamed (result.1 ++ [errorEvent error])
      | none => .streamed (result.1 ++ [doneEvent])

end

/-- A call that is not cancelled sends every chunk. -/
theorem sendChunks_of_not_cancelled (n : Nat) (chunks : List Str) :
    sendChunks (fun _ ↦ false) n chunks = (chunks.map chunkEvent, false) := by
  induction chunks generalizing n with
  | nil => rfl
  | cons chunk chunks ih => simp [sendChunks, ih]

variable {isdigit : Char → Bool} {chunking : ChunkingConfig} {engine : LLMEngine}

/-- A call that is not cancelled and whose tokens end normally streams the chunks and `DONE`. -/
theorem streamChat_of_completed {personality : ChatMessage} {request : ChatRequest}
    {tokens : List Str} {events : List ChatEvent}
    (hgen : engine.streamResponse request.prompt (personality :: request.conversationHistory) =
      ⟨tokens, none⟩)
    (h : streamChat isdigit chunking engine personality (fun _ ↦ false) request =
      .streamed events) :
    events = (streamChunks isdigit chunking [] tokens).map chunkEvent ++ [doneEvent] := by
  unfold streamChat at h
  split at h
  · cases h
  · cases h
  · cases h
  · simp only [streamChatResponse, hgen, sendChunks_of_not_cancelled] at h
    cases h
    rfl

end BibiCore.Llm
