import BibiCore.Llm.Engine

/-!
# The Ollama engine

`stream_response` of `llm/engines/ollama_engine.py`. The Ollama client is a parameter: what the
`async for` over `client.chat` reads, and the exception that ends it or the call.
-/

namespace BibiCore.Llm

open PyStr
open BibiCore.Proto (ChatMessage)

/-- `OllamaConfig`, `llm/config.py:7`, as `stream_response` reads it. -/
structure OllamaConfig where
  model : String
  temperature : ℚ
  contextWindow : Int
  keepAlive : String
  deriving DecidableEq

/-- The arguments of a streaming `client.chat`. -/
structure ChatCall where
  model : String
  messages : List ChatMessage
  temperature : ℚ
  numCtx : Int
  keepAlive : String
  deriving DecidableEq

/-- An exception of the client, with its `str(e)`: `ollama.ResponseError`, the three `httpx`
exceptions that are caught, and any other. -/
inductive ClientError where
  | responseError (statusCode : Int) (message : String)
  | connectError (message : String)
  | readTimeout (message : String)
  | remoteProtocolError (message : String)
  | other (message : String)
  deriving DecidableEq

/-- What `client.chat` gives: the contents of its chunks and the exception that ends them. -/
structure ClientStream where
  contents : List Str
  raised : Option ClientError
  deriving DecidableEq

/-- What `stream_response` raises for an exception of the client. -/
def streamError (config : OllamaConfig) : ClientError → LLMError
  | .responseError statusCode message =>
    if statusCode = 404 then .modelNotFound config.model else .streamInterrupted message
  | .connectError message => .streamInterrupted message
  | .readTimeout message => .streamInterrupted message
  | .remoteProtocolError message => .streamInterrupted message
  | .other message => .other message

/-- The call that `stream_response` makes with these messages. -/
def chatCall (config : OllamaConfig) (messages : List ChatMessage) : ChatCall :=
  ⟨config.model, messages, config.temperature, config.contextWindow, config.keepAlive⟩

/-- `OllamaEngine.stream_response`, `llm/engines/ollama_engine.py:75`. -/
def ollamaStreamResponse (config : OllamaConfig) (client : ChatCall → ClientStream)
    (prompt : String) (history : List ChatMessage) : Generator Str :=
  let messages := history ++ [⟨"user", prompt⟩]
  let stream := client (chatCall config messages)
  ⟨stream.contents.filter (· ≠ []), stream.raised.map (streamError config)⟩

/-- `OllamaEngine`, with the outcome of its `ensure_model_available`. -/
def ollamaEngine (config : OllamaConfig) (available : Except LLMError Unit)
    (client : ChatCall → ClientStream) : LLMEngine :=
  ⟨available, ollamaStreamResponse config client⟩

end BibiCore.Llm
