import BibiCore.Base.PyStr
import BibiCore.Proto

/-!
# Engines of the llm service

`llm/exceptions.py` and `llm/engines/base.py`.
-/

namespace BibiCore.Llm

/-- An exception the service can see: an `LLMServiceError`, `llm/exceptions.py`, by its class, and
any other. -/
inductive LLMError where
  | service (message : String)
  | modelNotFound (model : String)
  | ollamaUnreachable
  | streamInterrupted (reason : String)
  | other (message : String)
  deriving DecidableEq

/-- The `code` reported for the exception. -/
def LLMError.code : LLMError → String
  | .service _ => "llm_error"
  | .modelNotFound _ => "model_not_found"
  | .ollamaUnreachable => "ollama_unreachable"
  | .streamInterrupted _ => "stream_interrupted"
  | .other _ => "internal_error"

/-- `str(e)`. -/
def LLMError.message : LLMError → String
  | .service message => message
  | .modelNotFound model => s!"Model '{model}' not found. Try: ollama pull {model}"
  | .ollamaUnreachable => "Could not reach Ollama - is `ollama serve` running?"
  | .streamInterrupted reason => reason
  | .other message => message

/-- An asynchronous generator that is read to its end: what it yields, and the exception that ends
it, if one does. -/
structure Generator (α : Type) where
  items : List α
  raised : Option LLMError
  deriving DecidableEq

/-- `LLMEngine`, `llm/engines/base.py:6`, as one request finds it. -/
structure LLMEngine where
  ensureModelAvailable : Except LLMError Unit
  streamResponse : String → List Proto.ChatMessage → Generator PyStr.Str

end BibiCore.Llm
