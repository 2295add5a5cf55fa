import BibiCore.Base.PyStr
import BibiCore.Llm.Engine

/-!
# Sentence chunks

`llm/utils/chunker.py`: the tokens of a model are buffered into chunks for synthesis. The table
that `str.isdigit` looks up is a parameter.
-/

namespace BibiCore.Llm

open PyStr

/-- `ChunkingConfig`, `llm/config.py:25`. -/
structure ChunkingConfig where
  boundaryChars : List Str
  maxChunkChars : Int
  minChunkChars : Int
  deriving DecidableEq

/-- The defaults of `ChunkingConfig`. -/
def ChunkingConfig.default : ChunkingConfig := ⟨[['.'], ['?'], ['!']], 200, 10⟩

/-- `_ABBREVIATIONS`, `llm/utils/chunker.py:17`. -/
def abbreviations : List Str :=
  ["mr.", "mrs.", "ms.", "dr.", "prof.", "sr.", "jr.", "vs.", "etc."].map String.toList

/-- `_ends_with_abbreviation`, `llm/utils/chunker.py:20`. No character outside ASCII has one of the
abbreviations' letters as its lower case. -/
def endsWithAbbreviation (text : Str) : Bool :=
  let lastWord := if strip text ≠ [] then lower (lastWord (strip text)) else []
  decide (lastWord ∈ abbreviations)

section

variable (isdigit : Char → Bool) (chunking : ChunkingConfig)

/-- `_is_mid_number`, `llm/utils/chunker.py:25`. -/
def isMidNumber (text : Str) (boundaryChar : Char) : Bool :=
  if boundaryChar ≠ '.' then false
  else
    let idx := rfind text '.'
    if idx ≤ 0 ∨ (text.length : Int) - 1 ≤ idx then false
    else (text[(idx - 1).toNat]?).any isdigit && (text[(idx + 1).toNat]?).any isdigit

/-- The condition under which `chunk_stream` yields its stripped buffer. -/
def flushes (stripped : Str) : Bool :=
  match stripped.getLast? with
  | none => false
  | some lastChar =>
    let hitBoundary := decide ([lastChar] ∈ chunking.boundaryChars)
    let hitBoundary := hitBoundary && !isMidNumber isdigit stripped lastChar
    let hitBoundary := hitBoundary && !endsWithAbbreviation stripped
    let longEnough := decide (chunking.minChunkChars ≤ stripped.length)
    let forceFlush := decide (chunking.maxChunkChars ≤ stripped.length)
    (hitBoundary && longEnough) || forceFlush

/-- The `async for` of `chunk_stream`: the chunks it yields and the buffer it leaves. -/
def chunkTokens (buffer : Str) : List Str → List Str × Str
  | [] => ([], buffer)
  | token :: tokens =>
    let buffer := buffer ++ token
    let stripped := strip buffer
    if stripped = [] then chunkTokens buffer tokens
    else if flushes isdigit chunking stripped then
      (stripped :: (chunkTokens [] tokens).1, (chunkTokens [] tokens).2)
    else chunkTokens buffer tokens

/-- The flush at the end of the stream. -/
def flushRemainder (buffer : Str) : List Str :=
  let remainder := strip buffer
  if remainder ≠ [] then [remainder] else []

/-- `chunk_stream`, `llm/utils/chunker.py:35`: an exception of the token stream passes through it
before the last flush. -/
def chunkStream (tokenStream : Generator Str) : Generator Str :=
  let result := chunkTokens isdigit chunking [] tokenStream.items
  match tokenStream.raised with
  | some error => ⟨result.1, some error⟩
  | none => ⟨result.1 ++ flushRemainder result.2, none⟩

end

variable {isdigit : Char → Bool} {chunking : ChunkingConfig} {buffer token : Str}
  {tokens : List Str}

/-! ### One token -/

/-- A token that completes no chunk waits in the buffer. -/
theorem chunkTokens_cons_of_waiting
    (h : flushes isdigit chunking (strip (buffer ++ token)) = false) :
    chunkTokens isdigit chunking buffer (token :: tokens) =
      chunkTokens isdigit chunking (buffer ++ token) tokens := by
  simp [chunkTokens, h]

/-- No empty chunk is flushed. -/
theorem ne_nil_of_flushes {stripped : Str} (h : flushes isdigit chunking stripped = true) :
    stripped ≠ [] := by
  rintro rfl
  cases h

/-- A token that completes a chunk empties the buffer. -/
theorem chunkTokens_cons_of_flushes
    (h : flushes isdigit chunking (strip (buffer ++ token)) = true) :
    chunkTokens isdigit chunking buffer (token :: tokens) =
      (strip (buffer ++ token) :: (chunkTokens isdigit chunking [] tokens).1,
        (chunkTokens isdigit chunking [] tokens).2) := by
  simp [chunkTokens, h, ne_nil_of_flushes h]

/-- A chunk that is flushed is long enough for one of the two thresholds. -/
theorem length_of_flushes {stripped : Str} (h : flushes isdigit chunking stripped = true) :
    min chunking.minChunkChars chunking.maxChunkChars ≤ stripped.length := by
  unfold flushes at h
  split at h
  · cases h
  · simp only [Bool.or_eq_true, Bool.and_eq_true, decide_eq_true_eq] at h
    omega

/-! ### The whole stream -/

/-- The chunks of a stream that ends normally. -/
def streamChunks (isdigit : Char → Bool) (chunking : ChunkingConfig) (buffer : Str)
    (tokens : List Str) : List Str :=
  (chunkTokens isdigit chunking buffer tokens).1 ++
    flushRemainder (chunkTokens isdigit chunking buffer tokens).2

/-- When the tokens end, what is left is flushed. -/
@[simp] theorem streamChunks_nil :
    streamChunks isdigit chunking buffer [] = flushRemainder buffer := rfl

/-- A token that flushes nothing joins the buffer. -/
theorem streamChunks_cons_of_waiting
    (h : flushes isdigit chunking (strip (buffer ++ token)) = false) :
    streamChunks isdigit chunking buffer (token :: tokens) =
      streamChunks isdigit chunking (buffer ++ token) tokens := by
  rw [streamChunks, chunkTokens_cons_of_waiting h]
  rfl

/-- A token that flushes leaves the buffer empty. -/
theorem streamChunks_cons_of_flushes
    (h : flushes isdigit chunking (strip (buffer ++ token)) = true) :
    streamChunks isdigit chunking buffer (token :: tokens) =
      strip (buffer ++ token) :: streamChunks isdigit chunking [] tokens := by
  rw [streamChunks, chunkTokens_cons_of_flushes h]
  rfl

/-- White space is not flushed at the end. -/
theorem flushRemainder_of_blank (h : strip buffer = []) : flushRemainder buffer = [] := by
  simp [flushRemainder, h]

/-- Text is flushed at the end, stripped. -/
theorem flushRemainder_of_text (h : strip buffer ≠ []) :
    flushRemainder buffer = [strip buffer] := by
  simp [flushRemainder, h]

/-- The chunks are the text, less white space around them. -/
theorem streamChunks_interleaved (buffer : Str) (tokens : List Str) :
    List.Interleaved isspace (streamChunks isdigit chunking buffer tokens)
      (buffer ++ tokens.flatten) := by
  induction tokens generalizing buffer with
  | nil =>
    rw [streamChunks_nil, List.flatten_nil]
    by_cases h : strip buffer = []
    · rw [flushRemainder_of_blank h, List.append_nil]
      exact .nil (strip_eq_nil_iff.mp h)
    · rw [flushRemainder_of_text h]
      exact List.Interleaved.strip_cons (.nil (by simp)) buffer
  | cons token tokens ih =>
    rw [List.flatten_cons, ← List.append_assoc]
    cases h : flushes isdigit chunking (strip (buffer ++ token)) with
    | false =>
      rw [streamChunks_cons_of_waiting h]
      exact ih (buffer ++ token)
    | true =>
      rw [streamChunks_cons_of_flushes h]
      exact (ih []).strip_cons (buffer ++ token)

/-- Every chunk is what is left of a stripped buffer. -/
theorem exists_strip_of_mem {chunk : Str}
    (h : chunk ∈ streamChunks isdigit chunking buffer tokens) :
    chunk ≠ [] ∧ ∃ text, chunk = strip text := by
  induction tokens generalizing buffer with
  | nil =>
    rw [streamChunks_nil] at h
    by_cases hb : strip buffer = []
    · rw [flushRemainder_of_blank hb] at h
      cases h
    · rw [flushRemainder_of_text hb] at h
      rw [List.mem_singleton.mp h]
      exact ⟨hb, buffer, rfl⟩
  | cons token tokens ih =>
    cases hf : flushes isdigit chunking (strip (buffer ++ token)) with
    | false =>
      rw [streamChunks_cons_of_waiting hf] at h
      exact ih h
    | true =>
      rw [streamChunks_cons_of_flushes hf] at h
      rcases List.mem_cons.mp h with rfl | h
      · exact ⟨ne_nil_of_flushes hf, buffer ++ token, rfl⟩
      · exact ih h

/-- The chunks yielded before the end of the stream are long enough. -/
theorem length_of_mem_chunkTokens {chunk : Str}
    (h : chunk ∈ (chunkTokens isdigit chunking buffer tokens).1) :
    min chunking.minChunkChars chunking.maxChunkChars ≤ chunk.length := by
  induction tokens generalizing buffer with
  | nil => cases h
  | cons token tokens ih =>
    cases hf : flushes isdigit chunking (strip (buffer ++ token)) with
    | false =>
      rw [chunkTokens_cons_of_waiting hf] at h
      exact ih h
    | true =>
      rw [chunkTokens_cons_of_flushes hf] at h
      rcases List.mem_cons.mp h with rfl | h
      · exact length_of_flushes hf
      · exact ih h

/-- The text of the tokens is the chunks with white space around them, every chunk is nonempty and
begins and ends with something else, and every chunk but the last reaches the smaller of the two
thresholds. -/
theorem chunkStream_interleaved (isdigit : Char → Bool) (chunking : ChunkingConfig)
    (tokens : List Str) :
    let chunks := (chunkStream isdigit chunking ⟨tokens, none⟩).items
    List.Interleaved isspace chunks tokens.flatten ∧
      (∀ chunk ∈ chunks, chunk ≠ [] ∧ List.Trimmed isspace chunk) ∧
      ∀ chunk ∈ chunks.dropLast,
        min chunking.minChunkChars chunking.maxChunkChars ≤ chunk.length := by
  intro chunks
  refine ⟨streamChunks_interleaved [] tokens, fun chunk h ↦ ?_, fun chunk h ↦ ?_⟩
  · have hmem : chunk ∈ streamChunks isdigit chunking [] tokens := h
    obtain ⟨hne, text, rfl⟩ := exists_strip_of_mem hmem
    exact ⟨hne, List.trimmed_strip isspace text⟩
  · suffices hmem : chunk ∈ (chunkTokens isdigit chunking [] tokens).1 from
      length_of_mem_chunkTokens hmem
    by_cases hb : strip (chunkTokens isdigit chunking [] tokens).2 = []
    · have hc : chunks = (chunkTokens isdigit chunking [] tokens).1 := by
        rw [show chunks = _ ++ flushRemainder _ from rfl, flushRemainder_of_blank hb,
          List.append_nil]
      rw [hc] at h
      exact (List.dropLast_sublist _).subset h
    · have hc : chunks = (chunkTokens isdigit chunking [] tokens).1 ++
          [strip (chunkTokens isdigit chunking [] tokens).2] := by
        rw [show chunks = _ ++ flushRemainder _ from rfl, flushRemainder_of_text hb]
      rwa [hc, List.dropLast_concat] at h

example : (chunkStream Char.isDigit .default
    ⟨["Hello there, how are you doing today? ".toList, "Fine.".toList], none⟩).items =
      ["Hello there, how are you doing today?".toList, "Fine.".toList] := by decide

end BibiCore.Llm
