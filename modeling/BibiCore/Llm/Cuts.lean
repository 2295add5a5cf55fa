import BibiCore.Llm.Chunker

/-!
# Where the text is cut

Each chunk that `chunk_stream` yields ends somewhere in the text of the model. Its two guards look
at the buffer alone: `_is_mid_number` never sees the character after a period, and
`_ends_with_abbreviation` sees a word only after a space.
-/

namespace BibiCore.Llm

open PyStr

/-- Each chunk with the text that follows it, the chunks being the text less white space around
them. -/
def cuts : List Str → Str → List (Str × Str)
  | [], _ => []
  | chunk :: chunks, text =>
    let rest := (text.dropWhile isspace).drop chunk.length
    (chunk, rest) :: cuts chunks rest

/-- The chunk ends in a digit and a period, and the text goes on with a digit. -/
def CutsNumber (isdigit : Char → Bool) (chunk rest : Str) : Prop :=
  chunk.getLast? = some '.' ∧ chunk.dropLast.getLast?.any isdigit = true ∧
    rest.head?.any isdigit = true

instance (isdigit : Char → Bool) (chunk rest : Str) : Decidable (CutsNumber isdigit chunk rest) :=
  inferInstanceAs (Decidable (_ ∧ _ ∧ _))

/-- The word at the end of a text, after white space of any kind. -/
def spacedWord (text : Str) : Str := text.rtakeWhile fun c ↦ !isspace c

/-- The character before the word at the end of a text. -/
def beforeSpacedWord (text : Str) : Option Char :=
  (text.rdropWhile fun c ↦ !isspace c).getLast?

section

variable (isdigit : Char → Bool) (chunking : ChunkingConfig)

/-- `P` holds, whenever a token has joined the buffer of `chunk_stream`, of the buffer and of the
tokens to come. -/
def AtEachToken (P : Str → List Str → Prop) (buffer : Str) : List Str → Prop
  | [] => True
  | token :: tokens =>
    P (buffer ++ token) tokens ∧
      if flushes isdigit chunking (strip (buffer ++ token)) then AtEachToken P [] tokens
      else AtEachToken P (buffer ++ token) tokens

instance decidableAtEachToken (P : Str → List Str → Prop) [∀ b ts, Decidable (P b ts)]
    (buffer : Str) :
    (tokens : List Str) → Decidable (AtEachToken isdigit chunking P buffer tokens)
  | [] => .isTrue trivial
  | token :: tokens =>
    have := decidableAtEachToken P [] tokens
    have := decidableAtEachToken P (buffer ++ token) tokens
    inferInstanceAs (Decidable (P (buffer ++ token) tokens ∧
      if flushes isdigit chunking (strip (buffer ++ token)) = true then
        AtEachToken isdigit chunking P [] tokens
      else AtEachToken isdigit chunking P (buffer ++ token) tokens))

/-- The buffer could end a sentence: a period is a boundary, and it is long enough and not too
long. -/
def AtPeriod (buffer : Str) : Prop :=
  ['.'] ∈ chunking.boundaryChars ∧ chunking.minChunkChars ≤ (strip buffer).length ∧
    (strip buffer).length < chunking.maxChunkChars

/-- A token ends at the decimal point of a number, which the next ones continue. -/
def TokenEndsInNumber (buffer : Str) (tokens : List Str) : Prop :=
  AtPeriod chunking buffer ∧ CutsNumber isdigit buffer tokens.flatten

/-- A token ends in an abbreviation, and the character before it is white space but no space. -/
def TokenHidesAbbreviation (buffer : Str) (_ : List Str) : Prop :=
  AtPeriod chunking buffer ∧ lower (spacedWord (strip buffer)) ∈ abbreviations ∧
    ∃ c ∈ beforeSpacedWord (strip buffer), c ≠ ' '

instance (buffer : Str) : Decidable (AtPeriod chunking buffer) :=
  inferInstanceAs (Decidable (_ ∧ _ ∧ _))

instance (buffer : Str) (tokens : List Str) :
    Decidable (TokenEndsInNumber isdigit chunking buffer tokens) :=
  inferInstanceAs (Decidable (_ ∧ _))

instance (buffer : Str) (tokens : List Str) :
    Decidable (TokenHidesAbbreviation chunking buffer tokens) :=
  inferInstanceAs (Decidable (_ ∧ _ ∧ _))

end

variable {isdigit : Char → Bool} {chunking : ChunkingConfig} {buffer token text : Str}
  {tokens : List Str}

/-! ### The text after a chunk -/

/-- White space before the text changes no cut. -/
theorem cuts_append_of_blank {gap : Str} (h : ∀ c ∈ gap, isspace c = true)
    (chunks : List Str) (text : Str) : cuts chunks (gap ++ text) = cuts chunks text := by
  cases chunks with
  | nil => rfl
  | cons chunk chunks => simp only [cuts, List.dropWhile_append_of_pos h]

/-- The cut of a chunk is before the white space at the end of its buffer. -/
theorem cuts_strip_cons (hne : strip buffer ≠ []) (chunks : List Str) (text : Str) :
    cuts (strip buffer :: chunks) (buffer ++ text) =
      (strip buffer, buffer.trail isspace ++ text) :: cuts chunks text := by
  have hblank : ∀ c ∈ buffer.trail isspace, isspace c = true := fun c ↦ List.of_mem_trail
  have hbuffer : buffer.dropWhile isspace ≠ [] := by
    rw [← List.strip_append_trail]
    exact List.append_ne_nil_of_left_ne_nil hne _
  have hrest : (buffer ++ text).dropWhile isspace =
      strip buffer ++ (buffer.trail isspace ++ text) := by
    rw [List.dropWhile_append, if_neg (by simpa using hbuffer), ← List.strip_append_trail,
      List.append_assoc]
    rfl
  rw [cuts, hrest, List.drop_left, cuts_append_of_blank hblank]

/-- Every chunk has one cut. -/
theorem map_fst_cuts (chunks : List Str) (text : Str) :
    (cuts chunks text).map Prod.fst = chunks := by
  induction chunks generalizing text with
  | nil => rfl
  | cons chunk chunks ih => rw [cuts, List.map_cons, ih]

/-! ### The conditions along a stream -/

private theorem atEachToken_congr {P Q : Str → List Str → Prop} (h : ∀ b ts, P b ts ↔ Q b ts) :
    AtEachToken isdigit chunking P buffer tokens ↔
      AtEachToken isdigit chunking Q buffer tokens := by
  induction tokens generalizing buffer with
  | nil => rfl
  | cons token tokens ih =>
    simp only [AtEachToken, h, ih]

/-- What every cut of a stream satisfies, told token by token. `last` is what is yielded at the
end. -/
theorem forall_cuts_iff (Q : Str → Str → Prop) (last : Str → List Str)
    (hlast : ∀ b, ∀ cut ∈ cuts (last b) b, Q cut.1 cut.2) :
    (∀ cut ∈ cuts ((chunkTokens isdigit chunking buffer tokens).1 ++
        last (chunkTokens isdigit chunking buffer tokens).2) (buffer ++ tokens.flatten),
      Q cut.1 cut.2) ↔
    AtEachToken isdigit chunking (fun b ts ↦ flushes isdigit chunking (strip b) = true →
      Q (strip b) (b.trail isspace ++ ts.flatten)) buffer tokens := by
  induction tokens generalizing buffer with
  | nil =>
    simp only [chunkTokens, List.nil_append, List.flatten_nil, List.append_nil, AtEachToken,
      iff_true]
    exact hlast buffer
  | cons token tokens ih =>
    rw [List.flatten_cons, ← List.append_assoc, AtEachToken]
    cases hf : flushes isdigit chunking (strip (buffer ++ token)) with
    | false =>
      rw [chunkTokens_cons_of_waiting hf, ih]
      simp
    | true =>
      rw [chunkTokens_cons_of_flushes hf, List.cons_append,
        cuts_strip_cons (ne_nil_of_flushes hf), List.forall_mem_cons]
      have hnil := @ih []
      rw [List.nil_append] at hnil
      rw [hnil]
      simp

/-- A cut is a place in the text: its chunk stands right before it. -/
theorem exists_eq_of_mem_cuts {last : Str → List Str}
    (hlast : ∀ b, ∀ cut ∈ cuts (last b) b, ∃ pre, b = pre ++ cut.1 ++ cut.2) :
    ∀ cut ∈ cuts ((chunkTokens isdigit chunking buffer tokens).1 ++
        last (chunkTokens isdigit chunking buffer tokens).2) (buffer ++ tokens.flatten),
      ∃ pre, buffer ++ tokens.flatten = pre ++ cut.1 ++ cut.2 := by
  induction tokens generalizing buffer with
  | nil =>
    rw [List.flatten_nil, List.append_nil]
    exact hlast buffer
  | cons token tokens ih =>
    rw [List.flatten_cons, ← List.append_assoc]
    cases hf : flushes isdigit chunking (strip (buffer ++ token)) with
    | false =>
      rw [chunkTokens_cons_of_waiting hf]
      exact ih
    | true =>
      rw [chunkTokens_cons_of_flushes hf, List.cons_append,
        cuts_strip_cons (ne_nil_of_flushes hf), List.forall_mem_cons]
      constructor
      · refine ⟨(buffer ++ token).takeWhile isspace, ?_⟩
        rw [← List.append_assoc, strip, List.takeWhile_append_strip_append_trail]
      · intro cut hcut
        obtain ⟨pre, hpre⟩ := @ih [] cut hcut
        rw [List.nil_append] at hpre
        refine ⟨buffer ++ token ++ pre, ?_⟩
        simp only [hpre, List.append_assoc]

/-- A period that ends the buffer is never in the middle of a number. -/
theorem isMidNumber_of_getLast? (h : text.getLast? = some '.') :
    isMidNumber isdigit text '.' = false := by
  obtain ⟨front, rfl⟩ := List.getLast?_eq_some_iff.mp h
  have hrfind : rfind (front ++ ['.']) '.' = front.length := by
    simp [rfind, List.findIdx?_cons]
  simp [isMidNumber, hrfind]

/-- At a period the loop flushes a buffer that is not too long if a period is a boundary, the
buffer is long enough, and it does not seem to end in an abbreviation. -/
theorem flushes_at_period (h : text.getLast? = some '.')
    (hshort : (text.length : Int) < chunking.maxChunkChars) :
    flushes isdigit chunking text = true ↔
      ['.'] ∈ chunking.boundaryChars ∧ chunking.minChunkChars ≤ text.length ∧
        endsWithAbbreviation text = false := by
  have hforce : ¬ chunking.maxChunkChars ≤ (text.length : Int) := by omega
  simp only [flushes, h, isMidNumber_of_getLast? h, hforce, decide_false, Bool.or_false,
    Bool.not_false, Bool.and_true, Bool.and_eq_true, decide_eq_true_eq, Bool.not_eq_true']
  tauto

/-! ### Numbers -/

/-- A cut inside a number has a digit on each side of the period. -/
theorem cutsNumber_iff {chunk rest : Str} :
    CutsNumber isdigit chunk rest ↔ ∃ front d e rest', chunk = front ++ [d, '.'] ∧
      rest = e :: rest' ∧ isdigit d = true ∧ isdigit e = true := by
  constructor
  · rintro ⟨hlast, hd, he⟩
    obtain ⟨front, rfl⟩ := List.getLast?_eq_some_iff.mp hlast
    rw [List.dropLast_concat, Option.any_eq_true] at hd
    obtain ⟨d, hd, hdigit⟩ := hd
    obtain ⟨front, rfl⟩ := List.getLast?_eq_some_iff.mp hd
    obtain ⟨e, he, hdigit'⟩ := (Option.any_eq_true ..).mp he
    obtain ⟨rest', rfl⟩ := List.head?_eq_some_iff.mp he
    exact ⟨front, d, e, rest', by simp, rfl, hdigit, hdigit'⟩
  · rintro ⟨front, d, e, rest', rfl, rfl, hd, he⟩
    rw [show front ++ [d, '.'] = front ++ [d] ++ ['.'] by simp]
    refine ⟨List.getLast?_concat .., ?_, he⟩
    rw [List.dropLast_concat, List.getLast?_concat]
    exact hd

/-- A digit and a period at the end of the buffer are not cut off. -/
theorem strip_number {d : Char} (hd : isspace d = false) (front : Str) :
    strip (front ++ [d, '.']) = front.dropWhile isspace ++ [d, '.'] ∧
      (front ++ [d, '.']).trail isspace = [] := by
  have hdrop : (front ++ [d, '.']).dropWhile isspace = front.dropWhile isspace ++ [d, '.'] := by
    rw [List.dropWhile_append, List.dropWhile_cons_of_neg (by simp [hd])]
    split
    · rename_i hempty
      rw [List.isEmpty_iff.mp hempty, List.nil_append]
    · rfl
  have hend : front.dropWhile isspace ++ [d, '.'] = front.dropWhile isspace ++ [d] ++ ['.'] := by
    simp
  constructor
  · rw [strip, List.strip, hdrop, hend, List.rdropWhile_concat_neg _ _ _ (by decide)]
  · rw [List.trail, hdrop, hend, List.rtakeWhile_concat_neg _ _ _ (by decide)]

/-- Stripping the buffer keeps the digit and the period at its end. -/
theorem cutsNumber_strip_iff (hdigit : ∀ c, isdigit c = true → isspace c = false) {rest : Str} :
    CutsNumber isdigit (strip buffer) (buffer.trail isspace ++ rest) ↔
      CutsNumber isdigit buffer rest := by
  have hbuffer : buffer.takeWhile isspace ++ strip buffer ++ buffer.trail isspace = buffer :=
    List.takeWhile_append_strip_append_trail isspace buffer
  rw [cutsNumber_iff, cutsNumber_iff]
  constructor
  · rintro ⟨front, d, e, rest', hstrip, hrest, hd, he⟩
    have htrail : buffer.trail isspace = [] := by
      by_contra hne
      obtain ⟨c, trail, hc⟩ := List.exists_cons_of_ne_nil hne
      rw [hc, List.cons_append, List.cons.injEq] at hrest
      have hspace : isspace c = true := List.of_mem_trail (hc ▸ List.mem_cons_self)
      rw [hrest.1, hdigit e he] at hspace
      cases hspace
    rw [htrail, List.nil_append] at hrest
    refine ⟨buffer.takeWhile isspace ++ front, d, e, rest', ?_, hrest, hd, he⟩
    rw [List.append_assoc, ← hstrip]
    rw [htrail, List.append_nil] at hbuffer
    exact hbuffer.symm
  · rintro ⟨front, d, e, rest', hfront, hrest, hd, he⟩
    subst hfront
    obtain ⟨hstrip, htrail⟩ := strip_number (hdigit d hd) front
    rw [hstrip, htrail, List.nil_append]
    exact ⟨_, d, e, rest', rfl, hrest, hd, he⟩

/-- The code points of the ASCII letters. -/
theorem isAlpha_eq_false_iff {c : Char} : c.isAlpha = false ↔
    ¬ (65 ≤ c.toNat ∧ c.toNat ≤ 90) ∧ ¬ (97 ≤ c.toNat ∧ c.toNat ≤ 122) := by
  change (decide ('A'.val ≤ c.val ∧ c.val ≤ 'Z'.val) ||
    (decide ('a'.val ≤ c.val) && decide (c.val ≤ 'z'.val))) = false ↔ _
  rw [← Bool.decide_and, Bool.or_eq_false_iff, decide_eq_false_iff_not, decide_eq_false_iff_not]
  exact Iff.rfl

/-- Only the capital ASCII letters change in lower case. -/
theorem toNat_toLower (c : Char) :
    c.toLower.toNat = if 65 ≤ c.toNat ∧ c.toNat ≤ 90 then c.toNat + 32 else c.toNat := by
  by_cases h : 65 ≤ c.toNat ∧ c.toNat ≤ 90
  · have hlower : c.toLower.val = c.val + ('a'.val - 'A'.val) :=
      congrArg Char.val (dif_pos (h : c.val ≥ 'A'.val ∧ c.val ≤ 'Z'.val))
    have hcode : c.toLower.toNat = (c.toNat + 32) % 2 ^ 32 := congrArg UInt32.toNat hlower
    rw [if_pos h, hcode]
    omega
  · rw [if_neg h]
    exact congrArg Char.toNat (dif_neg (h : ¬ (c.val ≥ 'A'.val ∧ c.val ≤ 'Z'.val)))

/-- A character that is no ASCII letter is its own lower case. -/
theorem toLower_of_not_alpha {c : Char} (h : c.isAlpha = false) : c.toLower = c := by
  apply Char.toNat_inj.mp
  rw [toNat_toLower, if_neg (isAlpha_eq_false_iff.mp h).1]

/-- No abbreviation has a digit before its period. -/
theorem endsWithAbbreviation_number {d : Char} (hspace : isspace d = false)
    (halpha : d.isAlpha = false) (front : Str) :
    endsWithAbbreviation (front ++ [d, '.']) = false := by
  have hletter : ∀ w ∈ abbreviations, w.dropLast.getLast?.any Char.isAlpha = true := by decide
  have hd : d ≠ ' ' := by
    rintro rfl
    cases hspace
  have hword : lastWord (front.dropWhile isspace ++ [d, '.']) =
      lastWord (front.dropWhile isspace) ++ [d] ++ ['.'] := by
    rw [lastWord, show front.dropWhile isspace ++ [d, '.'] =
        front.dropWhile isspace ++ [d] ++ ['.'] by simp,
      List.rtakeWhile_concat_pos _ _ _ (by decide), List.rtakeWhile_concat_pos _ _ _ (by simpa)]
    rfl
  simp only [endsWithAbbreviation, (strip_number hspace front).1, hword, decide_eq_false_iff_not]
  intro hmem
  have hany := hletter _ hmem
  simp [lower, toLower_of_not_alpha halpha, halpha] at hany

/-- A chunk that is flushed before it is too long cuts a number exactly when its last token ends
at the decimal point. -/
theorem flushes_cutsNumber_iff
    (hdigit : ∀ c, isdigit c = true → isspace c = false ∧ c.isAlpha = false) {rest : Str} :
    (flushes isdigit chunking (strip buffer) = true →
      ((strip buffer).length : Int) < chunking.maxChunkChars →
        ¬ CutsNumber isdigit (strip buffer) (buffer.trail isspace ++ rest)) ↔
    ¬ (AtPeriod chunking buffer ∧ CutsNumber isdigit buffer rest) := by
  rw [cutsNumber_strip_iff fun c hc ↦ (hdigit c hc).1]
  constructor
  · rintro h ⟨⟨hperiod, hlong, hshort⟩, hcuts⟩
    refine h ?_ hshort hcuts
    obtain ⟨front, d, e, rest', rfl, -, hd, -⟩ := cutsNumber_iff.mp hcuts
    obtain ⟨hspace, halpha⟩ := hdigit d hd
    rw [(strip_number hspace front).1] at hlong hshort ⊢
    exact (flushes_at_period (by simp) hshort).mpr
      ⟨hperiod, hlong, endsWithAbbreviation_number hspace halpha _⟩
  · rintro h hflush hshort hcuts
    obtain ⟨front, d, e, rest', rfl, -, hd, -⟩ := cutsNumber_iff.mp hcuts
    have hlast : (strip (front ++ [d, '.'])).getLast? = some '.' := by
      rw [(strip_number (hdigit d hd).1 front).1]
      simp
    obtain ⟨hperiod, hlong, -⟩ := (flushes_at_period hlast hshort).mp hflush
    exact h ⟨⟨hperiod, hlong, hshort⟩, hcuts⟩

/-- What is left at the end of the stream is followed by white space alone. -/
theorem mem_cuts_flushRemainder {cut : Str × Str} (h : cut ∈ cuts (flushRemainder buffer) buffer) :
    cut = (strip buffer, buffer.trail isspace) := by
  by_cases hne : strip buffer = []
  · rw [flushRemainder_of_blank hne] at h
    cases h
  · have hcuts := cuts_strip_cons hne [] []
    rw [List.append_nil, List.append_nil] at hcuts
    rw [flushRemainder_of_text hne, hcuts] at h
    exact List.mem_singleton.mp h

/-- No chunk that `chunk_stream` yields before it is too long ends inside a decimal number, exactly
when no token ends at the decimal point of one, after a text that may be flushed there. -/
theorem chunkStream_cutsNumber_iff (isdigit : Char → Bool)
    (hdigit : ∀ c, isdigit c = true → isspace c = false ∧ c.isAlpha = false)
    (chunking : ChunkingConfig) (tokenStream : Generator Str) :
    (∀ cut ∈ cuts (chunkStream isdigit chunking tokenStream).items tokenStream.items.flatten,
      (cut.1.length : Int) < chunking.maxChunkChars → ¬ CutsNumber isdigit cut.1 cut.2) ↔
    AtEachToken isdigit chunking (fun buffer tokens ↦
      ¬ TokenEndsInNumber isdigit chunking buffer tokens) [] tokenStream.items := by
  -- the loop, whatever is yielded after it
  have hloop : ∀ last : Str → List Str,
      (∀ b, ∀ cut ∈ cuts (last b) b, ¬ CutsNumber isdigit cut.1 cut.2) →
      ((∀ cut ∈ cuts ((chunkTokens isdigit chunking [] tokenStream.items).1 ++
          last (chunkTokens isdigit chunking [] tokenStream.items).2) tokenStream.items.flatten,
        (cut.1.length : Int) < chunking.maxChunkChars → ¬ CutsNumber isdigit cut.1 cut.2) ↔
      AtEachToken isdigit chunking (fun buffer tokens ↦
        ¬ TokenEndsInNumber isdigit chunking buffer tokens) [] tokenStream.items) := by
    intro last hlast
    refine (forall_cuts_iff (fun chunk rest ↦ (chunk.length : Int) < chunking.maxChunkChars →
      ¬ CutsNumber isdigit chunk rest) last fun b cut hcut _ ↦ hlast b cut hcut).trans ?_
    exact atEachToken_congr fun b ts ↦ flushes_cutsNumber_iff hdigit
  obtain ⟨tokens, raised⟩ := tokenStream
  cases raised with
  | some error =>
    have h := hloop (fun _ ↦ []) (by simp [cuts])
    rwa [List.append_nil] at h
  | none =>
    apply hloop flushRemainder
    intro b cut hcut ⟨_, _, hnext⟩
    rw [mem_cuts_flushRemainder hcut, Option.any_eq_true] at hnext
    obtain ⟨c, hc, hd⟩ := hnext
    have hspace : isspace c = true := List.of_mem_trail (List.mem_of_mem_head? hc)
    rw [(hdigit c hd).1] at hspace
    cases hspace

/-- Every chunk of a stream has its cut, and stands before it in the text. -/
theorem chunkStream_cuts (isdigit : Char → Bool) (chunking : ChunkingConfig)
    (tokenStream : Generator Str) :
    let chunks := (chunkStream isdigit chunking tokenStream).items
    let text := tokenStream.items.flatten
    (cuts chunks text).map Prod.fst = chunks ∧
      ∀ cut ∈ cuts chunks text, ∃ pre, text = pre ++ cut.1 ++ cut.2 := by
  refine ⟨map_fst_cuts .., ?_⟩
  obtain ⟨tokens, raised⟩ := tokenStream
  cases raised with
  | some error =>
    have h := @exists_eq_of_mem_cuts isdigit chunking [] tokens (fun _ ↦ []) (by simp [cuts])
    rwa [List.append_nil] at h
  | none =>
    refine @exists_eq_of_mem_cuts isdigit chunking [] tokens flushRemainder fun b cut hcut ↦ ?_
    rw [mem_cuts_flushRemainder hcut]
    exact ⟨_, (List.takeWhile_append_strip_append_trail isspace b).symm⟩

/-- A number cut by its tokens is cut by the chunks. -/
theorem chunkStream_cuts_number :
    ∃ cut ∈ cuts (chunkStream Char.isDigit .default
        ⟨["The reading was 3.".toList, "14 on the gauge.".toList], none⟩).items
        ["The reading was 3.".toList, "14 on the gauge.".toList].flatten,
      (cut.1.length : Int) < ChunkingConfig.default.maxChunkChars ∧
        CutsNumber Char.isDigit cut.1 cut.2 := by
  decide

/-- The ASCII digits are no white space and no letters. -/
theorem isDigit_ascii (c : Char) (h : c.isDigit = true) :
    isspace c = false ∧ c.isAlpha = false := by
  have hrange : 48 ≤ c.toNat ∧ c.toNat ≤ 57 := by
    simpa [Char.isDigit, UInt32.le_iff_toNat_le] using h
  constructor
  · simp only [isspace, List.mem_cons, List.not_mem_nil, or_false, decide_eq_false_iff_not]
    omega
  · rw [isAlpha_eq_false_iff]
    omega

/-- Two sentences with a number each, the first of which is cut by the tokens at its decimal point
before the text is long enough. -/
def readings : List Str :=
  ["3.".toList, "14 was read.".toList, " It held at 2".toList, ".5".toList, " all day.".toList]

/-- Tokens that end in numbers cut none of them where they may not be flushed. -/
theorem chunkStream_cutsNumber_readings :
    (chunkStream Char.isDigit .default ⟨readings, none⟩).items =
        ["3.14 was read.".toList, "It held at 2.5 all day.".toList] ∧
      CutsNumber Char.isDigit "3.".toList readings.tail.flatten ∧
      ∀ cut ∈ cuts (chunkStream Char.isDigit .default ⟨readings, none⟩).items readings.flatten,
        (cut.1.length : Int) < ChunkingConfig.default.maxChunkChars →
          ¬ CutsNumber Char.isDigit cut.1 cut.2 :=
  ⟨by decide, by decide, (chunkStream_cutsNumber_iff Char.isDigit isDigit_ascii .default
    ⟨readings, none⟩).mpr (by decide)⟩

/-! ### Abbreviations -/

/-- Every abbreviation ends in a period and has no white space. -/
theorem abbreviations_spec :
    ∀ w ∈ abbreviations, w.getLast? = some '.' ∧ ∀ c ∈ w, isspace c = false := by
  have hall : (abbreviations.all fun w ↦ w.getLast? = some '.' && w.all fun c ↦ !isspace c) =
      true := by decide
  intro w hw
  simpa using List.all_eq_true.mp hall w hw

/-- Only a period is a period in lower case. -/
theorem eq_period_of_toLower {c : Char} (h : c.toLower = '.') : c = '.' := by
  have hcode := toNat_toLower c
  rw [h] at hcode
  apply Char.toNat_inj.mp
  change 46 = _ at hcode
  change _ = 46
  split at hcode <;> omega

/-- White space has no lower case of its own. -/
theorem toLower_of_isspace {c : Char} (h : isspace c = true) : c.toLower = c := by
  apply toLower_of_not_alpha
  simp only [isspace, List.mem_cons, List.not_mem_nil, or_false, decide_eq_true_eq] at h
  rw [isAlpha_eq_false_iff]
  omega

/-- The word after a space, taken apart where white space of any kind ends. -/
theorem lastWord_eq (text : Str) :
    lastWord text = lastWord (text.rdropWhile fun c ↦ !isspace c) ++ spacedWord text := by
  have hword : ∀ c ∈ (spacedWord text).reverse, decide (c ≠ ' ') = true := by
    intro c hc
    have hspace := List.mem_rtakeWhile_imp (List.mem_reverse.mp hc)
    rw [decide_eq_true_eq]
    rintro rfl
    cases hspace
  conv_lhs => rw [← List.rdropWhile_append_rtakeWhile (p := fun c ↦ !isspace c) (l := text)]
  rw [lastWord, List.rtakeWhile, List.reverse_append, ← spacedWord,
    List.takeWhile_append_of_pos hword, List.reverse_append, List.reverse_reverse]
  rfl

/-- The guard finds an abbreviation only after a space or at the beginning. -/
theorem endsWithAbbreviation_iff (htrim : strip text = text) :
    endsWithAbbreviation text = true ↔
      lower (spacedWord text) ∈ abbreviations ∧ ∀ c ∈ beforeSpacedWord text, c = ' ' := by
  have hguard : endsWithAbbreviation text = true ↔ lower (lastWord text) ∈ abbreviations := by
    rw [endsWithAbbreviation, htrim, decide_eq_true_eq]
    by_cases hnil : text = []
    · subst hnil
      simp [lastWord, lower]
    · rw [if_pos hnil]
  rw [hguard, lastWord_eq]
  cases hbefore : beforeSpacedWord text with
  | none =>
    rw [List.getLast?_eq_none_iff.mp hbefore]
    simp [lastWord]
  | some c =>
    obtain ⟨front, hfront⟩ := List.getLast?_eq_some_iff.mp hbefore
    have hspace : isspace c = true := by
      have hlast := List.rdropWhile_last_not (fun c ↦ !isspace c) text (by simp [hfront])
      simpa [hfront] using hlast
    rw [hfront, lastWord, List.rtakeWhile_concat]
    by_cases hc : c = ' '
    · simp [hc]
    · have hmem : c ∈ lower (List.rtakeWhile (fun c ↦ decide (c ≠ ' ')) front ++ [c] ++
          spacedWord text) := by
        refine List.mem_map.mpr ⟨c, by simp, toLower_of_isspace hspace⟩
      simp only [hc, ne_eq, not_false_eq_true, decide_true, if_true]
      constructor
      · intro h
        have hnot := (abbreviations_spec _ h).2 c hmem
        rw [hspace] at hnot
        cases hnot
      · rintro ⟨-, hall⟩
        exact absurd (hall c rfl) hc

/-- A word that is an abbreviation ends the text in a period. -/
theorem getLast?_of_spacedWord (h : lower (spacedWord text) ∈ abbreviations) :
    text.getLast? = some '.' := by
  have hlast := (abbreviations_spec _ h).1
  rw [lower, List.getLast?_map, Option.map_eq_some_iff] at hlast
  obtain ⟨c, hc, hperiod⟩ := hlast
  rw [eq_period_of_toLower hperiod] at hc
  rw [← List.rdropWhile_append_rtakeWhile (p := fun c ↦ !isspace c) (l := text),
    List.getLast?_append, ← spacedWord, hc]
  rfl

/-- A chunk that is flushed before it is too long ends in an abbreviation exactly when the white
space before it is no space. -/
theorem flushes_spacedWord_iff :
    (flushes isdigit chunking (strip buffer) = true →
      ((strip buffer).length : Int) < chunking.maxChunkChars →
        lower (spacedWord (strip buffer)) ∉ abbreviations) ↔
    ¬ TokenHidesAbbreviation chunking buffer tokens := by
  have htrim : strip (strip buffer) = strip buffer := (List.trimmed_strip isspace buffer).strip_eq
  have hguard := endsWithAbbreviation_iff htrim
  constructor
  · rintro h ⟨⟨hperiod, hlong, hshort⟩, hword, c, hc, hne⟩
    refine h ?_ hshort hword
    refine (flushes_at_period (getLast?_of_spacedWord hword) hshort).mpr ⟨hperiod, hlong, ?_⟩
    rw [Bool.eq_false_iff, Ne, hguard]
    exact fun ⟨_, hall⟩ ↦ hne (hall c hc)
  · rintro h hflush hshort hword
    obtain ⟨hperiod, hlong, hend⟩ :=
      (flushes_at_period (getLast?_of_spacedWord hword) hshort).mp hflush
    rw [Bool.eq_false_iff, Ne, hguard] at hend
    refine h ⟨⟨hperiod, hlong, hshort⟩, hword, ?_⟩
    by_contra hnone
    exact hend ⟨hword, fun c hc ↦ by_contra fun hne ↦ hnone ⟨c, hc, hne⟩⟩

/-- No chunk that is yielded before the end of the stream, before it is too long, ends in an
abbreviation, exactly when no token ends in one after white space that is no space. -/
theorem chunkTokens_spacedWord_iff (isdigit : Char → Bool) (chunking : ChunkingConfig)
    (tokens : List Str) :
    (∀ chunk ∈ (chunkTokens isdigit chunking [] tokens).1,
      (chunk.length : Int) < chunking.maxChunkChars →
        lower (spacedWord chunk) ∉ abbreviations) ↔
    AtEachToken isdigit chunking (fun buffer tokens ↦
      ¬ TokenHidesAbbreviation chunking buffer tokens) [] tokens := by
  have hcuts := @forall_cuts_iff isdigit chunking [] tokens (fun chunk _ ↦ (chunk.length : Int) <
    chunking.maxChunkChars → lower (spacedWord chunk) ∉ abbreviations) (fun _ ↦ []) (by simp [cuts])
  rw [List.append_nil, List.nil_append] at hcuts
  rw [← map_fst_cuts (chunkTokens isdigit chunking [] tokens).1 tokens.flatten, List.forall_mem_map,
    hcuts]
  exact atEachToken_congr fun b ts ↦ flushes_spacedWord_iff

/-- An abbreviation after a line feed ends a chunk. -/
theorem chunkTokens_spacedWord_line :
    ∃ chunk ∈ (chunkTokens Char.isDigit .default []
        ["Please ask\nDr.".toList, " Smith about it.".toList]).1,
      (chunk.length : Int) < ChunkingConfig.default.maxChunkChars ∧
        lower (spacedWord chunk) ∈ abbreviations := by
  decide

end BibiCore.Llm
