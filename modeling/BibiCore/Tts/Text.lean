import BibiCore.Base.Regex

/-!
# Markdown for the ear

`tts/utils/text.py`: eleven substitutions, one after the other, take the marks of Markdown out of a
text before it is spoken.
-/

namespace BibiCore.Tts

open PyStr Regex

/-- `[ \t]` -/
def isBlank (c : Char) : Bool := decide (c = ' ' ∨ c = '\t')

/-- `[*_`~#]` -/
def isSymbol (c : Char) : Bool := decide (c ∈ ['*', '_', '\x60', '~', '#'])

/-- The characters that marks consist of, and blanks. -/
def isMarkup (c : Char) : Bool :=
  isSymbol c || isBlank c || decide (c ∈ ['!', '[', ']', '(', ')', '-', '+'])

/-- `.` -/
def notNewline (c : Char) : Bool := decide (c ≠ '\n')

/-- A label in brackets, which is kept, and a target in parentheses. -/
def labelled (opening : Str) (least : Nat) : Pattern where
  branches := [⟨opening.map Item.char ++ [.chars (· ≠ ']') least none true] ++
    [']', '('].map Item.char ++ [.chars (· ≠ ')') 0 none true] ++ [')'].map Item.char,
    opening.length⟩]
  replacement := id
  takesSome := by
    simp only [List.mem_singleton, forall_eq, List.any_append, List.map_cons, List.any_cons,
      Item.char, Item.takesSome, Nat.zero_lt_one, decide_true, Bool.true_or, Bool.or_true]

/-- As little as possible between two equal marks, which is kept. -/
def delimited (marks : List Str) (inside : Char → Bool) : Pattern where
  branches := marks.map fun mark ↦
    ⟨mark.map Item.char ++ [.chars inside 1 none false] ++ mark.map Item.char, mark.length⟩
  replacement := id
  takesSome := by
    simp only [List.mem_map, List.any_append, List.any_cons, Item.takesSome, Nat.zero_lt_one,
      decide_true, Bool.true_or, Bool.or_true, forall_exists_index, and_imp,
      forall_apply_eq_imp_iff₂, implies_true]

/-- `_IMAGE`, `!\[([^\]]*)\]\([^)]*\)`. -/
def image : Pattern := labelled ['!', '['] 0

/-- `_LINK`, `\[([^\]]+)\]\([^)]*\)`. -/
def link : Pattern := labelled ['['] 1

/-- `_HEADER`, `^#{1,6}[ \t]+`. -/
def header : Pattern where
  branches := [⟨[.lineStart, .chars (· = '#') 1 (some 6) true, .chars isBlank 1 none true], 0⟩]
  replacement _ := []
  takesSome := by decide

/-- `_LIST_MARKER`, `^[ \t]*[-*+][ \t]+`. -/
def listMarker : Pattern where
  branches := [⟨[.lineStart, .chars isBlank 0 none true,
    .chars (· ∈ ['-', '*', '+']) 1 (some 1) true, .chars isBlank 1 none true], 0⟩]
  replacement _ := []
  takesSome := by decide

/-- `_BOLD_ITALIC`, `\*\*\*(.+?)\*\*\*|___(.+?)___`. -/
def boldItalic : Pattern := delimited [['*', '*', '*'], ['_', '_', '_']] notNewline

/-- `_BOLD`, `\*\*(.+?)\*\*|__(.+?)__`. -/
def bold : Pattern := delimited [['*', '*'], ['_', '_']] notNewline

/-- `_ITALIC`, `\*(.+?)\*|_(.+?)_`. -/
def italic : Pattern := delimited [['*'], ['_']] notNewline

/-- `_STRIKETHROUGH`, `~~(.+?)~~`. -/
def strikethrough : Pattern := delimited [['~', '~']] notNewline

/-- `_INLINE_CODE`, with a backtick on each side of `([^`]+?)`. -/
def inlineCode : Pattern := delimited [['\x60']] (· ≠ '\x60')

/-- `_LEFTOVER_SYMBOLS`, `[*_`~#]`. -/
def leftoverSymbols : Pattern := Pattern.dropping isSymbol

/-- `_REPEATED_SPACES`, `[ \t]{2,}`. -/
def repeatedSpaces : Pattern := Pattern.squeezing isBlank ' '

/-- The substitutions of `strip_markdown`, in order. Of the two groups of an emphasis the one that
took part in the match is not empty, so `m.group(1) or m.group(2)` is its text. -/
def substitutions : List Pattern :=
  [image, link, header, listMarker, boldItalic, bold, italic, strikethrough, inlineCode,
    leftoverSymbols, repeatedSpaces]

/-- `strip_markdown`, `tts/utils/text.py:16`. -/
def stripMarkdown (text : Str) : Str :=
  if text = [] then text else substitutions.foldl (fun text pattern ↦ pattern.sub text) text

variable {prev : Option Char} {m : Match}

/-! ### What the patterns match -/

private theorem matches_labelled {opening : Str} {least : Nat}
    (h : (labelled opening least).Matches prev m) :
    ∃ label target, m = ⟨opening ++ label ++ [']', '('] ++ target ++ [')'], label⟩ := by
  simp only [Pattern.Matches, labelled, List.mem_singleton, exists_eq_left, fits_append,
    fits_literal] at h
  obtain ⟨_, ⟨_, _, rfl, ⟨_, _, rfl, ⟨_, _, rfl, ⟨_, _, rfl, rfl, hlabel⟩, rfl⟩, htarget⟩, rfl⟩,
    rfl⟩ := h
  obtain ⟨label, _, rfl, -, rfl⟩ := hlabel
  obtain ⟨target, _, rfl, -, rfl⟩ := htarget
  refine ⟨label, target, ?_⟩
  simp [Branch.toMatch, flatten_literal]

private theorem matches_delimited {marks : List Str} {inside : Char → Bool}
    (h : (delimited marks inside).Matches prev m) :
    ∃ mark ∈ marks, ∃ text, m = ⟨mark ++ text ++ mark, text⟩ := by
  obtain ⟨_, hbranch, texts, hfits, rfl⟩ := h
  obtain ⟨mark, hmark, rfl⟩ := List.mem_map.mp hbranch
  simp only [fits_append, fits_literal] at hfits
  obtain ⟨_, _, rfl, ⟨_, _, rfl, rfl, hinside⟩, rfl⟩ := hfits
  obtain ⟨text, _, rfl, -, rfl⟩ := hinside
  refine ⟨mark, hmark, text, ?_⟩
  simp [Branch.toMatch, flatten_literal]

/-- The substitutions that keep what stands between two marks. -/
def unmarking : List Pattern := [boldItalic, bold, italic, strikethrough, inlineCode]

/-- The passes of `strip_markdown`, the ones that only unmark in the middle. -/
theorem substitutions_eq : substitutions =
    [image, link, header, listMarker] ++ unmarking ++ [leftoverSymbols, repeatedSpaces] :=
  rfl

/-- Their marks are symbols, and what stands between is what they leave. -/
theorem matches_unmarking {p : Pattern} (hp : p ∈ unmarking) (h : p.Matches prev m) :
    ∃ mark text, m.text = mark ++ text ++ mark ∧ p.replacement m.captured = text ∧ mark ≠ [] ∧
      ∀ c ∈ mark, isSymbol c = true := by
  have hdelimited {marks : List Str} {inside : Char → Bool}
      (hmarks : (marks.all fun mark ↦ mark ≠ [] && mark.all isSymbol) = true)
      (h : (delimited marks inside).Matches prev m) :
      ∃ mark text, m.text = mark ++ text ++ mark ∧
        (delimited marks inside).replacement m.captured = text ∧ mark ≠ [] ∧
        ∀ c ∈ mark, isSymbol c = true := by
    obtain ⟨mark, hmem, text, rfl⟩ := matches_delimited h
    have hsymbols : mark ≠ [] ∧ ∀ c ∈ mark, isSymbol c = true := by
      simpa using List.all_eq_true.mp hmarks mark hmem
    exact ⟨mark, text, rfl, rfl, hsymbols⟩
  simp only [unmarking, List.mem_cons, List.not_mem_nil, or_false] at hp
  rcases hp with rfl | rfl | rfl | rfl | rfl
  · exact hdelimited (by decide) h
  · exact hdelimited (by decide) h
  · exact hdelimited (by decide) h
  · exact hdelimited (by decide) h
  · exact hdelimited (by decide) h

private theorem matches_header (h : header.Matches prev m) :
    '#' ∈ m.text ∧ ∀ c ∈ m.text, c = '#' ∨ isBlank c = true := by
  simp only [Pattern.Matches, header, List.mem_singleton, exists_eq_left, Fits, Item.Fits,
    decide_eq_true_eq] at h
  obtain ⟨_, ⟨_, _, rfl, ⟨-, rfl⟩, hashes, _, rfl, ⟨hhashes, hpos, -⟩, blanks, _, rfl, ⟨hblanks, -⟩,
    rfl⟩, rfl⟩ := h
  obtain ⟨c, rest, rfl⟩ := List.exists_cons_of_length_pos hpos
  obtain rfl := hhashes c List.mem_cons_self
  refine ⟨by simp [Branch.toMatch], fun d hd ↦ ?_⟩
  have hmem : d ∈ '#' :: rest ∨ d ∈ blanks := by simpa [Branch.toMatch, or_assoc] using hd
  exact hmem.imp (hhashes d) (hblanks d)

private theorem matches_listMarker (h : listMarker.Matches prev m) :
    ∀ c ∈ m.text, c ∈ ['-', '*', '+'] ∨ isBlank c = true := by
  simp only [Pattern.Matches, listMarker, List.mem_singleton, exists_eq_left, Fits, Item.Fits,
    decide_eq_true_eq] at h
  obtain ⟨_, ⟨_, _, rfl, ⟨-, rfl⟩, indent, _, rfl, ⟨hindent, -⟩, bullet, _, rfl, ⟨hbullet, -⟩,
    blanks, _, rfl, ⟨hblanks, -⟩, rfl⟩, rfl⟩ := h
  intro d hd
  have hmem : d ∈ indent ∨ d ∈ bullet ∨ d ∈ blanks := by simpa [Branch.toMatch] using hd
  rcases hmem with hmem | hmem | hmem
  · exact .inr (hindent d hmem)
  · exact .inl (hbullet d hmem)
  · exact .inr (hblanks d hmem)

private theorem matches_repeatedSpaces (h : repeatedSpaces.Matches prev m) :
    2 ≤ m.text.length ∧ ∀ c ∈ m.text, isBlank c = true := by
  simp only [Pattern.Matches, repeatedSpaces, Pattern.squeezing, List.mem_singleton, exists_eq_left,
    Fits, Item.Fits] at h
  obtain ⟨_, ⟨blanks, _, rfl, ⟨hblanks, htwo, -⟩, rfl⟩, rfl⟩ := h
  simp only [Branch.toMatch, List.flatten_cons, List.flatten_nil, List.append_nil]
  exact ⟨htwo, hblanks⟩

private theorem shortens_labelled (opening : Str) (least : Nat) :
    (labelled opening least).Shortens := by
  intro prev m hm
  obtain ⟨label, target, rfl⟩ := matches_labelled hm
  simp only [labelled, id_eq, List.length_append, List.length_cons]
  omega

/-- Every substitution shortens the text. -/
theorem shortens_of_mem {p : Pattern} (h : p ∈ substitutions) : p.Shortens := by
  have herased (p : Pattern) (hp : ∀ text, p.replacement text = []) : p.Shortens := by
    intro prev m hm
    rw [hp]
    exact List.length_pos_of_ne_nil hm.ne_nil
  simp only [substitutions_eq, List.mem_append, List.mem_cons, List.not_mem_nil, or_false] at h
  rcases h with ((rfl | rfl | rfl | rfl) | hp) | rfl | rfl
  · exact shortens_labelled _ _
  · exact shortens_labelled _ _
  · exact herased _ fun _ ↦ rfl
  · exact herased _ fun _ ↦ rfl
  · intro prev m hm
    obtain ⟨mark, text, htext, hkept, hne, -⟩ := matches_unmarking hp hm
    have hpos := List.length_pos_of_ne_nil hne
    rw [hkept, htext]
    simp only [List.length_append]
    omega
  · exact herased _ fun _ ↦ rfl
  · intro prev m hm
    have htwo := (matches_repeatedSpaces hm).1
    simp only [repeatedSpaces, Pattern.squeezing, List.length_singleton]
    omega

/-! ### Letters and digits -/

section

variable {isalnum : Char → Bool} (hmark : ∀ c, isMarkup c = true → isalnum c = false)
include hmark

private theorem filter_markup {s : Str} (h : ∀ c ∈ s, isMarkup c = true) :
    s.filter isalnum = [] := by
  rw [List.filter_eq_nil_iff]
  intro c hc
  rw [hmark c (h c hc)]
  exact Bool.false_ne_true

/-- A labelled target loses what is in its target. -/
theorem filter_labelled {opening : Str} {least : Nat} (hopening : ∀ c ∈ opening, isMarkup c = true)
    (h : (labelled opening least).Matches prev m) :
    (((labelled opening least).replacement m.captured).filter isalnum).Sublist
      (m.text.filter isalnum) := by
  obtain ⟨label, target, rfl⟩ := matches_labelled h
  simp only [labelled, id_eq, List.filter_append, filter_markup hmark hopening, List.nil_append,
    List.append_assoc]
  exact List.sublist_append_left _ _

/-- Past the links, no substitution touches a letter or a digit. -/
theorem filter_replacement {p : Pattern} (hp : p ∈ substitutions.drop 2) (h : p.Matches prev m) :
    (p.replacement m.captured).filter isalnum = m.text.filter isalnum := by
  have hbullets : ∀ c ∈ ['-', '*', '+'], isMarkup c = true := List.all_eq_true.mp (by decide)
  change p ∈ [header, listMarker] ++ unmarking ++ [leftoverSymbols, repeatedSpaces] at hp
  simp only [List.mem_append, List.mem_cons, List.not_mem_nil, or_false] at hp
  rcases hp with ((rfl | rfl) | hp) | rfl | rfl
  · refine (filter_markup hmark fun c hc ↦ ?_).symm
    rcases (matches_header h).2 c hc with rfl | hblank
    · rfl
    · simp [isMarkup, hblank]
  · refine (filter_markup hmark fun c hc ↦ ?_).symm
    rcases matches_listMarker h c hc with hbullet | hblank
    · exact hbullets c hbullet
    · simp [isMarkup, hblank]
  · obtain ⟨mark, text, htext, hkept, -, hsymbols⟩ := matches_unmarking hp h
    have hmarkup : ∀ c ∈ mark, isMarkup c = true := fun c hc ↦ by simp [isMarkup, hsymbols c hc]
    rw [hkept, htext, List.filter_append, List.filter_append, filter_markup hmark hmarkup,
      List.nil_append, List.append_nil]
  · refine (filter_markup hmark fun c hc ↦ ?_).symm
    obtain ⟨d, hd, rfl⟩ := Pattern.matches_dropping.mp h
    rw [List.mem_singleton.mp hc]
    simp [isMarkup, hd]
  · have hspace : ∀ c ∈ [' '], isMarkup c = true := List.all_eq_true.mp (by decide)
    have hblanks : ∀ c ∈ m.text, isMarkup c = true := fun c hc ↦ by
      simp [isMarkup, (matches_repeatedSpaces h).2 c hc]
    rw [filter_markup hmark hblanks]
    exact filter_markup hmark hspace

/-- The letters and digits of a text are those that its links leave. -/
theorem filter_stripMarkdown (text : Str) :
    (stripMarkdown text).filter isalnum = (link.sub (image.sub text)).filter isalnum := by
  have hrest (ps : List Pattern) (hps : ∀ p ∈ ps, p ∈ substitutions.drop 2) (s : Str) :
      (ps.foldl (fun s p ↦ p.sub s) s).filter isalnum = s.filter isalnum := by
    induction ps generalizing s with
    | nil => rfl
    | cons p ps ih =>
      obtain ⟨hp, hps⟩ := List.forall_mem_cons.mp hps
      rw [List.foldl_cons, ih hps]
      refine p.sub_rel (R := fun a b ↦ a.filter isalnum = b.filter isalnum) rfl ?_ (fun _ ↦ rfl)
        (fun prev m hm ↦ filter_replacement hmark hp hm) s
      intro a b a' b' ha hb
      rw [List.filter_append, List.filter_append, ha, hb]
  unfold stripMarkdown
  split
  · next h =>
    rw [h]
    rfl
  · exact hrest (substitutions.drop 2) (fun _ hp ↦ hp) _

/-- Links lose letters and digits, but gain and move none. -/
theorem filter_links (text : Str) :
    ((link.sub (image.sub text)).filter isalnum).Sublist (text.filter isalnum) := by
  have hsub {opening : Str} {least : Nat} (hopening : ∀ c ∈ opening, isMarkup c = true) (s : Str) :
      (((labelled opening least).sub s).filter isalnum).Sublist (s.filter isalnum) := by
    refine (labelled opening least).sub_rel (R := fun a b ↦ (a.filter isalnum).Sublist
      (b.filter isalnum)) .slnil ?_ (fun _ ↦ .refl _)
      (fun prev m hm ↦ filter_labelled hmark hopening hm) s
    intro a b a' b' ha hb
    rw [List.filter_append, List.filter_append]
    exact ha.append hb
  exact (hsub (List.all_eq_true.mp (by decide)) _).trans
    (hsub (List.all_eq_true.mp (by decide)) _)

end

/-- Without `](` in it, a text has no link. -/
theorem sub_labelled_of_no_target {opening : Str} {least : Nat} {text : Str}
    (h : ¬ [']', '('] <:+: text) : (labelled opening least).sub text = text := by
  rw [Pattern.sub_eq_self_iff (shortens_labelled opening least)]
  rintro ⟨pre, m, hm, rest, rfl⟩
  obtain ⟨label, target, rfl⟩ := matches_labelled hm
  refine h ⟨pre ++ opening ++ label, target ++ [')'] ++ rest, ?_⟩
  simp

/-! ### Symbols and blanks -/

/-- What the last two substitutions leave. -/
theorem exists_stripMarkdown (text : Str) :
    ∃ rest : Str, stripMarkdown text = repeatedSpaces.sub (rest.filter fun c ↦ !isSymbol c) := by
  unfold stripMarkdown
  split
  · next h => exact ⟨[], h⟩
  · refine ⟨(substitutions.take 9).foldl (fun s p ↦ p.sub s) text, ?_⟩
    rw [← Pattern.sub_dropping]
    rfl

private theorem not_isSymbol_of_mem {text : Str} {c : Char} (h : c ∈ stripMarkdown text) :
    isSymbol c = false := by
  obtain ⟨rest, hrest⟩ := exists_stripMarkdown text
  have hkept : ∀ c ∈ repeatedSpaces.sub (rest.filter fun c ↦ !isSymbol c),
      c ∈ rest.filter (fun c ↦ !isSymbol c) ∨ c = ' ' := by
    refine repeatedSpaces.sub_rel (R := fun a b ↦ ∀ c ∈ a, c ∈ b ∨ c = ' ') (by simp) ?_ (by simp)
      ?_ _
    · intro a b a' b' ha hb c hc
      rcases List.mem_append.mp hc with hc | hc
      · exact (ha c hc).imp_left (List.mem_append_left b')
      · exact (hb c hc).imp_left (List.mem_append_right a')
    · intro prev m _ c hc
      exact .inr (List.mem_singleton.mp hc)
  rw [hrest] at h
  rcases hkept c h with hc | rfl
  · simpa using (List.mem_filter.mp hc).2
  · rfl

/-- No two blanks stand side by side. -/
theorem isChain_stripMarkdown (text : Str) :
    (stripMarkdown text).IsChain fun a b ↦ ¬ (isBlank a = true ∧ isBlank b = true) := by
  obtain ⟨rest, hrest⟩ := exists_stripMarkdown text
  rw [hrest]
  exact Pattern.isChain_sub_squeezing _

/-- What is spoken has no symbol and no two blanks side by side; its letters and digits are some of
the text's, in order, and all of them unless the text has a `](`. They are those that the links
leave. -/
theorem stripMarkdown_speakable (isalnum : Char → Bool)
    (hmark : ∀ c, isMarkup c = true → isalnum c = false) (text : Str) :
    (∀ c ∈ stripMarkdown text, c ∉ ['*', '_', '\x60', '~', '#']) ∧
      (stripMarkdown text).IsChain (fun a b ↦ ¬ (isBlank a = true ∧ isBlank b = true)) ∧
      ((stripMarkdown text).filter isalnum).Sublist (text.filter isalnum) ∧
      (¬ [']', '('] <:+: text → (stripMarkdown text).filter isalnum = text.filter isalnum) ∧
      (stripMarkdown text).filter isalnum = (link.sub (image.sub text)).filter isalnum := by
  have hlinks := filter_stripMarkdown hmark text
  refine ⟨fun c hc ↦ ?_, isChain_stripMarkdown text, ?_, fun htarget ↦ ?_, hlinks⟩
  · exact of_decide_eq_false (not_isSymbol_of_mem hc)
  · rw [hlinks]
    exact filter_links hmark text
  · have himage : image.sub text = text := sub_labelled_of_no_target htarget
    have hlink : link.sub text = text := sub_labelled_of_no_target htarget
    rw [hlinks, himage, hlink]

/-- The ASCII letters and digits of a text with a link, emphasis and a list. -/
theorem stripMarkdown_speakable_list :
    (stripMarkdown "- **a** [b](c)".toList).filter Char.isAlphanum = ['a', 'b'] ∧
      ((stripMarkdown "- **a** [b](c)".toList).filter Char.isAlphanum).Sublist
        ("- **a** [b](c)".toList.filter Char.isAlphanum) := by
  have hmark : ∀ c, isMarkup c = true → c.isAlphanum = false := by
    intro c hc
    simp only [isMarkup, isSymbol, isBlank, List.mem_cons, List.not_mem_nil, or_false,
      Bool.or_eq_true, decide_eq_true_eq] at hc
    rcases hc with (hc | hc) | hc <;> rcases hc with rfl | rfl | rfl | rfl | rfl | rfl | rfl <;> rfl
  exact ⟨by decide, (stripMarkdown_speakable Char.isAlphanum hmark _).2.2.1⟩

/-! ### Stripping twice -/

/-- Stripping changes nothing exactly where no substitution finds anything. -/
theorem stripMarkdown_eq_self_iff {text : Str} :
    stripMarkdown text = text ↔ ∀ p ∈ substitutions, ¬ p.Occurs text := by
  unfold stripMarkdown
  split
  · next h =>
    subst h
    simp [Pattern.Occurs, Pattern.not_occursFrom_nil]
  · exact Pattern.foldl_sub_eq_self_iff fun p hp ↦ shortens_of_mem hp

/-- A pattern whose matches have a symbol occurs in no stripped text. -/
theorem not_occurs_of_symbol {p : Pattern} (text : Str)
    (h : ∀ prev m, p.Matches prev m → ∃ c ∈ m.text, isSymbol c = true) :
    ¬ p.Occurs (stripMarkdown text) := by
  rintro ⟨pre, m, hm, hpre⟩
  obtain ⟨c, hc, hsymbol⟩ := h _ m hm
  rw [not_isSymbol_of_mem (hpre.subset (List.mem_append_right pre hc))] at hsymbol
  cases hsymbol

/-- Two blanks side by side are in no stripped text. -/
theorem not_occurs_repeatedSpaces (text : Str) : ¬ repeatedSpaces.Occurs (stripMarkdown text) := by
  rintro ⟨pre, m, hm, rest, hrest⟩
  obtain ⟨htwo, hblank⟩ := matches_repeatedSpaces hm
  obtain ⟨b, c, more, hmore⟩ : ∃ b c more, m.text = b :: c :: more := by
    match htext : m.text, htwo with
    | b :: c :: more, _ => exact ⟨b, c, more, rfl⟩
  have hchain := isChain_stripMarkdown text
  rw [← hrest, hmore, List.append_assoc] at hchain
  have hpair := (List.isChain_append.mp hchain).2.1
  rw [List.cons_append, List.cons_append, List.isChain_cons_cons] at hpair
  rw [hmore] at hblank
  exact hpair.1 ⟨hblank b (by simp), hblank c (by simp)⟩

/-- Of the eleven patterns at most links, images and list markers are left in a stripped text; and
stripping it again changes it exactly where one of these is left. -/
theorem stripMarkdown_again (text : Str) :
    (∀ p ∈ [header, boldItalic, bold, italic, strikethrough, inlineCode, leftoverSymbols,
        repeatedSpaces], ¬ p.Occurs (stripMarkdown text)) ∧
      (stripMarkdown (stripMarkdown text) = stripMarkdown text ↔
        ∀ p ∈ [image, link, listMarker], ¬ p.Occurs (stripMarkdown text)) := by
  have hgone : ∀ p ∈ [header, boldItalic, bold, italic, strikethrough, inlineCode, leftoverSymbols,
      repeatedSpaces], ¬ p.Occurs (stripMarkdown text) := by
    intro p hp
    change p ∈ [header] ++ unmarking ++ [leftoverSymbols, repeatedSpaces] at hp
    simp only [List.mem_append, List.mem_cons, List.not_mem_nil, or_false] at hp
    rcases hp with (rfl | hp) | rfl | rfl
    · exact not_occurs_of_symbol text fun prev m hm ↦ ⟨'#', (matches_header hm).1, rfl⟩
    · refine not_occurs_of_symbol text fun prev m hm ↦ ?_
      obtain ⟨mark, kept, htext, -, hne, hsymbols⟩ := matches_unmarking hp hm
      obtain ⟨c, mark, rfl⟩ := List.exists_cons_of_ne_nil hne
      exact ⟨c, by simp [htext], hsymbols c List.mem_cons_self⟩
    · refine not_occurs_of_symbol text fun prev m hm ↦ ?_
      obtain ⟨c, hc, rfl⟩ := Pattern.matches_dropping.mp hm
      exact ⟨c, List.mem_singleton_self c, hc⟩
    · exact not_occurs_repeatedSpaces text
  refine ⟨hgone, ?_⟩
  rw [stripMarkdown_eq_self_iff]
  simp only [List.forall_mem_cons, List.not_mem_nil, false_imp_iff, implies_true, and_true,
    substitutions] at hgone ⊢
  tauto

/-- A list marker after a list marker is left over. -/
theorem not_stripMarkdown_idempotent :
    ¬ ∀ text, stripMarkdown (stripMarkdown text) = stripMarkdown text :=
  fun h ↦ absurd (h "- - x".toList) (by decide)

end BibiCore.Tts
