import Mathlib.Data.List.Chain
import Mathlib.Data.List.Induction
import BibiCore.Base.PyStr

/-!
# Backtracking patterns

Patterns in the manner of Python's `re`: alternatives of sequences of repeated character classes
and line starts, with at most one group in each alternative. A match is the first that
backtracking finds, and `Pattern.sub` replaces the matches from left to right. What a match is, is
told without the search by `Fits`.
-/

namespace Regex

open PyStr

/-! ### Patterns -/

/-- One item of a sequence. -/
inductive Item where
  /-- `^` in multi-line mode -/
  | lineStart
  /-- a class repeated from `least` to `most` times -/
  | chars (set : Char → Bool) (least : Nat) (most : Option Nat) (greedy : Bool)

/-- The character itself. -/
def Item.char (c : Char) : Item := .chars (· = c) 1 (some 1) true

/-- The item takes at least one character. -/
def Item.takesSome : Item → Bool
  | .lineStart => false
  | .chars _ least _ _ => decide (0 < least)

/-- An alternative: its items, and which of them is the group. -/
structure Branch where
  items : List Item
  group : Nat

/-- The alternatives in the order they are tried, none of which matches the empty text, and what
the text of the group is replaced by. -/
structure Pattern where
  branches : List Branch
  replacement : Str → Str
  takesSome : ∀ branch ∈ branches, branch.items.any Item.takesSome = true

/-- A match: its text, and that of its group. -/
structure Match where
  text : Str
  captured : Str
  deriving DecidableEq

/-! ### Matching -/

/-- `^` matches after the character `prev`. -/
def AtLineStart (prev : Option Char) : Prop := prev = none ∨ prev = some '\n'

instance (prev : Option Char) : Decidable (AtLineStart prev) :=
  inferInstanceAs (Decidable (_ ∨ _))

/-- The last character of `text`, or what was before it. -/
def lastOr (text : Str) (prev : Option Char) : Option Char := text.getLast?.or prev

private theorem lastOr_cons (c : Char) (text : Str) (prev : Option Char) :
    lastOr (c :: text) prev = lastOr text (some c) := by
  rw [lastOr, lastOr, List.getLast?_cons]
  cases text.getLast? <;> rfl

/-- What an item can take from the front of `s`, in the order it is tried. -/
def Item.outcomes (prev : Option Char) (s : Str) : Item → List Str
  | .lineStart => if AtLineStart prev then [[]] else []
  | .chars set least most greedy =>
    let run := (s.takeWhile set).length
    let counts := (List.range (min run (most.getD run) + 1)).filter (least ≤ ·)
    (if greedy then counts.reverse else counts).map (s.take ·)

/-- The texts of the items in the first match of the sequence at the front of `s`. -/
def matchItems : List Item → Option Char → Str → Option (List Str)
  | [], _, _ => some []
  | item :: items, prev, s =>
    (item.outcomes prev s).findSome? fun text ↦
      (matchItems items (lastOr text prev) (s.drop text.length)).map (text :: ·)

/-- The match of an alternative whose items have these texts. -/
def Branch.toMatch (branch : Branch) (texts : List Str) : Match :=
  ⟨texts.flatten, texts[branch.group]?.getD []⟩

/-- The match at the front of `s`, the character before it being `prev`. -/
def Pattern.matchAt (p : Pattern) (prev : Option Char) (s : Str) : Option Match :=
  p.branches.findSome? fun branch ↦ (matchItems branch.items prev s).map branch.toMatch

/-- Replace the matches from here on; the next `skip` characters belong to the last one. -/
def Pattern.subFrom (p : Pattern) : Option Char → Nat → Str → Str
  | _, _, [] => []
  | _, skip + 1, c :: s => p.subFrom (some c) skip s
  | prev, 0, c :: s =>
    match p.matchAt prev (c :: s) with
    | some m => p.replacement m.captured ++ p.subFrom (some c) (m.text.length - 1) s
    | none => c :: p.subFrom (some c) 0 s

/-- `pattern.sub(replacement, s)`. -/
def Pattern.sub (p : Pattern) (s : Str) : Str := p.subFrom none 0 s

/-! ### What a match is -/

/-- The item can take the text after the character `prev`. -/
def Item.Fits (prev : Option Char) (text : Str) : Item → Prop
  | .lineStart => AtLineStart prev ∧ text = []
  | .chars set least most _ =>
    (∀ c ∈ text, set c = true) ∧ least ≤ text.length ∧ ∀ n ∈ most, text.length ≤ n

/-- The items can take the texts, one each. -/
def Fits : List Item → Option Char → List Str → Prop
  | [], _, texts => texts = []
  | item :: items, prev, texts =>
    ∃ text rest, texts = text :: rest ∧ item.Fits prev text ∧ Fits items (lastOr text prev) rest

private theorem lastOr_append (text text' : Str) (prev : Option Char) :
    lastOr (text ++ text') prev = lastOr text' (lastOr text prev) := by
  rw [lastOr, lastOr, lastOr, List.getLast?_append, Option.or_assoc]

/-- Two sequences one after the other. -/
theorem fits_append {items items' : List Item} {prev : Option Char} {texts : List Str} :
    Fits (items ++ items') prev texts ↔ ∃ first second, texts = first ++ second ∧
      Fits items prev first ∧ Fits items' (lastOr first.flatten prev) second := by
  induction items generalizing prev texts with
  | nil => simp [Fits, lastOr]
  | cons item items ih =>
    simp only [List.cons_append, Fits, ih]
    constructor
    · rintro ⟨text, rest, rfl, hitem, first, second, rfl, hfirst, hsecond⟩
      rw [← lastOr_append] at hsecond
      exact ⟨text :: first, second, rfl, ⟨text, first, rfl, hitem, hfirst⟩, hsecond⟩
    · rintro ⟨_, second, rfl, ⟨text, first, rfl, hitem, hfirst⟩, hsecond⟩
      rw [List.flatten_cons, lastOr_append] at hsecond
      exact ⟨text, first ++ second, rfl, hitem, first, second, rfl, hfirst, hsecond⟩

/-- A character matches itself. -/
@[simp] theorem fits_char {c : Char} {prev : Option Char} {text : Str} :
    (Item.char c).Fits prev text ↔ text = [c] := by
  simp only [Item.char, Item.Fits, decide_eq_true_eq, Option.mem_def, Option.some.injEq]
  constructor
  · rintro ⟨hall, hleast, hmost⟩
    exact List.eq_replicate_iff.mpr ⟨Nat.le_antisymm (hmost 1 rfl) hleast, hall⟩
  · rintro rfl
    simp

/-- A literal text takes itself. -/
theorem fits_literal {literal : Str} {prev : Option Char} {texts : List Str} :
    Fits (literal.map Item.char) prev texts ↔ texts = literal.map ([·]) := by
  induction literal generalizing prev texts with
  | nil => rfl
  | cons c literal ih =>
    simp only [List.map_cons, Fits, fits_char, ih]
    constructor
    · rintro ⟨_, _, rfl, rfl, rfl⟩
      rfl
    · rintro rfl
      exact ⟨[c], _, rfl, rfl, rfl⟩

/-- The characters of a literal, one text each, make the literal. -/
theorem flatten_literal (literal : Str) : (literal.map ([·])).flatten = literal := by
  induction literal with
  | nil => rfl
  | cons c literal ih => rw [List.map_cons, List.flatten_cons, ih, List.singleton_append]

private theorem mem_chars_outcomes {set : Char → Bool} {least : Nat} {most : Option Nat}
    {greedy : Bool} {prev : Option Char} {s text : Str} :
    text ∈ (Item.chars set least most greedy).outcomes prev s ↔
      ∃ n, n ≤ (s.takeWhile set).length ∧ (∀ m ∈ most, n ≤ m) ∧ least ≤ n ∧ s.take n = text := by
  have hmost (n : Nat) : n < min (s.takeWhile set).length
      (most.getD (s.takeWhile set).length) + 1 ↔
        n ≤ (s.takeWhile set).length ∧ ∀ m ∈ most, n ≤ m := by
    rw [Nat.lt_add_one_iff, Nat.le_min]
    cases most <;> simp
  cases greedy <;>
    simp [Item.outcomes, hmost, and_assoc]

/-- The search tries what fits, and nothing else. -/
theorem mem_outcomes {item : Item} {prev : Option Char} {s text : Str} :
    text ∈ item.outcomes prev s ↔ text <+: s ∧ item.Fits prev text := by
  cases item with
  | lineStart =>
    simp only [Item.outcomes, Item.Fits]
    split
    · next h =>
      simp only [List.mem_singleton, h, true_and]
      exact ⟨fun ht ↦ ⟨ht ▸ List.nil_prefix, ht⟩, And.right⟩
    · next h => simp [h]
  | chars set least most greedy =>
    rw [mem_chars_outcomes]
    constructor
    · rintro ⟨n, hrun, hmost, hleast, rfl⟩
      have hlen : (s.take n).length = n :=
        List.length_take_of_le (hrun.trans (List.takeWhile_prefix set).length_le)
      have hpre : s.take n <+: s.takeWhile set :=
        List.prefix_of_prefix_length_le (List.take_prefix n s) (List.takeWhile_prefix set)
          (by omega)
      exact ⟨List.take_prefix n s, fun c hc ↦ List.mem_takeWhile_imp (hpre.subset hc),
        by omega, fun m hm ↦ hlen.symm ▸ hmost m hm⟩
    · rintro ⟨hpre, hset, hleast, hmost⟩
      refine ⟨text.length, ?_, hmost, hleast, (List.prefix_iff_eq_take.mp hpre).symm⟩
      obtain ⟨rest, rfl⟩ := hpre
      rw [List.takeWhile_append_of_pos hset]
      simp

/-- What the search finds fits. -/
theorem fits_of_matchItems {items : List Item} {prev : Option Char} {s : Str} {texts : List Str}
    (h : matchItems items prev s = some texts) : Fits items prev texts ∧ texts.flatten <+: s := by
  induction items generalizing prev s texts with
  | nil =>
    cases h
    exact ⟨rfl, List.nil_prefix⟩
  | cons item items ih =>
    obtain ⟨text, htext, hfound⟩ := List.exists_of_findSome?_eq_some h
    obtain ⟨rest, hrest, rfl⟩ := Option.map_eq_some_iff.mp hfound
    obtain ⟨⟨s, rfl⟩, hfits⟩ := mem_outcomes.mp htext
    rw [List.drop_left] at hrest
    obtain ⟨hfits', hpre⟩ := ih hrest
    exact ⟨⟨text, rest, rfl, hfits, hfits'⟩, (List.prefix_append_right_inj text).mpr hpre⟩

/-- The search finds something where something fits. -/
theorem isSome_matchItems {items : List Item} {prev : Option Char} {s : Str} {texts : List Str}
    (h : Fits items prev texts) (hs : texts.flatten <+: s) :
    (matchItems items prev s).isSome = true := by
  induction items generalizing prev s texts with
  | nil => rfl
  | cons item items ih =>
    obtain ⟨text, rest, rfl, hfits, hrest⟩ := h
    rw [List.flatten_cons] at hs
    obtain ⟨s, rfl⟩ := (List.prefix_append text rest.flatten).trans hs
    have hfound := ih hrest ((List.prefix_append_right_inj text).mp hs)
    rw [matchItems, List.findSome?_isSome_iff]
    refine ⟨text, mem_outcomes.mpr ⟨List.prefix_append text s, hfits⟩, ?_⟩
    rw [List.drop_left, Option.isSome_map]
    exact hfound

/-- Where one item takes something, the sequence does. -/
theorem Fits.flatten_ne_nil {items : List Item} {prev : Option Char} {texts : List Str}
    (h : Fits items prev texts) (hitems : items.any Item.takesSome = true) :
    texts.flatten ≠ [] := by
  induction items generalizing prev texts with
  | nil => cases hitems
  | cons item items ih =>
    obtain ⟨text, rest, rfl, hfits, hrest⟩ := h
    rw [List.flatten_cons]
    rw [List.any_cons, Bool.or_eq_true] at hitems
    rcases hitems with hitem | hitems
    · apply List.append_ne_nil_of_left_ne_nil
      rintro rfl
      cases item with
      | lineStart => cases hitem
      | chars set least most greedy =>
        have hpos : 0 < least := of_decide_eq_true hitem
        have hle : least ≤ 0 := hfits.2.1
        omega
    · exact List.append_ne_nil_of_right_ne_nil _ (ih hrest hitems)

namespace Pattern

variable {p : Pattern} {prev : Option Char} {s : Str} {m : Match}

/-- A match of the pattern after the character `prev`. -/
def Matches (p : Pattern) (prev : Option Char) (m : Match) : Prop :=
  ∃ branch ∈ p.branches, ∃ texts, Fits branch.items prev texts ∧ m = branch.toMatch texts

/-- What stands at the front is a match. -/
theorem matches_of_matchAt (h : p.matchAt prev s = some m) : p.Matches prev m ∧ m.text <+: s := by
  obtain ⟨branch, hb, hm⟩ := List.exists_of_findSome?_eq_some h
  obtain ⟨texts, htexts, rfl⟩ := Option.map_eq_some_iff.mp hm
  obtain ⟨hfits, hpre⟩ := fits_of_matchItems htexts
  exact ⟨⟨branch, hb, texts, hfits, rfl⟩, hpre⟩

/-- Where a match stands at the front, one is found. -/
theorem isSome_matchAt (h : p.Matches prev m) (hs : m.text <+: s) :
    (p.matchAt prev s).isSome = true := by
  obtain ⟨branch, hb, texts, hfits, rfl⟩ := h
  rw [matchAt, List.findSome?_isSome_iff]
  exact ⟨branch, hb, by rw [Option.isSome_map]; exact isSome_matchItems hfits hs⟩

/-- A match takes at least one character. -/
theorem Matches.ne_nil (h : p.Matches prev m) : m.text ≠ [] := by
  obtain ⟨branch, hb, texts, hfits, rfl⟩ := h
  exact hfits.flatten_ne_nil (p.takesSome branch hb)

/-! ### Replacing -/

/-- What belongs to the last match is passed over. -/
theorem subFrom_append (taken rest : Str) :
    p.subFrom prev taken.length (taken ++ rest) = p.subFrom (lastOr taken prev) 0 rest := by
  induction taken generalizing prev with
  | nil => simp [lastOr]
  | cons c taken ih =>
    rw [List.length_cons, List.cons_append, subFrom, ih, lastOr_cons]

/-- A match at the front is replaced. -/
theorem subFrom_of_match {rest : Str} (h : p.matchAt prev (m.text ++ rest) = some m) :
    p.subFrom prev 0 (m.text ++ rest) =
      p.replacement m.captured ++ p.subFrom (lastOr m.text prev) 0 rest := by
  obtain ⟨c, taken, htext⟩ := List.exists_cons_of_ne_nil (matches_of_matchAt h).1.ne_nil
  rw [htext, List.cons_append] at h ⊢
  rw [subFrom, h]
  simp only [htext, List.length_cons, Nat.add_sub_cancel, subFrom_append, lastOr_cons]

/-- A character where no match stands is kept. -/
theorem subFrom_of_no_match {c : Char} (h : p.matchAt prev (c :: s) = none) :
    p.subFrom prev 0 (c :: s) = c :: p.subFrom (some c) 0 s := by
  rw [subFrom, h]

/-- The induction over a text as `sub` reads it: a match is taken as a whole, another character by
itself. -/
theorem sub_induction {P : Option Char → Str → Prop} (p : Pattern) (hnil : ∀ prev, P prev [])
    (hmatch : ∀ prev m rest, p.matchAt prev (m.text ++ rest) = some m →
      P (lastOr m.text prev) rest → P prev (m.text ++ rest))
    (hchar : ∀ prev c s, p.matchAt prev (c :: s) = none → P (some c) s → P prev (c :: s))
    (prev : Option Char) (s : Str) : P prev s := by
  induction hn : s.length using Nat.strong_induction_on generalizing prev s with
  | _ n ih =>
    cases s with
    | nil => exact hnil prev
    | cons c s =>
      cases hm : p.matchAt prev (c :: s) with
      | none => exact hchar prev c s hm (ih s.length (by simp [← hn]) _ _ rfl)
      | some m =>
        obtain ⟨hmatches, rest, hrest⟩ := matches_of_matchAt hm
        have hpos := List.length_pos_of_ne_nil hmatches.ne_nil
        have hlen := congrArg List.length hrest
        rw [List.length_append] at hlen
        rw [← hrest] at hm ⊢
        exact hmatch prev m rest hm (ih rest.length (by omega) _ _ rfl)

/-- A relation between a text and what became of it, which holds of each match and its replacement,
holds of the whole. -/
theorem sub_rel {R : Str → Str → Prop} (hnil : R [] [])
    (happend : ∀ a b a' b', R a a' → R b b' → R (a ++ b) (a' ++ b')) (hchar : ∀ c, R [c] [c])
    (hmatch : ∀ prev m, p.Matches prev m → R (p.replacement m.captured) m.text) (s : Str) :
    R (p.sub s) s := by
  refine p.sub_induction (P := fun prev s ↦ R (p.subFrom prev 0 s) s) (fun _ ↦ hnil) ?_ ?_ none s
  · intro prev m rest hm ih
    rw [subFrom_of_match hm]
    exact happend _ _ _ _ (hmatch prev m (matches_of_matchAt hm).1) ih
  · intro prev c s hm ih
    rw [subFrom_of_no_match hm]
    exact happend [c] _ [c] s (hchar c) ih

/-! ### Where a pattern occurs -/

/-- A match stands somewhere in the text. -/
def OccursFrom (p : Pattern) (prev : Option Char) (s : Str) : Prop :=
  ∃ pre m, p.Matches (lastOr pre prev) m ∧ pre ++ m.text <+: s

/-- A match stands somewhere in the text, the text being all there is. -/
def Occurs (p : Pattern) (s : Str) : Prop := p.OccursFrom none s

/-- Every match is longer than what it is replaced by. -/
def Shortens (p : Pattern) : Prop :=
  ∀ prev m, p.Matches prev m → (p.replacement m.captured).length < m.text.length

/-- No occurrence begins behind the text. -/
theorem not_occursFrom_nil : ¬ p.OccursFrom prev [] := by
  rintro ⟨pre, m, hm, hpre⟩
  exact hm.ne_nil (List.append_eq_nil_iff.mp (List.prefix_nil.mp hpre)).2

/-- An occurrence stands at the front or further on. -/
theorem occursFrom_cons {c : Char} :
    p.OccursFrom prev (c :: s) ↔
      (p.matchAt prev (c :: s)).isSome = true ∨ p.OccursFrom (some c) s := by
  constructor
  · rintro ⟨pre, m, hm, hpre⟩
    cases pre with
    | nil => exact .inl (isSome_matchAt hm hpre)
    | cons d pre =>
      obtain ⟨rfl, htail⟩ := List.cons_prefix_cons.mp hpre
      rw [lastOr_cons] at hm
      exact .inr ⟨pre, m, hm, htail⟩
  · rintro (h | ⟨pre, m, hm, hpre⟩)
    · obtain ⟨m, hm⟩ := Option.isSome_iff_exists.mp h
      obtain ⟨hmatches, hpre⟩ := matches_of_matchAt hm
      exact ⟨[], m, hmatches, hpre⟩
    · rw [← lastOr_cons c pre prev] at hm
      exact ⟨c :: pre, m, hm, List.cons_prefix_cons.mpr ⟨rfl, hpre⟩⟩

/-- A text without an occurrence stays as it is, one with an occurrence gets shorter. -/
theorem subFrom_spec (h : p.Shortens) (prev : Option Char) (s : Str) :
    ¬ p.OccursFrom prev s ∧ p.subFrom prev 0 s = s ∨
      p.OccursFrom prev s ∧ (p.subFrom prev 0 s).length < s.length := by
  refine p.sub_induction (P := fun prev s ↦ ¬ p.OccursFrom prev s ∧ p.subFrom prev 0 s = s ∨
    p.OccursFrom prev s ∧ (p.subFrom prev 0 s).length < s.length) ?_ ?_ ?_ prev s
  · exact fun prev ↦ .inl ⟨not_occursFrom_nil, rfl⟩
  · intro prev m rest hm ih
    right
    obtain ⟨hmatches, hpre⟩ := matches_of_matchAt hm
    refine ⟨⟨[], m, hmatches, hpre⟩, ?_⟩
    have hshort := h prev m hmatches
    have hrest : (p.subFrom (lastOr m.text prev) 0 rest).length ≤ rest.length := by
      rcases ih with ⟨-, heq⟩ | ⟨-, hlt⟩
      · rw [heq]
      · exact hlt.le
    rw [subFrom_of_match hm, List.length_append, List.length_append]
    omega
  · intro prev c s hm ih
    rw [subFrom_of_no_match hm, occursFrom_cons, hm]
    simpa using ih

/-- Nothing is replaced exactly where nothing matches. -/
theorem sub_eq_self_iff (h : p.Shortens) : p.sub s = s ↔ ¬ p.Occurs s := by
  rcases subFrom_spec h none s with ⟨hocc, heq⟩ | ⟨hocc, hlt⟩
  · exact ⟨fun _ ↦ hocc, fun _ ↦ heq⟩
  · refine ⟨fun heq ↦ ?_, fun hnot ↦ absurd hocc hnot⟩
    rw [show p.subFrom none 0 s = s from heq] at hlt
    omega

private theorem length_sub_le (h : p.Shortens) : (p.sub s).length ≤ s.length := by
  rcases subFrom_spec h none s with ⟨-, heq⟩ | ⟨-, hlt⟩
  · exact (congrArg List.length heq).le
  · exact hlt.le

private theorem length_foldl_sub_le {ps : List Pattern} (h : ∀ p ∈ ps, p.Shortens) (s : Str) :
    (ps.foldl (fun s p ↦ p.sub s) s).length ≤ s.length := by
  induction ps generalizing s with
  | nil => exact le_refl _
  | cons p ps ih =>
    obtain ⟨hp, hps⟩ := List.forall_mem_cons.mp h
    exact (ih hps (p.sub s)).trans (length_sub_le hp)

/-- A chain of patterns leaves a text as it is exactly where none of them matches. -/
theorem foldl_sub_eq_self_iff {ps : List Pattern} (h : ∀ p ∈ ps, p.Shortens) :
    ps.foldl (fun s p ↦ p.sub s) s = s ↔ ∀ p ∈ ps, ¬ p.Occurs s := by
  induction ps with
  | nil => simp
  | cons p ps ih =>
    obtain ⟨hp, hps⟩ := List.forall_mem_cons.mp h
    rw [List.foldl_cons, List.forall_mem_cons, ← ih hps, ← sub_eq_self_iff hp]
    constructor
    · intro hself
      -- what an earlier pattern took off no later one puts back
      have hsub : p.sub s = s := by
        rcases subFrom_spec hp none s with ⟨-, heq⟩ | ⟨-, hlt⟩
        · exact heq
        · have hle := length_foldl_sub_le hps (p.sub s)
          rw [hself] at hle
          exact absurd hlt (Nat.not_lt.mpr hle)
      rw [hsub] at hself
      exact ⟨hsub, hself⟩
    · rintro ⟨hsub, hself⟩
      rw [hsub]
      exact hself

/-! ### Single classes -/

/-- The pattern of one character of a class, which is dropped. -/
def dropping (set : Char → Bool) : Pattern where
  branches := [⟨[.chars set 1 (some 1) true], 0⟩]
  replacement _ := []
  takesSome := by simp [Item.takesSome]

/-- The pattern of two or more characters of a class, which become one character. -/
def squeezing (set : Char → Bool) (c : Char) : Pattern where
  branches := [⟨[.chars set 2 none true], 0⟩]
  replacement _ := [c]
  takesSome := by simp [Item.takesSome]

variable {set : Char → Bool}

/-- A match of a class of one character is that character. -/
theorem matches_dropping {prev : Option Char} {m : Match} :
    (dropping set).Matches prev m ↔ ∃ c, set c = true ∧ m = ⟨[c], [c]⟩ := by
  simp only [Matches, dropping, List.mem_singleton, exists_eq_left, Fits, Item.Fits, Branch.toMatch]
  constructor
  · rintro ⟨texts, ⟨text, rest, rfl, ⟨hset, hleast, hmost⟩, rfl⟩, rfl⟩
    obtain ⟨c, rfl⟩ := List.length_eq_one_iff.mp (Nat.le_antisymm (hmost 1 rfl) hleast)
    exact ⟨c, hset c (List.mem_singleton_self c), rfl⟩
  · rintro ⟨c, hc, rfl⟩
    exact ⟨[[c]], ⟨[c], [], rfl, by simp [hc], rfl⟩, rfl⟩

/-- Dropping a class leaves the rest. -/
theorem sub_dropping (s : Str) : (dropping set).sub s = s.filter fun c ↦ !set c := by
  refine (dropping set).sub_induction (P := fun prev s ↦
    (dropping set).subFrom prev 0 s = s.filter fun c ↦ !set c) (fun _ ↦ rfl) ?_ ?_ none s
  · intro prev m rest hm ih
    rw [subFrom_of_match hm, ih]
    obtain ⟨c, hc, rfl⟩ := matches_dropping.mp (matches_of_matchAt hm).1
    simp [dropping, hc]
  · intro prev c s hm ih
    rw [subFrom_of_no_match hm, ih]
    have hc : set c = false := by
      by_contra hne
      have hfound : ((dropping set).matchAt prev (c :: s)).isSome :=
        isSome_matchAt (matches_dropping.mpr ⟨c, by simpa using hne, rfl⟩)
          (List.prefix_append [c] s)
      rw [hm] at hfound
      cases hfound
    simp [hc]

/-- What a greedy class tries first is all it can take. -/
theorem head?_outcomes_greedy {least : Nat} (prev : Option Char) (s : Str) :
    ((Item.chars set least none true).outcomes prev s).head? =
      if least ≤ (s.takeWhile set).length then some (s.takeWhile set) else none := by
  have hrun : s.take (s.takeWhile set).length = s.takeWhile set :=
    (List.prefix_iff_eq_take.mp (List.takeWhile_prefix set)).symm
  simp only [Item.outcomes, Option.getD_none, min_self, if_true, List.head?_map,
    List.head?_reverse, List.range_succ, List.filter_append]
  split
  · next h => simp [h, hrun]
  · next h =>
    have hnone : (List.range (s.takeWhile set).length).filter (least ≤ ·) = [] := by
      simp only [List.filter_eq_nil_iff, List.mem_range, decide_eq_true_eq]
      omega
    simp [h, hnone]

/-- A greedy class takes all it can. -/
theorem matchAt_squeezing {d : Char} (prev : Option Char) (s : Str) :
    (squeezing set d).matchAt prev s =
      if 2 ≤ (s.takeWhile set).length then some ⟨s.takeWhile set, s.takeWhile set⟩ else none := by
  have hfirst (texts : List Str) : texts.findSome? (fun text ↦ some [text]) =
      texts.head?.map ([·]) := by
    cases texts <;> rfl
  simp only [matchAt, squeezing, List.findSome?_singleton, matchItems, Option.map_some, hfirst,
    head?_outcomes_greedy]
  split <;> simp [Branch.toMatch]

/-- Squeezed, a class has no two characters side by side. -/
theorem isChain_sub_squeezing {d : Char} (s : Str) :
    ((squeezing set d).sub s).IsChain fun a b ↦ ¬ (set a = true ∧ set b = true) := by
  -- what begins with another character keeps it
  suffices h : ∀ prev, ((squeezing set d).subFrom prev 0 s).IsChain
      (fun a b ↦ ¬ (set a = true ∧ set b = true)) ∧
      ((∀ c ∈ s.head?, set c = false) →
        ∀ c ∈ ((squeezing set d).subFrom prev 0 s).head?, set c = false) from (h none).1
  intro prev
  refine (squeezing set d).sub_induction (P := fun prev s ↦
    ((squeezing set d).subFrom prev 0 s).IsChain (fun a b ↦ ¬ (set a = true ∧ set b = true)) ∧
      ((∀ c ∈ s.head?, set c = false) →
        ∀ c ∈ ((squeezing set d).subFrom prev 0 s).head?, set c = false)) ?_ ?_ ?_ prev s
  · intro prev
    simp [subFrom]
  · intro prev m rest hm ⟨hchain, hhead⟩
    have hfound := hm
    rw [matchAt_squeezing, Option.ite_none_right_eq_some, Option.some.injEq] at hfound
    obtain ⟨-, hfound⟩ := hfound
    have htext : (m.text ++ rest).takeWhile set = m.text := congrArg Match.text hfound
    have hrest : (m.text ++ rest).dropWhile set = rest := by
      have hsplit := List.takeWhile_append_dropWhile (p := set) (l := m.text ++ rest)
      rw [htext] at hsplit
      exact List.append_cancel_left hsplit
    have hnext : ∀ c ∈ rest.head?, set c = false := by
      intro c hc
      have hnot := List.head?_dropWhile_not set (m.text ++ rest)
      rw [hrest, hc] at hnot
      simpa using hnot
    rw [subFrom_of_match hm]
    refine ⟨List.isChain_cons.mpr ⟨fun c hc hset ↦ ?_, hchain⟩, fun hfirst ↦ ?_⟩
    · rw [hhead hnext c hc] at hset
      exact Bool.false_ne_true hset.2
    · obtain ⟨c, taken, hc⟩ := List.exists_cons_of_ne_nil (matches_of_matchAt hm).1.ne_nil
      rw [hc] at htext hfirst
      have hset : set c = true := List.mem_takeWhile_imp (htext ▸ List.mem_cons_self)
      rw [hfirst c rfl] at hset
      cases hset
  · intro prev c s hm ⟨hchain, hhead⟩
    rw [subFrom_of_no_match hm]
    refine ⟨List.isChain_cons.mpr ⟨fun d hd hset ↦ ?_, hchain⟩, fun hfirst ↦ hfirst⟩
    have hnext : ∀ e ∈ s.head?, set e = false := by
      intro e he
      obtain ⟨s, rfl⟩ := List.head?_eq_some_iff.mp he
      rw [matchAt_squeezing] at hm
      by_contra hne
      simp [hset.1, hne] at hm
    rw [hhead hnext d hd] at hset
    exact Bool.false_ne_true hset.2

end Pattern

end Regex
