import Mathlib.Data.List.DropRight

/-!
# Stripping a list

A list is stripped of the elements of one kind at its two ends. Stripping is determined by what it
leaves: a list whose ends are of another kind. `Interleaved` says that a list consists of given
pieces, in order, with elements of the kind around them.
-/

universe u

namespace List

variable {α : Type u} {p : α → Bool}

/-- The list without the elements at its ends that satisfy `p`. -/
def strip (p : α → Bool) (l : List α) : List α := (l.dropWhile p).rdropWhile p

/-- What stripping cuts off at the end. -/
def trail (p : α → Bool) (l : List α) : List α := (l.dropWhile p).rtakeWhile p

/-- Neither end satisfies `p`. -/
def Trimmed (p : α → Bool) (l : List α) : Prop :=
  (∀ a ∈ l.head?, p a = false) ∧ ∀ a ∈ l.getLast?, p a = false

/-- The list is the pieces with gaps before, between and after them; the elements of the gaps
satisfy `p`. -/
inductive Interleaved (p : α → Bool) : List (List α) → List α → Prop
  | nil {gap : List α} (hg : ∀ a ∈ gap, p a = true) : Interleaved p [] gap
  | cons {gap piece l : List α} {pieces : List (List α)} (hg : ∀ a ∈ gap, p a = true)
      (h : Interleaved p pieces l) : Interleaved p (piece :: pieces) (gap ++ piece ++ l)

/-! ### What is left -/

/-- Nothing is left of a list whose elements are all stripped. -/
theorem strip_eq_nil_iff {l : List α} : l.strip p = [] ↔ ∀ a ∈ l, p a = true := by
  rw [strip, rdropWhile_eq_nil_iff]
  constructor
  · intro h a ha
    rw [← takeWhile_append_dropWhile (p := p) (l := l)] at ha
    rcases mem_append.mp ha with ha | ha
    · exact mem_takeWhile_imp ha
    · exact h a ha
  · intro h a ha
    exact h a ((dropWhile_sublist p).subset ha)

/-- The empty list has nothing to strip. -/
theorem trimmed_nil : Trimmed p [] := by constructor <;> simp

/-- What stands behind the stripped list is of the kind that is stripped. -/
theorem of_mem_trail {a : α} {l : List α} (h : a ∈ l.trail p) : p a = true := mem_rtakeWhile_imp h

/-- The stripped list and what stands behind it are what a left strip leaves. -/
@[simp] theorem strip_append_trail (p : α → Bool) (l : List α) :
    l.strip p ++ l.trail p = l.dropWhile p := rdropWhile_append_rtakeWhile

/-- A list is what stands before the stripped list, that list, and what stands behind. -/
theorem takeWhile_append_strip_append_trail (p : α → Bool) (l : List α) :
    l.takeWhile p ++ l.strip p ++ l.trail p = l := by
  rw [append_assoc, strip_append_trail, takeWhile_append_dropWhile]

/-- The elements cut off satisfy `p`. -/
theorem exists_eq_strip (p : α → Bool) (l : List α) :
    ∃ lead trail, l = lead ++ l.strip p ++ trail ∧ (∀ a ∈ lead, p a = true) ∧
      ∀ a ∈ trail, p a = true :=
  ⟨l.takeWhile p, l.trail p, (takeWhile_append_strip_append_trail p l).symm,
    fun _ ↦ mem_takeWhile_imp, fun _ ↦ of_mem_trail⟩

/-- A stripped list has nothing left to strip. -/
theorem trimmed_strip (p : α → Bool) (l : List α) : Trimmed p (l.strip p) := by
  constructor
  · intro a ha
    have hpre : (l.strip p) <+: l.dropWhile p := rdropWhile_prefix p _
    have hhead : a ∈ (l.dropWhile p).head? := by
      obtain ⟨t, ht⟩ := hpre
      rw [← ht, head?_append, ha]
      rfl
    have hnot := head?_dropWhile_not p l
    rw [hhead] at hnot
    simpa using hnot
  · intro a ha
    by_cases hnil : l.strip p = []
    · rw [hnil] at ha
      cases ha
    · obtain ⟨hne, rfl⟩ := mem_getLast?_eq_getLast ha
      exact Bool.eq_false_iff.mpr (rdropWhile_last_not p (l.dropWhile p) hnil)

/-- Elements that satisfy `p`, a trimmed list and such elements again: the list is what stripping
leaves. -/
theorem strip_append_append {lead l trail : List α} (hlead : ∀ a ∈ lead, p a = true)
    (htrail : ∀ a ∈ trail, p a = true) (hl : Trimmed p l) :
    (lead ++ l ++ trail).strip p = l := by
  rw [strip, append_assoc, dropWhile_append_of_pos hlead]
  cases l with
  | nil =>
    rw [nil_append, dropWhile_eq_nil_iff.mpr htrail]
    rfl
  | cons a l =>
    have ha : p a = false := hl.1 a rfl
    rw [cons_append, dropWhile_cons_of_neg (by simp [ha]), ← cons_append, rdropWhile,
      reverse_append, dropWhile_append_of_pos (by simpa using htrail), ← rdropWhile,
      rdropWhile_eq_self_iff]
    intro hne
    simpa using hl.2 _ (getLast?_eq_some_getLast hne)

/-- Stripping does not change a list with nothing to strip. -/
theorem Trimmed.strip_eq {l : List α} (hl : Trimmed p l) : l.strip p = l := by
  have hnil : ∀ a ∈ ([] : List α), p a = true := by simp
  have h := strip_append_append hnil hnil hl
  simpa using h

/-- Elements that satisfy `p` count for nothing at the end. -/
theorem strip_append_of_nil {l m : List α} (hm : m.strip p = []) :
    (l ++ m).strip p = l.strip p := by
  obtain ⟨lead, trail, hl, hlead, htrail⟩ := exists_eq_strip p l
  have hall := strip_eq_nil_iff.mp hm
  have heq : l ++ m = lead ++ l.strip p ++ (trail ++ m) := by
    conv_lhs => rw [hl]
    rw [append_assoc]
  rw [heq]
  apply strip_append_append hlead _ (trimmed_strip p l)
  intro a ha
  rcases mem_append.mp ha with ha | ha
  · exact htrail a ha
  · exact hall a ha

/-! ### What is between -/

/-- What is between two trimmed lists is not at an end. -/
theorem trimmed_append {l m : List α} (gap : List α) (hl : Trimmed p l) (hm : Trimmed p m)
    (hl0 : l ≠ []) (hm0 : m ≠ []) : Trimmed p (l ++ gap ++ m) := by
  constructor
  · intro a ha
    apply hl.1
    rwa [append_assoc, head?_append_of_ne_nil _ hl0] at ha
  · intro a ha
    apply hm.2
    rwa [getLast?_append_of_ne_nil _ hm0] at ha

/-- Two lists one after the other, stripped: between what is left of them is a gap, unless they
touch in elements that are not cut off. -/
theorem exists_strip_append {l m : List α} (hl : l.strip p ≠ []) (hm : m.strip p ≠ []) :
    ∃ gap, (l ++ m).strip p = l.strip p ++ gap ++ m.strip p ∧
      (gap = [] ↔ (∀ a ∈ l.getLast?, p a = false) ∧ ∀ a ∈ m.head?, p a = false) := by
  obtain ⟨lead, trail, hle, hlead, htrail⟩ := exists_eq_strip p l
  obtain ⟨lead', trail', hme, hlead', htrail'⟩ := exists_eq_strip p m
  have hls := trimmed_strip p l
  have hms := trimmed_strip p m
  refine ⟨trail ++ lead', ?_, ?_⟩
  · have heq : l ++ m = lead ++ (l.strip p ++ (trail ++ lead') ++ m.strip p) ++ trail' := by
      conv_lhs => rw [hle, hme]
      simp only [append_assoc]
    rw [heq]
    exact strip_append_append hlead htrail' (trimmed_append _ hls hms hl hm)
  · have hlast : trail = [] ↔ ∀ a ∈ l.getLast?, p a = false := by
      constructor
      · intro ht a ha
        apply hls.2
        rwa [hle, ht, append_nil, getLast?_append_of_ne_nil _ hl] at ha
      · intro ha
        by_contra ht
        have hmem := getLast_mem ht
        have hfalse := ha (trail.getLast ht) (by
          rw [hle, getLast?_append_of_ne_nil _ ht, getLast?_eq_some_getLast ht]
          rfl)
        rw [htrail _ hmem] at hfalse
        cases hfalse
    have hhead : lead' = [] ↔ ∀ a ∈ m.head?, p a = false := by
      constructor
      · intro ht a ha
        apply hms.1
        rwa [hme, ht, nil_append, head?_append_of_ne_nil _ hm] at ha
      · intro ha
        by_contra ht
        have hmem := head_mem ht
        have hfalse := ha (lead'.head ht) (by
          rw [hme, append_assoc, head?_append_of_ne_nil _ ht, head?_eq_some_head ht]
          rfl)
        rw [hlead' _ hmem] at hfalse
        cases hfalse
    rw [append_eq_nil_iff, hlast, hhead]

/-- Nonempty trimmed lists one after the other make one. -/
theorem trimmed_flatten {ls : List (List α)} (h : ∀ l ∈ ls, l ≠ [] ∧ Trimmed p l) :
    Trimmed p ls.flatten := by
  induction ls with
  | nil => exact trimmed_nil
  | cons l ls ih =>
    obtain ⟨⟨hne, hl⟩, hls⟩ := forall_mem_cons.mp h
    rw [flatten_cons]
    by_cases hnil : ls.flatten = []
    · rwa [hnil, append_nil]
    · have htrim := trimmed_append [] hl (ih hls) hne hnil
      rwa [append_nil] at htrim

/-- More elements of the kind may come first. -/
theorem Interleaved.append {pieces : List (List α)} {l gap : List α} (h : Interleaved p pieces l)
    (hg : ∀ a ∈ gap, p a = true) : Interleaved p pieces (gap ++ l) := by
  cases h with
  | nil hg' =>
    apply Interleaved.nil
    intro a ha
    exact (mem_append.mp ha).elim (hg a) (hg' a)
  | @cons gap' piece l pieces hg' h =>
    rw [← append_assoc, ← append_assoc]
    apply Interleaved.cons _ h
    intro a ha
    exact (mem_append.mp ha).elim (hg a) (hg' a)

/-- What is left of a list is a piece of it. -/
theorem Interleaved.strip_cons {pieces : List (List α)} {l : List α} (h : Interleaved p pieces l)
    (m : List α) : Interleaved p (m.strip p :: pieces) (m ++ l) := by
  obtain ⟨lead, trail, hm, hlead, htrail⟩ := exists_eq_strip p m
  have heq : m ++ l = lead ++ m.strip p ++ (trail ++ l) := by
    conv_lhs => rw [hm]
    rw [append_assoc]
  rw [heq]
  exact .cons hlead (h.append htrail)

/-- The pieces keep every element of the other kind. -/
theorem Interleaved.filter_not {pieces : List (List α)} {l : List α} (h : Interleaved p pieces l) :
    pieces.flatten.filter (fun a ↦ !p a) = l.filter fun a ↦ !p a := by
  have hgap {gap : List α} (hg : ∀ a ∈ gap, p a = true) : gap.filter (fun a ↦ !p a) = [] := by
    rw [filter_eq_nil_iff]
    intro a ha
    simp [hg a ha]
  induction h with
  | nil hg => simp [hgap hg]
  | cons hg h ih => simp [filter_append, hgap hg, ih]

end List
