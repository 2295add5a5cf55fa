import Mathlib.Data.List.Basic

/-!
# Cutting a sequence into windows

A buffer collects elements until it is full, is then handed over as one window and starts
again empty. `cut` gives the windows handed over and the buffer that is left; `cutEnd` closes
the sequence with one more element, which takes the leftover with it as the last window.
-/

universe u

namespace Windowing

variable {α : Type u} (full : List α → Bool)

/-- The windows that filled up while the elements arrived, and the buffer left over. -/
def cut (buffer : List α) : List α → List (List α) × List α
  | [] => ([], buffer)
  | x :: xs =>
    if full (buffer ++ [x]) then ((buffer ++ [x]) :: (cut [] xs).1, (cut [] xs).2)
    else cut (buffer ++ [x]) xs

/-- The windows of a sequence that `last` closes. -/
def cutEnd (buffer xs : List α) (last : α) : List (List α) :=
  (cut full buffer xs).1 ++ [(cut full buffer xs).2 ++ [last]]

variable {full}

/-- Without items the buffer stays as it is. -/
@[simp] theorem cut_nil (buffer : List α) : cut full buffer [] = ([], buffer) := rfl

/-- An element that fills the buffer closes a window. -/
theorem cut_cons_of_full {buffer xs : List α} {x : α} (h : full (buffer ++ [x]) = true) :
    cut full buffer (x :: xs) = ((buffer ++ [x]) :: (cut full [] xs).1, (cut full [] xs).2) := by
  simp [cut, h]

/-- Any other element stays in the buffer. -/
theorem cut_cons_of_not_full {buffer xs : List α} {x : α} (h : full (buffer ++ [x]) = false) :
    cut full buffer (x :: xs) = cut full (buffer ++ [x]) xs := by
  simp [cut, h]

/-- A buffer that never fills takes everything. -/
theorem cut_of_never_full {buffer : List α} (h : ∀ xs, full (buffer ++ xs) = false) (xs : List α) :
    cut full buffer xs = ([], buffer ++ xs) := by
  induction xs generalizing buffer with
  | nil => simp
  | cons x xs ih =>
    have hx : ∀ ys, full (buffer ++ [x] ++ ys) = false := by
      intro ys
      rw [List.append_assoc]
      exact h _
    rw [cut_cons_of_not_full (h [x]), ih hx, List.append_assoc]
    rfl

/-- Cutting loses nothing and keeps the order. -/
theorem flatten_cut (buffer xs : List α) :
    (cut full buffer xs).1.flatten ++ (cut full buffer xs).2 = buffer ++ xs := by
  induction xs generalizing buffer with
  | nil => simp
  | cons x xs ih =>
    cases h : full (buffer ++ [x]) with
    | true => simp [cut_cons_of_full h, ih []]
    | false => simp [cut_cons_of_not_full h, ih (buffer ++ [x])]

/-- The windows of a closed sequence are the sequence, cut. -/
theorem flatten_cutEnd (xs : List α) (last : α) :
    (cutEnd full [] xs last).flatten = xs ++ [last] := by
  have h : (cut full [] xs).1.flatten ++ (cut full [] xs).2 = xs := flatten_cut [] xs
  rw [cutEnd, List.flatten_append, List.flatten_singleton, ← List.append_assoc, h]

/-- Every window that was handed over was full. -/
theorem full_of_mem_cut {buffer xs w : List α} (hw : w ∈ (cut full buffer xs).1) :
    full w = true := by
  induction xs generalizing buffer with
  | nil => cases hw
  | cons x xs ih =>
    cases h : full (buffer ++ [x]) with
    | true =>
      rw [cut_cons_of_full h] at hw
      rcases List.mem_cons.mp hw with rfl | hw
      · exact h
      · exact ih hw
    | false =>
      rw [cut_cons_of_not_full h] at hw
      exact ih hw

/-- A window is handed over as soon as it is full: none of its proper prefixes was. -/
theorem not_full_of_mem_cut {buffer xs w p : List α} (hb : ∀ q, q <+: buffer → full q = false)
    (hw : w ∈ (cut full buffer xs).1) (hp : p <+: w) (hne : p ≠ w) : full p = false := by
  induction xs generalizing buffer with
  | nil => cases hw
  | cons x xs ih =>
    have hnil : ∀ q, q <+: [] → full q = false := by
      intro q hq
      exact hb q (List.prefix_nil.mp hq ▸ List.nil_prefix)
    cases h : full (buffer ++ [x]) with
    | true =>
      rw [cut_cons_of_full h] at hw
      rcases List.mem_cons.mp hw with rfl | hw
      · rcases List.prefix_concat_iff.mp hp with rfl | hp
        · exact absurd rfl hne
        · exact hb p hp
      · exact ih hnil hw
    | false =>
      rw [cut_cons_of_not_full h] at hw
      refine ih (fun q hq ↦ ?_) hw
      rcases List.prefix_concat_iff.mp hq with rfl | hq
      · exact h
      · exact hb q hq

/-- Nor was the leftover, or any prefix of it. -/
theorem not_full_of_prefix_rest {buffer xs p : List α} (hb : ∀ q, q <+: buffer → full q = false)
    (hp : p <+: (cut full buffer xs).2) : full p = false := by
  induction xs generalizing buffer with
  | nil => exact hb p hp
  | cons x xs ih =>
    cases h : full (buffer ++ [x]) with
    | true =>
      rw [cut_cons_of_full h] at hp
      refine ih (fun q hq ↦ ?_) hp
      exact hb q (List.prefix_nil.mp hq ▸ List.nil_prefix)
    | false =>
      rw [cut_cons_of_not_full h] at hp
      refine ih (fun q hq ↦ ?_) hp
      rcases List.prefix_concat_iff.mp hq with rfl | hq
      · exact h
      · exact hb q hq

/-- Every element of a window was in the buffer or arrived. -/
theorem mem_of_mem_cut {buffer xs w : List α} {x : α} (hw : w ∈ (cut full buffer xs).1)
    (hx : x ∈ w) : x ∈ buffer ++ xs := by
  have h : (cut full buffer xs).1.flatten ++ (cut full buffer xs).2 = buffer ++ xs :=
    flatten_cut buffer xs
  rw [← h]
  exact List.mem_append_left _ (List.mem_flatten.mpr ⟨w, hw, hx⟩)

/-- Every element left over was in the buffer or arrived. -/
theorem mem_of_mem_rest {buffer xs : List α} {x : α} (hx : x ∈ (cut full buffer xs).2) :
    x ∈ buffer ++ xs := by
  have h : (cut full buffer xs).1.flatten ++ (cut full buffer xs).2 = buffer ++ xs :=
    flatten_cut buffer xs
  rw [← h]
  exact List.mem_append_right _ hx

/-- When the size of a buffer adds up and a window is full at the threshold, the size of the
leftover is a fold over the sizes of the elements. -/
theorem size_cut {P : α → Prop} {size : List α → Nat} {weight : α → Nat} {threshold : Nat}
    (hnil : size [] = 0) (hadd : ∀ b x, size (b ++ [x]) = size b + weight x)
    (hfull : ∀ b, (∀ x ∈ b, P x) → (full b = true ↔ threshold ≤ size b))
    {buffer xs : List α} (hb : ∀ x ∈ buffer, P x) (hxs : ∀ x ∈ xs, P x) :
    size (cut full buffer xs).2 =
      xs.foldl (fun n x ↦ if threshold ≤ n + weight x then 0 else n + weight x) (size buffer) := by
  induction xs generalizing buffer with
  | nil => rfl
  | cons x xs ih =>
    obtain ⟨hx, hxs⟩ := List.forall_mem_cons.mp hxs
    have hb' : ∀ y ∈ buffer ++ [x], P y := by
      intro y hy
      rcases List.mem_append.mp hy with hy | hy
      · exact hb y hy
      · exact List.mem_singleton.mp hy ▸ hx
    have hf := hfull _ hb'
    rw [hadd] at hf
    rw [List.foldl_cons]
    cases h : full (buffer ++ [x]) with
    | true =>
      have hempty : ∀ y ∈ ([] : List α), P y := fun _ hy ↦ (List.not_mem_nil hy).elim
      have hr := ih hempty hxs
      rw [cut_cons_of_full h, if_pos (hf.mp h), hr, hnil]
    | false =>
      have hlt : ¬ threshold ≤ size buffer + weight x := fun hc ↦ by simp [hf.mpr hc] at h
      rw [cut_cons_of_not_full h, if_neg hlt, ← hadd]
      exact ih hb' hxs

end Windowing
