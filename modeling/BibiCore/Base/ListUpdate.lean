import Mathlib.Algebra.GroupWithZero.Nat
import Mathlib.Data.List.Nodup

/-!
# Updating one entry of a list

Look-ups in a list one of whose entries was modified, or that grew or shrank by one entry.
-/

universe u v

namespace List

variable {α : Type u} {β : Type v}

/-- An entry of a modified list is an untouched entry or the image of the modified one. -/
theorem getElem?_modify_eq_some {l : List α} {g : α → α} {i k : Nat} {d : α} :
    (l.modify i g)[k]? = some d ↔
      (k ≠ i ∧ l[k]? = some d) ∨ (k = i ∧ ∃ c, l[i]? = some c ∧ g c = d) := by
  rw [getElem?_modify]
  by_cases h : i = k
  · subst h
    simp
  · simp [h, Ne.symm h]

/-- What is appended moves no entry. -/
theorem getElem?_append_of_eq_some {l : List α} {a : α} {i : Nat} (h : l[i]? = some a)
    (l' : List α) : (l ++ l')[i]? = some a := by
  rw [getElem?_append_left (getElem?_eq_some_iff.mp h).1, h]

/-- An entry of a list grown by one is an old entry or the new one. -/
theorem getElem?_concat_eq_some {l : List α} {a : α} {k : Nat} {d : α} :
    (l ++ [a])[k]? = some d ↔ l[k]? = some d ∨ (k = l.length ∧ d = a) := by
  rcases Nat.lt_trichotomy k l.length with h | rfl | h
  · simp [getElem?_append_left h, Nat.ne_of_lt h]
  · simp [eq_comm]
  · simp [getElem?_append_right (Nat.le_of_lt h), getElem?_eq_none (Nat.le_of_lt h),
      Nat.ne_of_gt h, Nat.sub_ne_zero_of_lt h]

/-- A modification that keeps an attribute of the entry it touches keeps the list of
attributes. -/
theorem map_modify_of_eq {l : List α} {g : α → α} {f : α → β} {i : Nat}
    (h : ∀ c, l[i]? = some c → f (g c) = f c) : (l.modify i g).map f = l.map f := by
  apply ext_getElem?
  intro k
  rw [getElem?_map, getElem?_map, getElem?_modify]
  by_cases hk : i = k
  · subst hk
    cases hc : l[i]? with
    | none => rfl
    | some c => simp [h c hc]
  · simp [hk]

/-- A modification that gives the entry it touches the attribute `v` sets that attribute. -/
theorem map_modify_of_const {l : List α} {g : α → α} {f : α → β} {i : Nat} {v : β}
    (h : ∀ c, l[i]? = some c → f (g c) = v) : (l.modify i g).map f = (l.map f).set i v := by
  apply ext_getElem?
  intro k
  rw [getElem?_map, getElem?_modify, getElem?_set, length_map, getElem?_map]
  by_cases hk : i = k
  · subst hk
    cases hc : l[i]? with
    | none => simp [getElem?_eq_none_iff.mp hc]
    | some c => simp [h c hc, (getElem?_eq_some_iff.mp hc).1]
  · simp [hk]

/-- A modification that an attribute follows modifies the list of attributes. -/
theorem map_modify_of_comm {l : List α} {g : α → α} {f : α → β} {h : β → β} {i : Nat}
    (hg : ∀ c, l[i]? = some c → f (g c) = h (f c)) :
    (l.modify i g).map f = (l.map f).modify i h := by
  apply ext_getElem?
  intro k
  rw [getElem?_map, getElem?_modify, getElem?_modify, getElem?_map]
  by_cases hk : i = k
  · subst hk
    cases hc : l[i]? with
    | none => simp
    | some c => simp [hg c hc]
  · simp [hk]

/-- Replacing an entry by one with the same attribute keeps the list of attributes. -/
theorem map_set_of_eq {l : List α} {f : α → β} {i : Nat} {a c : α} (hc : l[i]? = some c)
    (hf : f a = f c) : (l.set i a).map f = l.map f := by
  apply ext_getElem?
  intro k
  rw [getElem?_map, getElem?_map, getElem?_set]
  by_cases hk : i = k
  · subst hk
    obtain ⟨hi, rfl⟩ := getElem?_eq_some_iff.mp hc
    simp [hi, hf]
  · simp [hk]

/-- An attribute found after such a modification is the new one or was there before. -/
theorem mem_map_of_mem_map_modify {l : List α} {g : α → α} {f : α → β} {i : Nat} {b v : β}
    (hg : ∀ c, f (g c) = v) (hb : b ≠ v) (h : b ∈ (l.modify i g).map f) : b ∈ l.map f := by
  rw [map_modify_of_const fun c _ ↦ hg c] at h
  exact (mem_or_eq_of_mem_set h).resolve_right hb

/-- An entry of a list with one entry replaced is an untouched entry or the new one. -/
theorem getElem?_set_eq_some {l : List α} {a d : α} {i k : Nat} :
    (l.set i a)[k]? = some d ↔
      (k ≠ i ∧ l[k]? = some d) ∨ (k = i ∧ i < l.length ∧ a = d) := by
  rw [getElem?_set]
  by_cases h : i = k
  · subst h
    by_cases hl : i < l.length <;> simp [hl]
  · simp [h, Ne.symm h]

/-- An entry that is not the new one was there before. -/
theorem getElem?_of_getElem?_set {l : List α} {a d : α} {i k : Nat}
    (h : (l.set i a)[k]? = some d) (ha : a ≠ d) : l[k]? = some d :=
  ((getElem?_set_eq_some.mp h).resolve_right fun he ↦ ha he.2.2).2

/-- An entry stays where another one is replaced. -/
theorem getElem?_set_of_ne_entry {l : List α} {a c d : α} {i k : Nat} (hd : l[k]? = some d)
    (hc : l[i]? = some c) (hne : c ≠ d) : (l.set i a)[k]? = some d := by
  refine getElem?_set_eq_some.mpr (.inl ⟨?_, hd⟩)
  rintro rfl
  exact hne (Option.some.inj (hc.symm.trans hd))

/-- A property of the entries and of the one that replaces one of them. -/
theorem forall_mem_set {l : List α} {p : α → Prop} {i : Nat} {a : α} (hl : ∀ b ∈ l, p b)
    (ha : p a) : ∀ b ∈ l.set i a, p b := by
  intro b hb
  rcases mem_or_eq_of_mem_set hb with hb | rfl
  · exact hl b hb
  · exact ha

/-- A property of the entries and of one more. -/
theorem forall_mem_concat {l : List α} {p : α → Prop} {a : α} (hl : ∀ b ∈ l, p b) (ha : p a) :
    ∀ b ∈ l ++ [a], p b :=
  forall_mem_append.mpr ⟨hl, forall_mem_singleton.mpr ha⟩

/-- A change of the entries with a property that none has. -/
theorem map_ite_of_not {l : List α} {p : α → Prop} [DecidablePred p] (f : α → α)
    (hl : ∀ b ∈ l, ¬ p b) : (l.map fun b ↦ if p b then f b else b) = l := by
  conv_rhs => rw [← map_id l]
  exact map_congr_left fun b hb ↦ if_neg (hl b hb)

/-- A change of the entries with a property that only the last has. -/
theorem map_ite_concat {l : List α} {p : α → Prop} [DecidablePred p] (f : α → α) {a : α}
    (hl : ∀ b ∈ l, ¬ p b) (ha : p a) :
    ((l ++ [a]).map fun b ↦ if p b then f b else b) = l ++ [f a] := by
  rw [map_append, map_singleton, if_pos ha, map_ite_of_not f hl]

/-- Dropping the entry that has one value of an attribute no two entries share. -/
theorem length_filter_ne_add_one [DecidableEq β] {l : List α} {f : α → β} {b : β}
    (hn : (l.map f).Nodup) (hb : b ∈ l.map f) :
    (l.filter fun a ↦ f a ≠ b).length + 1 = l.length := by
  have herase : (l.filter fun a ↦ f a ≠ b).map f = (l.map f).erase b := by
    rw [hn.erase_eq_filter, filter_map]
    refine congrArg (map f) (filter_congr fun a _ ↦ ?_)
    rw [decide_not]
    rfl
  have hlen := length_erase_of_mem hb
  have hpos := length_pos_of_mem hb
  rw [← herase, length_map, length_map] at hlen
  rw [length_map] at hpos
  omega

/-- Entries with one attribute are all kept or all left out. -/
theorem filter_beq_of_const [DecidableEq β] {l : List α} {f : α → β} {a : β}
    (h : ∀ x ∈ l, f x = a) (b : β) : l.filter (f · == b) = if a = b then l else [] := by
  split
  · next hab => exact filter_eq_self.mpr fun x hx ↦ by simpa [h x hx] using hab
  · next hab => exact filter_eq_nil_iff.mpr fun x hx ↦ by simpa [h x hx] using hab

/-- Two positions of elements of a kind the list holds at most once are one position. -/
theorem eq_of_countP_le_one {l : List α} {p : α → Bool} (h : l.countP p ≤ 1) {j k : Nat} {a b : α}
    (hj : l[j]? = some a) (hk : l[k]? = some b) (ha : p a = true) (hb : p b = true) : j = k := by
  induction l generalizing j k with
  | nil => cases hj
  | cons c l ih =>
    -- the head is of the kind, so nothing behind it is
    have hhead {d : α} {i : Nat} (hc : p c = true) (hi : l[i]? = some d) (hd : p d = true) :
        False := by
      have hpos : 0 < l.countP p := countP_pos_iff.mpr ⟨d, mem_of_getElem? hi, hd⟩
      rw [countP_cons_of_pos hc] at h
      omega
    cases j with
    | zero =>
      obtain rfl : c = a := by simpa using hj
      cases k with
      | zero => rfl
      | succ k => exact (hhead ha (by simpa using hk) hb).elim
    | succ j =>
      cases k with
      | zero =>
        obtain rfl : c = b := by simpa using hk
        exact (hhead hb (by simpa using hj) ha).elim
      | succ k =>
        have hle : l.countP p ≤ (c :: l).countP p := (sublist_cons_self c l).countP_le
        have hjk : j = k := ih (by omega) (by simpa using hj) (by simpa using hk)
        rw [hjk]

/-- The sum of an attribute follows the entry that was modified. -/
theorem sum_map_modify {l : List α} {f : α → Nat} {g : α → α} {i : Nat} {c : α}
    (hc : l[i]? = some c) : ((l.modify i g).map f).sum + f c = (l.map f).sum + f (g c) := by
  induction l generalizing i with
  | nil => cases hc
  | cons a l ih =>
    cases i with
    | zero =>
      obtain rfl : a = c := by simpa using hc
      simp only [modify_zero_cons, map_cons, sum_cons]
      omega
    | succ i =>
      have hrest := ih (i := i) (by simpa using hc)
      simp only [modify_succ_cons, map_cons, sum_cons]
      omega

/-- The sum of an attribute grows by no more than that of the entry that was modified. -/
theorem sum_map_modify_le {l : List α} {f : α → Nat} {g : α → α} {i k : Nat}
    (h : ∀ c, l[i]? = some c → f (g c) ≤ f c + k) :
    ((l.modify i g).map f).sum ≤ (l.map f).sum + k := by
  cases hc : l[i]? with
  | none =>
    rw [modify_eq_self (getElem?_eq_none_iff.mp hc)]
    omega
  | some c =>
    have hsum := sum_map_modify (f := f) (g := g) hc
    have hle := h c hc
    omega

/-- The entries at rising positions are a sublist. -/
theorem filterMap_getElem?_sublist {l : List α} {ns : List Nat} (h : ns.Pairwise (· < ·)) :
    (ns.filterMap (l[·]?)).Sublist l := by
  suffices hfrom : ∀ k, (∀ n ∈ ns, k ≤ n) → (ns.filterMap (l[·]?)).Sublist (l.drop k) from
    hfrom 0 fun n _ ↦ Nat.zero_le n
  induction ns with
  | nil => exact fun k _ ↦ nil_sublist _
  | cons n ns ih =>
    intro k hk
    obtain ⟨hn, hns⟩ := pairwise_cons.mp h
    have hrest := ih hns (n + 1) fun m hm ↦ hn m hm
    have hskip : (l.drop n).Sublist (l.drop k) :=
      drop_sublist_drop_left l (hk n mem_cons_self)
    refine Sublist.trans ?_ hskip
    rw [filterMap_cons]
    cases hget : l[n]? with
    | none => exact hrest.trans (drop_sublist_drop_left l (Nat.le_succ n))
    | some a =>
      obtain ⟨hlt, rfl⟩ := getElem?_eq_some_iff.mp hget
      rw [drop_eq_getElem_cons hlt]
      exact hrest.cons_cons _

end List
