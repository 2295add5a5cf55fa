import Mathlib.Data.List.Forall2

/-!
# Traversals that may raise

`mapM` over a list in `Except`: it succeeds when it does on every entry, with the results in order,
and otherwise raises what the first entry that fails does.
-/

universe u v w

namespace List

variable {ε : Type u} {α : Type w} {β : Type v} {f : α → Except ε β}

/-- A traversal succeeds with the results of the entries. -/
theorem mapM_eq_ok_iff {xs : List α} {ys : List β} :
    xs.mapM f = .ok ys ↔ Forall₂ (fun x y ↦ f x = .ok y) xs ys := by
  induction xs generalizing ys with
  | nil => simp [pure, Except.pure, eq_comm]
  | cons x xs ih =>
    rw [mapM_cons, forall₂_cons_left_iff]
    cases hx : f x with
    | error e => simp [bind, Except.bind]
    | ok y =>
      cases hxs : xs.mapM f with
      | error e =>
        have hnone : ∀ zs, ¬ Forall₂ (fun x y ↦ f x = .ok y) xs zs := by
          intro zs hzs
          rw [ih.mpr hzs] at hxs
          cases hxs
        simp [bind, Except.bind, hnone]
      | ok rest =>
        have hrest := ih.mp hxs
        constructor
        · intro h
          obtain rfl : y :: rest = ys := Except.ok.inj h
          exact ⟨y, rest, rfl, hrest, rfl⟩
        · rintro ⟨z, zs, ⟨⟩, hzs, rfl⟩
          obtain rfl : rest = zs := Except.ok.inj (hxs.symm.trans (ih.mpr hzs))
          rfl

/-- It succeeds exactly when it does on every entry. -/
theorem exists_mapM_eq_ok_iff {xs : List α} :
    (∃ ys, xs.mapM f = .ok ys) ↔ ∀ x ∈ xs, ∃ y, f x = .ok y := by
  simp only [mapM_eq_ok_iff]
  induction xs with
  | nil => simp
  | cons x xs ih =>
    rw [forall_mem_cons, ← ih]
    constructor
    · rintro ⟨ys, h⟩
      cases h with
      | cons hx hxs => exact ⟨⟨_, hx⟩, _, hxs⟩
    · rintro ⟨⟨y, hx⟩, ys, hxs⟩
      exact ⟨y :: ys, .cons hx hxs⟩

/-- What every entry keeps, the whole list does. -/
theorem map_eq_of_mapM {γ : Type*} {g : α → γ} {h : β → γ} (hf : ∀ x y, f x = .ok y → h y = g x)
    {xs : List α} {ys : List β} (hm : xs.mapM f = .ok ys) : ys.map h = xs.map g := by
  rw [mapM_eq_ok_iff] at hm
  induction hm with
  | nil => rfl
  | cons hx _ ih => exact congrArg₂ cons (hf _ _ hx) ih

/-- An exception of a traversal is that of an entry. -/
theorem exists_of_mapM_eq_error {xs : List α} {e : ε} (h : xs.mapM f = .error e) :
    ∃ x ∈ xs, f x = .error e := by
  induction xs with
  | nil => cases h
  | cons x xs ih =>
    rw [mapM_cons] at h
    cases hx : f x with
    | error e' =>
      rw [hx] at h
      obtain rfl : e' = e := Except.error.inj h
      exact ⟨x, mem_cons_self, hx⟩
    | ok y =>
      cases hxs : xs.mapM f with
      | error e' =>
        rw [hx, hxs] at h
        obtain rfl : e' = e := Except.error.inj h
        obtain ⟨z, hz, he⟩ := ih hxs
        exact ⟨z, mem_cons_of_mem _ hz, he⟩
      | ok ys =>
        rw [hx, hxs] at h
        cases h

end List
