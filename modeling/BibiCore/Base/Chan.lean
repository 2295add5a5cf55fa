import Mathlib.Data.List.Basic

/-!
# Bounded channels

A buffered channel is a first-in first-out list that never holds more than its capacity:
the bound is a field, so an overfull channel cannot be built. `send?` is one enabled send
(a blocking send waits until it is enabled, a non-blocking one gives up when it is not) and
`recv?` one enabled receive.
-/

universe u

/-- A buffered channel of capacity `cap`, oldest element first. -/
structure Chan (α : Type u) (cap : Nat) where
  items : List α
  length_le : items.length ≤ cap
  deriving DecidableEq

namespace Chan

variable {α : Type u} {cap : Nat}

/-- The channel as it is made. -/
def empty : Chan α cap := ⟨[], Nat.zero_le _⟩

/-- Every buffer slot is taken. -/
def Full (c : Chan α cap) : Prop := c.items.length = cap

instance (c : Chan α cap) : Decidable c.Full := inferInstanceAs (Decidable (_ = _))

/-- Put an element at the back; `none` when the buffer is full. -/
def send? (c : Chan α cap) (a : α) : Option (Chan α cap) :=
  if h : c.items.length < cap then
    some ⟨c.items ++ [a], by rw [List.length_append, List.length_singleton]; omega⟩
  else none

/-- Take the oldest element; `none` when the buffer is empty. -/
def recv? (c : Chan α cap) : Option (α × Chan α cap) :=
  match c with
  | ⟨[], _⟩ => none
  | ⟨a :: as, h⟩ => some (a, ⟨as, by rw [List.length_cons] at h; omega⟩)

/-- A new channel holds nothing. -/
@[simp] theorem items_empty : (empty : Chan α cap).items = [] := rfl

/-- Channels are equal when they hold the same elements in the same order. -/
@[ext] theorem ext {c d : Chan α cap} (h : c.items = d.items) : c = d := by
  cases c
  cases d
  cases h
  rfl

/-- A send happens exactly when there is room, and appends the element. -/
theorem send?_eq_some {c d : Chan α cap} {a : α} :
    c.send? a = some d ↔ c.items.length < cap ∧ d.items = c.items ++ [a] := by
  unfold send?
  split
  · next h =>
    constructor
    · intro hd
      cases hd
      exact ⟨h, rfl⟩
    · rintro ⟨_, hd⟩
      exact congrArg some (ext hd.symm)
  · next h => simp [h]

/-- A send is refused exactly when the buffer is full. -/
theorem send?_eq_none {c : Chan α cap} {a : α} : c.send? a = none ↔ c.Full := by
  have hle := c.length_le
  unfold send? Full
  split
  · next h => simp only [reduceCtorEq, false_iff]; omega
  · next h => simp only [true_iff]; omega

/-- A receive takes the head of the buffer. -/
theorem recv?_eq_some {c d : Chan α cap} {a : α} :
    c.recv? = some (a, d) ↔ c.items = a :: d.items := by
  rcases c with ⟨_ | ⟨b, bs⟩, hb⟩
  · simp [recv?]
  · simp only [recv?, Option.some.injEq, Prod.mk.injEq, List.cons.injEq]
    exact and_congr_right fun _ ↦ ⟨fun h ↦ h ▸ rfl, fun h ↦ ext h⟩

/-- A receive finds nothing exactly when the buffer is empty. -/
theorem recv?_eq_none {c : Chan α cap} : c.recv? = none ↔ c.items = [] := by
  rcases c with ⟨_ | ⟨b, bs⟩, hb⟩ <;> simp [recv?]

end Chan
