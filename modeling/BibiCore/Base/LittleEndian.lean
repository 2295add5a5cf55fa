import Mathlib.Algebra.Order.Ring.Nat
import Mathlib.Data.List.Basic

/-!
# Little-endian numbers

Unsigned numbers as a fixed number of bytes, least significant first, and back.
-/

namespace LittleEndian

/-- The `width` bytes of a number; what is above them is dropped. -/
def bytes : Nat → Nat → List UInt8
  | 0, _ => []
  | width + 1, n => UInt8.ofNat n :: bytes width (n / 256)

/-- The number with these bytes. -/
def value : List UInt8 → Nat
  | [] => 0
  | b :: bs => b.toNat + 256 * value bs

/-- The width is the number of bytes. -/
@[simp] theorem length_bytes (width n : Nat) : (bytes width n).length = width := by
  induction width generalizing n with
  | zero => rfl
  | succ width ih => simp [bytes, ih]

/-- No bytes make zero. -/
@[simp] theorem value_nil : value [] = 0 := rfl

/-- A number that fits its width is read back. -/
theorem value_bytes {width n : Nat} (h : n < 256 ^ width) : value (bytes width n) = n := by
  induction width generalizing n with
  | zero =>
    rw [Nat.pow_zero, Nat.lt_one_iff] at h
    rw [h]
    rfl
  | succ width ih =>
    rw [Nat.pow_succ] at h
    have hrest : value (bytes width (n / 256)) = n / 256 := ih (by omega)
    rw [bytes, value, hrest, UInt8.toNat_ofNat']
    omega

/-- `struct.pack` of one unsigned field: a number that does not fit raises. -/
def pack (width n : Nat) : Option (List UInt8) :=
  if n < 256 ^ width then some (bytes width n) else none

/-- `struct.unpack_from` of one unsigned field: too few bytes raise. -/
def unpack (width : Nat) (bs : List UInt8) : Option Nat :=
  if width ≤ bs.length then some (value (bs.take width)) else none

/-- `pack` succeeds on what fits the width alone. -/
theorem pack_eq_some {width n : Nat} {bs : List UInt8} :
    pack width n = some bs ↔ n < 256 ^ width ∧ bs = bytes width n := by
  unfold pack
  split <;> simp_all [eq_comm]

/-- `unpack` fails where bytes are missing. -/
theorem le_of_unpack {width n : Nat} {bs : List UInt8} (h : unpack width bs = some n) :
    width ≤ bs.length := by
  unfold unpack at h
  split at h
  · assumption
  · cases h

/-- What was packed is read back, whatever follows it. -/
theorem unpack_bytes {width n : Nat} (h : n < 256 ^ width) (more : List UInt8) :
    unpack width (bytes width n ++ more) = some n := by
  rw [unpack, if_pos (by simp), List.take_left' (length_bytes width n), value_bytes h]

end LittleEndian
