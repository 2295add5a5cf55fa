import Mathlib.Data.Int.Log
import Mathlib.Data.Rat.Floor
import Mathlib.Tactic.Linarith

/-!
# Rounding

Rounding to the nearest integer, ties to even, and by it the nearest binary32 number.
-/

namespace Rounding

/-- The nearest integer, the even one of two. -/
def roundHalfEven (q : ℚ) : Int :=
  if q - ⌊q⌋ < 1 / 2 then ⌊q⌋
  else if 1 / 2 < q - ⌊q⌋ then ⌊q⌋ + 1
  else if ⌊q⌋ % 2 = 0 then ⌊q⌋
  else ⌊q⌋ + 1

/-- Rounding moves by a half at most. -/
theorem abs_roundHalfEven_sub_le (q : ℚ) : |(roundHalfEven q : ℚ) - q| ≤ 1 / 2 := by
  have hfloor := Int.floor_le q
  have hlt := Int.lt_floor_add_one q
  rw [abs_le]
  unfold roundHalfEven
  split_ifs <;> push_cast <;> constructor <;> linarith

/-- A whole number is its own rounding. -/
theorem roundHalfEven_intCast (n : Int) : roundHalfEven n = n := by
  simp [roundHalfEven]

/-- A floating-point number: the two zeros are one. -/
inductive FloatValue where
  | nan
  | infinite (negative : Bool)
  | finite (value : ℚ)
  deriving DecidableEq

/-- The nearest binary32 number. A finite value is a multiple of the unit in the last of its 24
places, which is `2 ^ (-149)` at least, and less than `2 ^ 128`. -/
def FloatValue.toFloat32 : FloatValue → FloatValue
  | .nan => .nan
  | .infinite negative => .infinite negative
  | .finite value =>
    let unit : ℚ := 2 ^ max (Int.log 2 |value| - 23) (-149)
    let rounded := roundHalfEven (value / unit) * unit
    if 2 ^ 128 ≤ |rounded| then .infinite (decide (value < 0)) else .finite rounded

example : (FloatValue.finite (1 / 10)).toFloat32 = .finite (13421773 / 134217728) := by
  decide +kernel

example : (FloatValue.finite (-(2 ^ 128 - 2 ^ 103))).toFloat32 = .infinite true := by
  decide +kernel

end Rounding
