import BibiCore.Base.Strip

/-!
# Python strings

A `str` is the list of its characters.
-/

namespace PyStr

abbrev Str := List Char

/-- `str.isspace` of one character: the white space of Unicode and the four separators
U+001C–U+001F. -/
def isspace (c : Char) : Bool :=
  let n := c.toNat
  decide (0x09 ≤ n ∧ n ≤ 0x0D ∨ 0x1C ≤ n ∧ n ≤ 0x20 ∨ 0x2000 ≤ n ∧ n ≤ 0x200A ∨
    n ∈ [0x85, 0xA0, 0x1680, 0x2028, 0x2029, 0x202F, 0x205F, 0x3000])

/-- `s.strip()`. -/
def strip (s : Str) : Str := List.strip isspace s

/-- `s.rfind(c)`. -/
def rfind (s : Str) (c : Char) : Int :=
  match s.reverse.findIdx? (· = c) with
  | some i => s.length - 1 - i
  | none => -1

/-- `s.split(" ")[-1]`. -/
def lastWord (s : Str) : Str := s.rtakeWhile (· ≠ ' ')

/-- `s.lower()` on ASCII letters. -/
def lower (s : Str) : Str := s.map Char.toLower

/-- Nothing is left of white space alone. -/
theorem strip_eq_nil_iff {s : Str} : strip s = [] ↔ ∀ c ∈ s, isspace c = true :=
  List.strip_eq_nil_iff

end PyStr
