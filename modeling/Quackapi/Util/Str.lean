import Mathlib.Data.List.Basic

/-! Strings as the C++ code sees them: finite sequences of characters, one `Char` for one byte.
Nothing below looks at a character's code beyond the ASCII range, so every result holds for
arbitrary bytes. -/

namespace Quackapi

abbrev Str := List Char

instance : LawfulBEq Str := inferInstance

/-- `StringUtil::Lower`: ASCII letters only. -/
def lower (s : Str) : Str := s.map Char.toLower

/-- `StringUtil::Upper`: ASCII letters only. -/
def upper (s : Str) : Str := s.map Char.toUpper

/-- `StringUtil::CIEquals`. -/
def ciEquals (a b : Str) : Bool := lower a == lower b

end Quackapi
