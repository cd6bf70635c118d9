import Mathlib.Data.Char

/-
  Texts of names and paths, character by character.

  Main declarations:
    * `Text`
    * `isWhitespace`
-/

namespace S4Drive

/- The text of a path or of a part of it. -/
abbrev Text := List Char

/- Named, so that all that compares texts uses the same. -/
instance lawfulBEqText : LawfulBEq Text := inferInstance

instance lawfulBEqPath : LawfulBEq (List Text) :=
  inferInstance

/- `char::is_whitespace`: Unicode's White_Space. -/
def isWhitespace (c : Char) : Bool :=
  let n := c.toNat
  (9 ≤ n && n ≤ 13) || n = 0x20 || n = 0x85 || n = 0xA0 ||
    n = 0x1680 || (0x2000 ≤ n && n ≤ 0x200A) ||
    n = 0x2028 || n = 0x2029 || n = 0x202F || n = 0x205F ||
    n = 0x3000

end S4Drive
