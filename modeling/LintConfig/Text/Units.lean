/-!
# The order of UTF-16 units

Canonical JSON sorts the members of an object by the UTF-16 code units of their names, which
differs from the order of code points above U+FFFF.
-/

namespace LintConfig.Text

/-- The UTF-16 code units of a character: itself, or a surrogate pair. -/
def unitsOf (c : Char) : List Nat :=
  let n := c.toNat
  if n < 0x10000 then [n] else [0xD800 + (n - 0x10000) / 0x400, 0xDC00 + (n - 0x10000) % 0x400]

/-- The UTF-16 code units of a text. -/
def units (s : String) : List Nat := s.toList.flatMap unitsOf

/-- The lexicographic order of unit sequences; a proper beginning comes first. -/
def unitsLe : List Nat → List Nat → Bool
  | [], _ => true
  | _ :: _, [] => false
  | a :: as, b :: bs => a < b || (a == b && unitsLe as bs)

/-- Whether `a` comes before `b`, or is `b`, by UTF-16 units. -/
def leByUnits (a b : String) : Bool := unitsLe (units a) (units b)

end LintConfig.Text
