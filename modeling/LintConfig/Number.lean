import LintConfig.Number.Layout

/-!
# Numbers

A number of a document is an integer between `-2^63` and `2^64 - 1` or a double, and keeps its
kind: `1` and `1.0` are different numbers that are written differently.  Numerals outside the
integer range are doubles.
-/

namespace LintConfig

/-- A number together with its kind. -/
inductive Number where
  | int (n : Int)
  | float (d : Double)
deriving DecidableEq, Repr, Inhabited

namespace Number

/-- The least integer. -/
def minInt : Int := -Int.pow 2 63

/-- The greatest signed integer. -/
def maxSigned : Int := Int.pow 2 63 - 1

/-- The greatest integer. -/
def maxInt : Int := Int.pow 2 64 - 1

/-- The written form. -/
def text : Number → String
  | .int n => toString n
  | .float d => String.ofList (Layout.written.chars d)

/-- The canonical form, in which every number is a double. -/
def canonical : Number → List Char
  | .int n => Layout.canonical.chars (Double.ofInt n)
  | .float d => Layout.canonical.chars d

/-- The value as a signed 64-bit integer, if the number is an integer in that range. -/
def toSigned? : Number → Option Int
  | .int n => if minInt ≤ n ∧ n ≤ maxSigned then some n else none
  | .float _ => none

/-- The value, if it is a whole number of either kind. -/
def whole? : Number → Option Int
  | .int n => some n
  | .float d => d.toInt?

end Number

/-! ### Numerals -/

/-- A decimal numeral: its digits with the point removed, and the power of ten they count. -/
structure Numeral where
  negative : Bool
  digits : Nat
  power : Int

namespace Numeral

/-- The value of a list of decimal digits. -/
def digitsValue (cs : List Char) : Nat := cs.foldl (fun n c => 10 * n + (c.toNat - '0'.toNat)) 0

/-- The decimal digits at the start of a text, and the rest. -/
def spanDigits (cs : List Char) : List Char × List Char :=
  (cs.takeWhile Char.isDigit, cs.dropWhile Char.isDigit)

/-- The optional sign at the start of a text; whether it is a minus, and the rest. -/
def spanSign : List Char → Bool × List Char
  | '-' :: cs => (true, cs)
  | '+' :: cs => (false, cs)
  | cs => (false, cs)

/-- The digits behind a point at the start of a text, if there is one, and the rest. -/
def spanPlaces : List Char → List Char × List Char
  | '.' :: cs => spanDigits cs
  | cs => ([], cs)

/-- The exponent part at the start of a text: a mark, an optional sign, at least one digit. -/
def exponent? : List Char → Option (Int × List Char)
  | c :: cs =>
    if c = 'e' ∨ c = 'E' then
      let (negative, cs) := spanSign cs
      match spanDigits cs with
      | ([], _) => none
      | (ds, rest) => some (if negative then -(digitsValue ds : Int) else digitsValue ds, rest)
    else none
  | [] => none

/-- The closest double. -/
def toDouble (n : Numeral) : Double := Double.ofDecimal n.negative n.digits n.power

/-- Reads a whole text as a decimal numeral: an optional sign, digits with at most one point and
at least one digit on one side of it, and an optional exponent. -/
def ofChars? (cs : List Char) : Option Numeral :=
  let (negative, cs) := spanSign cs
  let (whole, cs) := spanDigits cs
  let (places, cs) := spanPlaces cs
  if whole.isEmpty && places.isEmpty then none
  else
    let digits := digitsValue (whole ++ places)
    let power := -(places.length : Int)
    match cs with
    | [] => some ⟨negative, digits, power⟩
    | cs =>
      match exponent? cs with
      | some (e, []) => some ⟨negative, digits, power + e⟩
      | _ => none

end Numeral

end LintConfig
