/-!
# Doubles

Binary floating point numbers with 53 bits of precision, kept as their 64-bit pattern.  A finite
double is `± mantissa * 2 ^ exponent`; `nearest` rounds a quotient of natural numbers to the
closest double, a tie to the even mantissa, so decimal texts, integers and percentages all
come from one rounding rule.
-/

namespace LintConfig

/-- A double, by its bit pattern: sign, eleven bits of exponent, fifty-two bits of mantissa. -/
structure Double where
  bits : UInt64
deriving DecidableEq, Repr, Inhabited

namespace Double

/-- The sign and the remaining bits. -/
def ofSign (negative : Bool) (rest : Nat) : Double :=
  ⟨UInt64.ofNat (if negative then Nat.pow 2 63 + rest else rest)⟩

/-- The bits below the sign. -/
def magnitude (d : Double) : Nat := d.bits.toNat % Nat.pow 2 63

/-- Whether the sign bit is set; `-0.0` is negative. -/
def isNegative (d : Double) : Bool := Nat.pow 2 63 ≤ d.bits.toNat

/-- The bits of the exponent as a number. -/
def exponentField (d : Double) : Nat := d.magnitude / Nat.pow 2 52

/-- Neither an infinity nor a NaN. -/
def isFinite (d : Double) : Bool := d.exponentField < 2047

/-- Either zero. -/
def isZero (d : Double) : Bool := d.magnitude == 0

/-- The mantissa of a finite double as a whole number. -/
def mantissa (d : Double) : Nat :=
  let fraction := d.magnitude % Nat.pow 2 52
  if d.exponentField = 0 then fraction else Nat.pow 2 52 + fraction

/-- The exponent of a finite double: its magnitude is `mantissa * 2 ^ exponent`. -/
def exponent (d : Double) : Int := max d.exponentField 1 - 1075

/-- The infinity of a sign. -/
def infinity (negative : Bool) : Double := ofSign negative (2047 * Nat.pow 2 52)

/-- The zero of a sign. -/
def zero (negative : Bool) : Double := ofSign negative 0

/-! ### Rounding -/

/-- The quotient rounded to the nearest whole number, a half to the even neighbour. -/
def roundQuotient (num den : Nat) : Nat :=
  let q := num / den
  let r := num % den
  if 2 * r < den then q else if den < 2 * r then q + 1 else if q % 2 = 0 then q else q + 1

/-- The exponent `e` with `2 ^ e ≤ num / den < 2 ^ (e + 1)`, for positive arguments. -/
def leadingExponent (num den : Nat) : Int :=
  let e : Int := (num.log2 : Int) - den.log2
  if den * Nat.pow 2 e.toNat ≤ num * Nat.pow 2 (-e).toNat then e else e - 1

/-- The double closest to `± num / den`; beyond the largest double, the infinity. -/
def nearest (negative : Bool) (num den : Nat) : Double :=
  if num = 0 then zero negative
  else
    let e := max (leadingExponent num den - 52) (-1074)
    let m := roundQuotient (num * Nat.pow 2 (-e).toNat) (den * Nat.pow 2 e.toNat)
    let rest := (e + 1074).toNat * Nat.pow 2 52 + m
    if 2047 * Nat.pow 2 52 ≤ rest then infinity negative else ofSign negative rest

/-- The number of decimal digits of a number; one for zero. -/
def decimalWidth (n : Nat) : Nat := (Nat.toDigits 10 n).length

/-- The double closest to `± m * 10 ^ e`. -/
def ofDecimal (negative : Bool) (m : Nat) (e : Int) : Double :=
  if m = 0 then zero negative
  else
    let width := e + decimalWidth m
    if 310 < width then infinity negative
    else if width < -330 then zero negative
    else if 0 ≤ e then nearest negative (m * Nat.pow 10 e.toNat) 1
    else nearest negative m (Nat.pow 10 (-e).toNat)

/-- The double closest to a whole number. -/
def ofInt (n : Int) : Double := nearest (n < 0) n.natAbs 1

/-! ### Exact values -/

/-- The magnitude of a finite double as a fraction, numerator and denominator. -/
def fraction (d : Double) : Nat × Nat :=
  (d.mantissa * Nat.pow 2 d.exponent.toNat, Nat.pow 2 (-d.exponent).toNat)

/-- The value, where it is a whole number. -/
def toInt? (d : Double) : Option Int :=
  if d.isFinite then
    let (num, den) := d.fraction
    if num % den = 0 then
      let n : Int := (num / den : Nat)
      some (if d.isNegative then -n else n)
    else none
  else none

/-- The share of `part` in `whole` in percent, rounded after the division and again after the
multiplication; zero of nothing. -/
def percentage (part whole : Nat) : Double :=
  if whole = 0 then zero false
  else
    let (num, den) := (nearest false part whole).fraction
    nearest false (num * 100) den

end Double

end LintConfig
