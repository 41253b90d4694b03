import LintConfig.Number.Shortest

/-!
# Number layouts

A layout says how the shortest decimal of a double is set out: for which leading exponents in
positional notation, whether whole numbers keep a fraction, and whether zero keeps its sign.
`Layout.written` is the layout of written documents, `Layout.canonical` the one of fingerprints.
-/

namespace LintConfig

/-- How a double is set out in text. -/
structure Layout where
  /-- Least exponent of the leading digit that is written positionally. -/
  least : Int
  /-- Greatest exponent of the leading digit that is written positionally. -/
  greatest : Int
  /-- Whole numbers in positional notation end in `.0`. -/
  keepsFraction : Bool
  /-- A negative zero is written with its sign. -/
  signedZero : Bool

namespace Layout

/-- Written documents: positional from `0.00001` to below `1e16`, with at least one place. -/
def written : Layout := ⟨-5, 15, true, true⟩

/-- Canonical JSON: positional from `0.000001` to below `1e21`, whole numbers without a point. -/
def canonical : Layout := ⟨-6, 20, false, false⟩

/-- The text of a decimal in positional notation. -/
def positional (layout : Layout) (d : Decimal) : List Char :=
  let digits := Nat.toDigits 10 d.digits
  if 0 ≤ d.power then
    digits ++ List.replicate d.power.toNat '0' ++ (if layout.keepsFraction then ['.', '0'] else [])
  else
    let places := (-d.power).toNat
    if places < digits.length then
      digits.take (digits.length - places) ++ '.' :: digits.drop (digits.length - places)
    else '0' :: '.' :: (List.replicate (places - digits.length) '0' ++ digits)

/-- The text of a decimal in scientific notation, the exponent with its sign. -/
def scientific (d : Decimal) : List Char :=
  let e := d.scientificPower
  let exponent := (if e < 0 then '-' else '+') :: Nat.toDigits 10 e.natAbs
  match Nat.toDigits 10 d.digits with
  | [] => []
  | [c] => c :: 'e' :: exponent
  | c :: cs => c :: '.' :: (cs ++ 'e' :: exponent)

/-- The text of a finite double. -/
def chars (layout : Layout) (d : Double) : List Char :=
  if d.isZero then
    (if d.isNegative && layout.signedZero then ['-'] else []) ++
      (if layout.keepsFraction then ['0', '.', '0'] else ['0'])
  else
    let decimal := Decimal.shortest d
    let e := decimal.scientificPower
    (if d.isNegative then ['-'] else []) ++
      (if layout.least ≤ e ∧ e ≤ layout.greatest then layout.positional decimal
       else scientific decimal)

end Layout

end LintConfig
