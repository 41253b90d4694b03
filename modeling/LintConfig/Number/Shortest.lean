import LintConfig.Number.Double

/-!
# The shortest decimal that reads back

The reals that round to a finite double form an interval around it.  `Decimal.shortest` takes the
coarsest decimal grid, of one to seventeen significant digits, that has a point in the interval
next to the double's value, and of two such points the nearer one.
-/

namespace LintConfig

/-- The decimal `digits * 10 ^ power`. -/
structure Decimal where
  digits : Nat
  power : Int
deriving DecidableEq, Repr

namespace Decimal

/-- The exponent of the leading digit of `num / den`, for positive arguments. -/
def leadingPower (num den : Nat) : Int :=
  if den ≤ num then (Double.decimalWidth (num / den) : Int) - 1
  else
    let width := Double.decimalWidth (den / num)
    if den ≤ num * Nat.pow 10 (width - 1) then 1 - (width : Int) else -(width : Int)

/-- Moves trailing zeros of the digits into the power. -/
def normalize : Nat → Decimal → Decimal
  | 0, d => d
  | fuel + 1, d =>
    if d.digits % 10 = 0 then normalize fuel ⟨d.digits / 10, d.power + 1⟩ else d

/-- The point of the grid of multiples of `10 ^ power` that reads back as `d` and is nearest to it,
if one of the two neighbours of `d` on that grid does. -/
def onGrid? (d : Double) (power : Int) : Option Nat :=
  let m := 4 * d.mantissa
  let below := if d.mantissa = Nat.pow 2 52 ∧ 1 < d.exponentField then 1 else 2
  let e := d.exponent - 2
  let scale := Nat.pow 2 e.toNat * Nat.pow 10 (-power).toNat
  let den := Nat.pow 2 (-e).toNat * Nat.pow 10 power.toNat
  let low := (m - below) * scale
  let value := m * scale
  let high := (m + 2) * scale
  let closed := d.mantissa % 2 == 0
  let inside (p : Nat) : Bool :=
    if closed then low ≤ p * den && p * den ≤ high else low < p * den && p * den < high
  let p := value / den
  let atFloor := inside p && p != 0
  let atCeil := inside (p + 1)
  if atFloor && atCeil then
    let toFloor := value - p * den
    let toCeil := (p + 1) * den - value
    if toFloor < toCeil then some p
    else if toCeil < toFloor then some (p + 1)
    else if p % 2 = 0 then some p else some (p + 1)
  else if atFloor then some p
  else if atCeil then some (p + 1)
  else none

/-- Tries the grids of `count`, `count + 1`, … significant digits. -/
def search (d : Double) (leading : Int) : Nat → Nat → Decimal
  | 0, _ => ⟨0, 0⟩
  | fuel + 1, count =>
    let power := leading - count + 1
    match onGrid? d power with
    | some digits => normalize 20 ⟨digits, power⟩
    | none => search d leading fuel (count + 1)

/-- The shortest decimal that reads back as the magnitude of a finite double other than zero. -/
def shortest (d : Double) : Decimal :=
  let (num, den) := d.fraction
  search d (leadingPower num den) 18 1

/-- The exponent of the leading digit. -/
def scientificPower (d : Decimal) : Int := d.power + Double.decimalWidth d.digits - 1

end Decimal

end LintConfig
