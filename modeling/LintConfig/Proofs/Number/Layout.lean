import LintConfig.Number
import Mathlib.Tactic.SplitIfs

/-!
# The characters of numbers

Whatever its layout, a number is written with at least one character and with digits, signs, points
and exponent marks only, so its text ends where another character stands.
-/

namespace LintConfig

/-- Whether a character can be part of a number. -/
def isNumeral (c : Char) : Bool := c.isDigit || c = '-' || c = '+' || c = '.' || c = 'e'

namespace Layout

variable {layout : Layout} {c : Char}

theorem isNumeral_of_mem_toDigits {n : Nat} (h : c ∈ Nat.toDigits 10 n) : isNumeral c = true := by
  have hdigit := Nat.isDigit_of_mem_toDigits (by decide) (by decide) h
  simp [isNumeral, hdigit]

theorem isNumeral_of_mem_positional {d : Decimal} (h : c ∈ layout.positional d) :
    isNumeral c = true := by
  have hdigits (h : c ∈ Nat.toDigits 10 d.digits) := isNumeral_of_mem_toDigits h
  have hzero : isNumeral '0' = true := by decide
  have hpoint : isNumeral '.' = true := by decide
  unfold positional at h
  dsimp only at h
  split_ifs at h
  all_goals simp only [List.mem_append, List.mem_cons, List.not_mem_nil, or_false] at h
  · rcases h with (h | h) | rfl | rfl
    · exact hdigits h
    · exact List.eq_of_mem_replicate h ▸ hzero
    · exact hpoint
    · exact hzero
  · rcases h with h | h
    · exact hdigits h
    · exact List.eq_of_mem_replicate h ▸ hzero
  · rcases h with h | rfl | h
    · exact hdigits (List.mem_of_mem_take h)
    · exact hpoint
    · exact hdigits (List.mem_of_mem_drop h)
  · rcases h with rfl | rfl | h | h
    · exact hzero
    · exact hpoint
    · exact List.eq_of_mem_replicate h ▸ hzero
    · exact hdigits h

theorem isNumeral_of_mem_scientific {d : Decimal} (h : c ∈ scientific d) : isNumeral c = true := by
  have hexponent (h : c ∈ (if d.scientificPower < 0 then '-' else '+') ::
      Nat.toDigits 10 d.scientificPower.natAbs) : isNumeral c = true := by
    rcases List.mem_cons.1 h with rfl | h
    · split_ifs <;> decide
    · exact isNumeral_of_mem_toDigits h
  have hmark : isNumeral 'e' = true := by decide
  have hpoint : isNumeral '.' = true := by decide
  unfold scientific at h
  dsimp only at h
  cases hdigits : Nat.toDigits 10 d.digits with
  | nil => exact absurd hdigits Nat.toDigits_ne_nil
  | cons x xs =>
    have hdigit (h : c ∈ x :: xs) : isNumeral c = true := isNumeral_of_mem_toDigits (hdigits ▸ h)
    rw [hdigits] at h
    cases xs with
    | nil =>
      rcases List.mem_cons.1 h with rfl | h
      · exact hdigit (by simp)
      · rcases List.mem_cons.1 h with rfl | h
        · exact hmark
        · exact hexponent h
    | cons y ys =>
      rcases List.mem_cons.1 h with rfl | h
      · exact hdigit (by simp)
      · rcases List.mem_cons.1 h with rfl | h
        · exact hpoint
        · rcases List.mem_append.1 h with h | h
          · exact hdigit (List.mem_cons_of_mem x h)
          · rcases List.mem_cons.1 h with rfl | h
            · exact hmark
            · exact hexponent h

theorem isNumeral_of_mem_chars {d : Double} (h : c ∈ layout.chars d) : isNumeral c = true := by
  have hzero : isNumeral '0' = true := by decide
  have hminus : isNumeral '-' = true := by decide
  have hpoint : isNumeral '.' = true := by decide
  unfold chars at h
  dsimp only at h
  split_ifs at h
  all_goals simp only [List.mem_append, List.mem_cons, List.not_mem_nil, or_false, false_or] at h
  · rcases h with rfl | rfl | rfl | rfl <;> assumption
  · rcases h with rfl | rfl <;> assumption
  · rcases h with rfl | rfl | rfl <;> assumption
  · exact h ▸ hzero
  · rcases h with rfl | h
    · exact hminus
    · exact isNumeral_of_mem_positional h
  · rcases h with rfl | h
    · exact hminus
    · exact isNumeral_of_mem_scientific h
  · exact isNumeral_of_mem_positional h
  · exact isNumeral_of_mem_scientific h

theorem positional_ne_nil (layout : Layout) (d : Decimal) : layout.positional d ≠ [] := by
  have hdigits : Nat.toDigits 10 d.digits ≠ [] := Nat.toDigits_ne_nil
  unfold positional
  dsimp only
  split_ifs <;> simp [hdigits]

theorem scientific_ne_nil (d : Decimal) : scientific d ≠ [] := by
  unfold scientific
  dsimp only
  cases hdigits : Nat.toDigits 10 d.digits with
  | nil => exact absurd hdigits Nat.toDigits_ne_nil
  | cons x xs => cases xs <;> simp

theorem chars_ne_nil (layout : Layout) (d : Double) : layout.chars d ≠ [] := by
  unfold chars
  dsimp only
  split_ifs <;> simp [positional_ne_nil, scientific_ne_nil]

end Layout

namespace Number

theorem isNumeral_of_mem_canonical {n : Number} {c : Char} (h : c ∈ n.canonical) :
    isNumeral c = true := by
  cases n with
  | int n => exact Layout.isNumeral_of_mem_chars h
  | float d => exact Layout.isNumeral_of_mem_chars h

theorem canonical_ne_nil (n : Number) : n.canonical ≠ [] := by
  cases n with
  | int n => exact Layout.chars_ne_nil _ _
  | float d => exact Layout.chars_ne_nil _ _

end Number

end LintConfig
