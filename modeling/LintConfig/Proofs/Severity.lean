import LintConfig.Proofs.Json.Canonical
import LintConfig.Severity
import Mathlib.Algebra.Order.Ring.Nat
import Mathlib.Tactic.IntervalCases

/-!
# Severities and canonical texts

The canonical text of a number does not show its kind, but it does show which severity the number
stands for, if it stands for one.
-/

namespace LintConfig

namespace Double

/-- A double that is one or two has one bit pattern. -/
theorem eq_of_pow {d : Double} {j : Nat} (hj : j ≤ 1) (hsign : d.isNegative = false)
    (h : d.mantissa * 2 ^ d.exponent.toNat = 2 ^ j * 2 ^ (-d.exponent).toNat) :
    d = ⟨UInt64.ofNat ((1023 + j) * 2 ^ 52)⟩ := by
  have hmagnitude : d.magnitude = d.bits.toNat := by
    simp only [isNegative, decide_eq_false_iff_not, not_le] at hsign
    exact Nat.mod_eq_of_lt hsign
  have hsplit : d.magnitude = 2 ^ 52 * d.exponentField + d.magnitude % 2 ^ 52 :=
    (Nat.div_add_mod _ _).symm
  have hlt : d.magnitude % 2 ^ 52 < 2 ^ 52 := Nat.mod_lt _ (by decide)
  have hpow : 2 ^ j ≤ 2 := by
    rcases Nat.le_one_iff_eq_zero_or_eq_one.1 hj with rfl | rfl <;> decide
  by_cases hfield : d.exponentField = 0
  · -- a subnormal double is far below one
    have hexponent : d.exponent = -1074 := by simp [exponent, hfield]
    have hmantissa : d.mantissa = d.magnitude % 2 ^ 52 := by simp [mantissa, hfield]
    have hpos : d.exponent.toNat = 0 := by omega
    have hneg : 52 ≤ j + (-d.exponent).toNat := by omega
    have hbig := Nat.pow_le_pow_right (show 0 < 2 by decide) hneg
    rw [hpos, hmantissa, pow_zero, mul_one, ← pow_add] at h
    omega
  · have hmantissa : d.mantissa = 2 ^ 52 + d.magnitude % 2 ^ 52 := by simp [mantissa, hfield]
    have hexponent : d.exponent = (d.exponentField : Int) - 1075 := by
      unfold exponent
      omega
    by_cases hlarge : 1075 ≤ d.exponentField
    · -- a whole mantissa or more is far above two
      have hneg : (-d.exponent).toNat = 0 := by omega
      have hle := Nat.le_mul_of_pos_right d.mantissa (Nat.two_pow_pos d.exponent.toNat)
      rw [h, hneg, pow_zero, mul_one] at hle
      omega
    · have hpos : d.exponent.toNat = 0 := by omega
      have hneg : (-d.exponent).toNat = 1075 - d.exponentField := by omega
      rw [hpos, hneg, pow_zero, mul_one, ← pow_add] at h
      have hlow : 2 ^ 52 ≤ 2 ^ (j + (1075 - d.exponentField)) := by omega
      have hhigh : 2 ^ (j + (1075 - d.exponentField)) < 2 ^ 53 := by omega
      rw [Nat.pow_le_pow_iff_right (by decide)] at hlow
      rw [Nat.pow_lt_pow_iff_right (by decide)] at hhigh
      have hexact : j + (1075 - d.exponentField) = 52 := by omega
      rw [hexact] at h
      have hbits : d.bits.toNat = (1023 + j) * 2 ^ 52 := by
        have hfield' : d.exponentField = 1023 + j := by omega
        rw [hfield'] at hsplit
        omega
      have hofNat : UInt64.ofNat d.bits.toNat = d.bits := UInt64.ofNat_toNat
      rw [hbits] at hofNat
      exact (congrArg Double.mk hofNat).symm

theorem of_toInt?_eq_some {d : Double} {k : Int} (h : d.toInt? = some k) :
    d.fraction.1 % d.fraction.2 = 0 ∧
      (if d.isNegative then -((d.fraction.1 / d.fraction.2 : Nat) : Int)
        else (d.fraction.1 / d.fraction.2 : Nat)) = k := by
  unfold toInt? at h
  dsimp only at h
  by_cases hfinite : d.isFinite = true
  · by_cases hmod : d.fraction.1 % d.fraction.2 = 0
    · rw [if_pos hfinite, if_pos hmod, Option.some.injEq] at h
      exact ⟨hmod, h⟩
    · rw [if_pos hfinite, if_neg hmod] at h
      cases h
  · rw [if_neg hfinite] at h
    cases h

theorem of_toInt?_eq_pos {d : Double} {k : Nat} (hk : 0 < k) (h : d.toInt? = some (k : Int)) :
    d.isNegative = false ∧ d.mantissa * 2 ^ d.exponent.toNat = k * 2 ^ (-d.exponent).toNat := by
  obtain ⟨hmod, hvalue⟩ := of_toInt?_eq_some h
  have hdiv := Nat.div_add_mod d.fraction.1 d.fraction.2
  generalize d.fraction.1 / d.fraction.2 = quotient at hvalue hdiv
  split_ifs at hvalue with hsign
  · omega
  · rw [Int.natCast_inj] at hvalue
    rw [hmod, hvalue, add_zero] at hdiv
    exact ⟨by simpa using hsign, hdiv.symm.trans (Nat.mul_comm _ _)⟩

/-- A double that is zero has no mantissa, whatever its sign. -/
theorem isZero_of_toInt?_eq_zero {d : Double} (h : d.toInt? = some 0) : d.isZero = true := by
  obtain ⟨hmod, hvalue⟩ := of_toInt?_eq_some h
  have hdiv := Nat.div_add_mod d.fraction.1 d.fraction.2
  generalize d.fraction.1 / d.fraction.2 = quotient at hvalue hdiv
  have hquotient : quotient = 0 := by
    split_ifs at hvalue <;> omega
  rw [hmod, hquotient, mul_zero, add_zero, eq_comm] at hdiv
  have hmantissa : d.mantissa = 0 :=
    (Nat.mul_eq_zero.1 hdiv).resolve_right (Nat.two_pow_pos _).ne'
  have hsplit : d.magnitude = 2 ^ 52 * d.exponentField + d.magnitude % 2 ^ 52 :=
    (Nat.div_add_mod _ _).symm
  unfold mantissa at hmantissa
  simp only [Nat.pow_eq] at hmantissa
  split_ifs at hmantissa with hfield
  · have hmagnitude : d.magnitude = 0 := by omega
    simp [isZero, hmagnitude]
  · omega

end Double

/-- The canonical text of a number that stands for a severity. -/
theorem Number.canonical_eq {n : Number} {k : Nat} (hk : k ≤ 2) (h : n.whole? = some (k : Int)) :
    n.canonical = Nat.toDigits 10 k := by
  cases n with
  | int n =>
    obtain rfl : n = (k : Int) := Option.some.inj h
    interval_cases k <;> decide +kernel
  | float d =>
    have hd : d.toInt? = some (k : Int) := h
    rcases Nat.eq_zero_or_pos k with rfl | hpos
    · simp [Number.canonical, Layout.chars, Layout.canonical, Double.isZero_of_toInt?_eq_zero hd]
    · obtain ⟨hsign, hvalue⟩ := Double.of_toInt?_eq_pos hpos hd
      obtain rfl | rfl : k = 1 ∨ k = 2 := by omega
      · rw [Double.eq_of_pow (j := 0) (by decide) hsign hvalue]
        decide +kernel
      · rw [Double.eq_of_pow (j := 1) (by decide) hsign hvalue]
        decide +kernel

namespace Severity

/-- The whole number of a severity. -/
theorem ofRaw?_code {n : Number} {v : Severity} (h : ofRaw? (.code n) = some v) :
    ∃ k : Nat, k ≤ 2 ∧ n.whole? = some (k : Int) ∧ [off, warn, error][k]? = some v := by
  simp only [ofRaw?] at h
  split at h
  case h_1 heq => exact ⟨0, by decide, heq, h⟩
  case h_2 heq => exact ⟨1, by decide, heq, h⟩
  case h_3 heq => exact ⟨2, by decide, heq, h⟩
  case h_4 => cases h

/-- Severities that are written alike are the same severity. -/
theorem eq_of_canonical_eq {s s' : RawSeverity} {v v' : Severity} (hv : ofRaw? s = some v)
    (hv' : ofRaw? s' = some v')
    (h : s.toJson.canonicalChars = s'.toJson.canonicalChars) : v = v' := by
  cases s with
  | word w =>
    cases s' with
    | word w' =>
      obtain rfl := Json.canonical_str_iff.1 h
      exact Option.some.inj (hv.symm.trans hv')
    | code n' => cases Json.kind_eq h
  | code n =>
    cases s' with
    | word w' => cases Json.kind_eq h
    | code n' =>
      obtain ⟨k, hk, hwhole, hv⟩ := ofRaw?_code hv
      obtain ⟨k', hk', hwhole', hv'⟩ := ofRaw?_code hv'
      have htext : Nat.toDigits 10 k = Nat.toDigits 10 k' := by
        rw [← Number.canonical_eq hk hwhole, ← Number.canonical_eq hk' hwhole']
        exact h
      have hsame : k = k' := by
        interval_cases k <;> interval_cases k' <;> first | rfl | exact absurd htext (by decide)
      rw [hsame] at hv
      exact Option.some.inj (hv.symm.trans hv')

end Severity

end LintConfig
