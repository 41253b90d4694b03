import LintConfig.Text.Units
import Mathlib.Data.List.Lex
import Mathlib.Order.Lattice
import Mathlib.Tactic.SplitIfs
import Mathlib.Tactic.Tauto

/-!
# The order of UTF-16 units is a linear order

Distinct texts have distinct units, since surrogates are no characters of their own; so sorting by
units leaves no two members in an order of their own.
-/

namespace LintConfig.Text

theorem unitsLe_iff (as bs : List Nat) : unitsLe as bs = true ↔ as ≤ bs := by
  induction as generalizing bs with
  | nil => cases bs <;> simp [unitsLe, le_iff_lt_or_eq]
  | cons a as ih =>
    cases bs with
    | nil => simp [unitsLe, le_iff_lt_or_eq]
    | cons b bs =>
      rw [le_iff_lt_or_eq, List.cons_lt_cons_iff, List.cons.injEq]
      simp only [unitsLe, Bool.or_eq_true, decide_eq_true_eq, Bool.and_eq_true, beq_iff_eq, ih,
        le_iff_lt_or_eq]
      tauto

/-- The first units of a text say which character it starts with. -/
theorem unitsOf_append_inj {c c' : Char} {r r' : List Nat}
    (h : unitsOf c ++ r = unitsOf c' ++ r') : c = c' ∧ r = r' := by
  have hc := c.valid
  have hc' := c'.valid
  have hlt : c.toNat < 0x110000 ∧ (c.toNat < 0xD800 ∨ 0xDFFF < c.toNat) := by
    simp only [UInt32.isValidChar, Nat.isValidChar] at hc
    unfold Char.toNat
    omega
  have hlt' : c'.toNat < 0x110000 ∧ (c'.toNat < 0xD800 ∨ 0xDFFF < c'.toNat) := by
    simp only [UInt32.isValidChar, Nat.isValidChar] at hc'
    unfold Char.toNat
    omega
  suffices hsame : c.toNat = c'.toNat ∧ r = r' from ⟨Char.toNat_inj.1 hsame.1, hsame.2⟩
  unfold unitsOf at h
  dsimp only at h
  split_ifs at h with hsmall hsmall' hsmall'
  all_goals simp only [List.cons_append, List.nil_append, List.cons.injEq] at h
  · exact h
  · omega
  · omega
  · exact ⟨by omega, h.2.2⟩

theorem units_injective : Function.Injective units := by
  intro s s' h
  suffices hchars : s.toList = s'.toList from String.toList_inj.1 hchars
  unfold units at h
  generalize s.toList = cs at h ⊢
  generalize s'.toList = cs' at h ⊢
  have hne (c : Char) : unitsOf c ≠ [] := by
    unfold unitsOf
    dsimp only
    split_ifs <;> simp
  induction cs generalizing cs' with
  | nil =>
    cases cs' with
    | nil => rfl
    | cons c' cs' =>
      rw [List.flatMap_nil, List.flatMap_cons, eq_comm, List.append_eq_nil_iff] at h
      exact absurd h.1 (hne c')
  | cons c cs ih =>
    cases cs' with
    | nil =>
      rw [List.flatMap_nil, List.flatMap_cons, List.append_eq_nil_iff] at h
      exact absurd h.1 (hne c)
    | cons c' cs' =>
      rw [List.flatMap_cons, List.flatMap_cons] at h
      obtain ⟨rfl, hrest⟩ := unitsOf_append_inj h
      rw [ih cs' hrest]

theorem leByUnits_iff (a b : String) : leByUnits a b = true ↔ units a ≤ units b :=
  unitsLe_iff (units a) (units b)

theorem leByUnits_refl (a : String) : leByUnits a a = true := (leByUnits_iff a a).2 le_rfl

theorem leByUnits_trans {a b c : String} (h : leByUnits a b = true) (h' : leByUnits b c = true) :
    leByUnits a c = true :=
  (leByUnits_iff a c).2 (((leByUnits_iff a b).1 h).trans ((leByUnits_iff b c).1 h'))

theorem leByUnits_total (a b : String) : leByUnits a b = true ∨ leByUnits b a = true := by
  rw [leByUnits_iff, leByUnits_iff]
  exact le_total (units a) (units b)

theorem leByUnits_antisymm {a b : String} (h : leByUnits a b = true) (h' : leByUnits b a = true) :
    a = b :=
  units_injective (((leByUnits_iff a b).1 h).antisymm ((leByUnits_iff b a).1 h'))

end LintConfig.Text
