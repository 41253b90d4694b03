import LintConfig.Glob.PatternSet
import Mathlib.Data.List.Basic

/-!
# Compiling sets of patterns

Both ways of compiling a list of patterns are said of its elements one by one: strict compiling
fails with the first problem (`PatternSet.compile_eq_error_iff`), and lenient compiling keeps what
compiles and sets the problems aside (`PatternSet.compileLenient_eq`).
-/

namespace LintConfig

namespace Pattern

/-- Why a text does not compile as a pattern, if it does not. -/
def problem? (raw : String) : Option MalformedPattern :=
  match compile raw with
  | .error f => some (PatternSet.malformedOf raw f)
  | .ok _ => none

theorem problem?_of_error {raw : String} {f : Glob.Fault} (h : compile raw = .error f) :
    problem? raw = some (PatternSet.malformedOf raw f) := by
  rw [problem?, h]

theorem problem?_of_ok {raw : String} {p : Pattern} (h : compile raw = .ok p) :
    problem? raw = none := by
  rw [problem?, h]

/-- Some of the texts compiles to a pattern that matches a path in normal form. -/
def AnyAccepts (raws : List String) (path : String) : Prop :=
  ∃ raw ∈ raws, ∃ p, compile raw = .ok p ∧ p.accepts path.toList = true

end Pattern

namespace PatternSet

variable {raws : List String}

/-- Strict compiling fails with the first problem. -/
theorem compile_eq_error_iff {m : MalformedPattern} :
    compile raws = .error m ↔ raws.findSome? Pattern.problem? = some m := by
  induction raws with
  | nil => simp [compile]
  | cons raw raws ih =>
    cases h : Pattern.compile raw with
    | error f => simp [compile, h, Pattern.problem?_of_error h]
    | ok p =>
      rw [List.findSome?_cons_of_isNone (by simp [Pattern.problem?_of_ok h]), ← ih]
      cases hrest : compile raws <;> simp [compile, h, hrest, Except.map]

/-- Strict compiling succeeds if every text compiles. -/
theorem exists_compile_eq_ok_iff :
    (∃ s, compile raws = .ok s) ↔ ∀ raw ∈ raws, ∃ p, Pattern.compile raw = .ok p := by
  induction raws with
  | nil => simp [compile]
  | cons raw raws ih =>
    rw [List.forall_mem_cons, ← ih]
    cases h : Pattern.compile raw with
    | error f => simp [compile, h]
    | ok p => cases hrest : compile raws <;> simp [compile, h, hrest, Except.map]

theorem mem_patterns_of_compile {s : PatternSet} (h : compile raws = .ok s) {p : Pattern} :
    p ∈ s.patterns ↔ ∃ raw ∈ raws, Pattern.compile raw = .ok p := by
  induction raws generalizing s with
  | nil =>
    cases h
    simp [empty]
  | cons raw raws ih =>
    cases hp : Pattern.compile raw with
    | error f => simp [compile, hp] at h
    | ok q =>
      cases hrest : compile raws with
      | error m => simp [compile, hp, hrest, Except.map] at h
      | ok rest =>
        simp only [compile, hp, hrest, Except.map, Except.ok.injEq] at h
        subst h
        simp [ih hrest, hp, eq_comm]

/-- Lenient compiling keeps what compiles and sets the problems aside, both in order. -/
theorem compileLenient_eq (raws : List String) :
    compileLenient raws = ⟨raws.filterMap fun raw => (Pattern.compile raw).toOption,
      raws.filterMap Pattern.problem?⟩ := by
  induction raws with
  | nil => rfl
  | cons raw raws ih =>
    unfold compileLenient
    rw [ih]
    cases h : Pattern.compile raw with
    | error f => simp [h, Pattern.problem?_of_error h, Except.toOption]
    | ok p => simp [h, Pattern.problem?_of_ok h, Except.toOption]

theorem accepts_compileLenient_iff {path : String} :
    (compileLenient raws).accepts path = true ↔ Pattern.AnyAccepts raws path := by
  simp only [compileLenient_eq, accepts, acceptsChars, List.any_eq_true, List.mem_filterMap,
    Pattern.AnyAccepts]
  constructor
  · rintro ⟨p, ⟨raw, hraw, hp⟩, haccepts⟩
    cases h : Pattern.compile raw with
    | error f => simp [h, Except.toOption] at hp
    | ok q =>
      obtain rfl : q = p := by simpa [h, Except.toOption] using hp
      exact ⟨raw, hraw, q, h, haccepts⟩
  · rintro ⟨raw, hraw, p, hp, haccepts⟩
    exact ⟨p, ⟨raw, hraw, by simp [hp, Except.toOption]⟩, haccepts⟩

instance {path : String} : Decidable (Pattern.AnyAccepts raws path) :=
  decidable_of_iff _ accepts_compileLenient_iff

theorem malformed_compileLenient_ne_nil_iff :
    (compileLenient raws).malformed ≠ [] ↔ ∃ raw ∈ raws, (Pattern.problem? raw).isSome := by
  simp [compileLenient_eq, Option.isSome_iff_ne_none]

/-- A leniently compiled set is empty if none of its texts compiles. -/
theorem isEmpty_compileLenient_iff :
    (compileLenient raws).isEmpty = true ↔ ∀ raw ∈ raws, (Pattern.problem? raw).isSome := by
  rw [isEmpty, compileLenient_eq, List.isEmpty_iff, List.filterMap_eq_nil_iff]
  refine forall₂_congr fun raw _ => ?_
  cases h : Pattern.compile raw with
  | error f => simp [Pattern.problem?_of_error h, Except.toOption]
  | ok p => simp [Pattern.problem?_of_ok h, Except.toOption]

end PatternSet

end LintConfig
