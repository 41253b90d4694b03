import LintConfig.Base
import LintConfig.Proofs.Glob.PatternSet

/-!
# Strict and lenient sets of patterns

Lenient compiling divides a list of texts into those that compile and those that do not, both in
their order and as they are written.  Strict compiling gives the same set where nothing is set
aside, and otherwise it fails with the error of what lenient compiling set aside first
(`PatternSet.compile_iff_compileLenient`).
-/

namespace LintConfig

namespace Pattern

variable {raw : String} {p : Pattern} {m : MalformedPattern}

theorem source_of_compile (h : compile raw = .ok p) : p.source = raw := by
  unfold compile at h
  dsimp only at h
  split_ifs at h
  cases htokens : Glob.compile (body raw) with
  | error f => simp [htokens, Except.map] at h
  | ok tokens =>
    rw [htokens] at h
    obtain rfl := Except.ok.inj h
    rfl

theorem problem?_eq_some_iff :
    problem? raw = some m ↔ ∃ f, compile raw = .error f ∧ PatternSet.malformedOf raw f = m := by
  unfold problem?
  cases compile raw <;> simp

theorem map_source_compile (raw : String) : (compile raw).toOption.map source =
    Option.guard (fun raw => (compile raw).isOk) raw := by
  cases h : compile raw with
  | error f => simp [Except.toOption, Except.isOk, Except.toBool, Option.guard, h]
  | ok p => simp [Except.toOption, Except.isOk, Except.toBool, Option.guard, h, source_of_compile h]

theorem map_pattern_problem? (raw : String) : (problem? raw).map MalformedPattern.pattern =
    Option.guard (fun raw => !(compile raw).isOk) raw := by
  cases h : compile raw with
  | error f =>
    simp [problem?_of_error h, PatternSet.malformedOf, Except.isOk, Except.toBool, Option.guard, h]
  | ok p => simp [problem?_of_ok h, Except.isOk, Except.toBool, Option.guard, h]

end Pattern

namespace PatternSet

variable {raws : List String}

/-- The error of the pattern that was set aside first. -/
def malformedError? (s : PatternSet) : Option Error := s.malformed.head?.map fun m => m.error none

/-- Strict compiling fails with what lenient compiling sets aside first, and gives the same set if
nothing is set aside. -/
theorem compile_eq (raws : List String) : compile raws =
    (compileLenient raws).malformed.head?.elim (.ok (compileLenient raws)) .error := by
  induction raws with
  | nil => rfl
  | cons raw raws ih =>
    unfold compile compileLenient
    cases Pattern.compile raw with
    | error f => rfl
    | ok p =>
      dsimp only
      rw [ih]
      cases (compileLenient raws).malformed.head? <;> rfl

theorem compile_eq_ok_iff {s : PatternSet} :
    compile raws = .ok s ↔ (compileLenient raws).malformed = [] ∧ compileLenient raws = s := by
  rw [compile_eq]
  cases h : (compileLenient raws).malformed <;> simp

theorem mapError_compile_eq_error_iff {error : Error} :
    (compile raws).mapError (·.error none) = .error error ↔
      (compileLenient raws).malformedError? = some error := by
  rw [compile_eq, malformedError?]
  cases (compileLenient raws).malformed.head? <;> simp [Except.mapError]

/-! ### What is kept and what is set aside -/

theorem map_source_patterns : (compileLenient raws).patterns.map Pattern.source =
    raws.filter fun raw => (Pattern.compile raw).isOk := by
  rw [compileLenient_eq, List.map_filterMap, ← List.filterMap_eq_filter]
  exact List.filterMap_congr fun raw _ => Pattern.map_source_compile raw

theorem map_pattern_malformed : (compileLenient raws).malformed.map MalformedPattern.pattern =
    raws.filter fun raw => !(Pattern.compile raw).isOk := by
  rw [compileLenient_eq, List.map_filterMap, ← List.filterMap_eq_filter]
  exact List.filterMap_congr fun raw _ => Pattern.map_pattern_problem? raw

theorem compile_source {p : Pattern} (h : p ∈ (compileLenient raws).patterns) :
    Pattern.compile p.source = .ok p := by
  rw [compileLenient_eq, List.mem_filterMap] at h
  obtain ⟨raw, -, hp⟩ := h
  cases hcompile : Pattern.compile raw with
  | error f => simp [hcompile, Except.toOption] at hp
  | ok q =>
    obtain rfl : q = p := by simpa [hcompile, Except.toOption] using hp
    rw [Pattern.source_of_compile hcompile, hcompile]

theorem problem?_pattern {m : MalformedPattern} (h : m ∈ (compileLenient raws).malformed) :
    Pattern.problem? m.pattern = some m := by
  rw [compileLenient_eq, List.mem_filterMap] at h
  obtain ⟨raw, -, hm⟩ := h
  obtain ⟨f, -, rfl⟩ := Pattern.problem?_eq_some_iff.1 hm
  exact hm

/-- Lenient compiling divides texts into those that compile and those that do not, in their order
and as they are written, and what it keeps matches what any of the former matches.  Strict compiling
succeeds if nothing is set aside, with the same patterns in the same order, and otherwise fails with
the error of what is set aside first. -/
theorem compile_iff_compileLenient (raws : List String) :
    ((∃ t, compile raws = .ok t) ↔ (compileLenient raws).malformed = []) ∧
    (∀ t, compile raws = .ok t →
      t.patterns = (compileLenient raws).patterns ∧ t.malformed = [] ∧
      ∀ path, t.accepts path = (compileLenient raws).accepts path ∧
        t.covers path = (compileLenient raws).covers path) ∧
    (∀ error, (compile raws).mapError (·.error none) = .error error ↔
      (compileLenient raws).malformedError? = some error) ∧
    (compileLenient raws).patterns.map Pattern.source =
      raws.filter (fun raw => (Pattern.compile raw).isOk) ∧
    (compileLenient raws).malformed.map MalformedPattern.pattern =
      raws.filter (fun raw => !(Pattern.compile raw).isOk) ∧
    ((compileLenient raws).patterns.map Pattern.source ++
      (compileLenient raws).malformed.map MalformedPattern.pattern).Perm raws ∧
    (∀ p ∈ (compileLenient raws).patterns, Pattern.compile p.source = .ok p) ∧
    (∀ m ∈ (compileLenient raws).malformed, Pattern.problem? m.pattern = some m) ∧
    ∀ path, (compileLenient raws).accepts path = true ↔ Pattern.AnyAccepts raws path := by
  refine ⟨by simp [compile_eq_ok_iff], fun t ht => ?_, fun error => mapError_compile_eq_error_iff,
    map_source_patterns, map_pattern_malformed, ?_, fun p => compile_source,
    fun m => problem?_pattern, fun path => accepts_compileLenient_iff⟩
  · obtain ⟨hnone, rfl⟩ := compile_eq_ok_iff.1 ht
    exact ⟨rfl, hnone, fun path => ⟨rfl, rfl⟩⟩
  · rw [map_source_patterns, map_pattern_malformed]
    exact List.filter_append_perm _ raws

/-- Three patterns, of which the second one is malformed. -/
def bracketPatterns : List String := ["*.ts", "src/[a-z", " dist/ "]

/-- Without the malformed pattern, strict compiling succeeds. -/
theorem compile_iff_compileLenient_bracket :
    (∃ t, compile ["*.ts", " dist/ "] = .ok t ∧
      t.patterns = (compileLenient bracketPatterns).patterns) ∧
    (compile bracketPatterns).mapError (·.error none) =
      .error (.malformedPattern "src/[a-z" none "invalid range pattern") ∧
    (compileLenient bracketPatterns).patterns.map Pattern.source = ["*.ts", " dist/ "] ∧
    (compileLenient bracketPatterns).malformed.map MalformedPattern.pattern = ["src/[a-z"] ∧
    Pattern.compile " dist/ " = .ok ⟨" dist/ ", "dist".toList.map .literal, true⟩ ∧
    Pattern.problem? "src/[a-z" = some ⟨"src/[a-z", "invalid range pattern"⟩ ∧
    (compileLenient bracketPatterns).accepts "src/dist" = true := by
  obtain ⟨hok, hsame, -⟩ := compile_iff_compileLenient ["*.ts", " dist/ "]
  obtain ⟨-, -, herror, hsource, hpattern, -, hkept, haside, haccepts⟩ :=
    compile_iff_compileLenient bracketPatterns
  obtain ⟨t, ht⟩ := hok.2 (by decide +kernel)
  have hdist := hkept ⟨" dist/ ", "dist".toList.map .literal, true⟩ (by decide +kernel)
  refine ⟨⟨t, ht, (hsame t ht).1.trans (by decide +kernel)⟩, (herror _).2 (by decide +kernel),
    hsource.trans (by decide +kernel), hpattern.trans (by decide +kernel), hdist,
    haside ⟨"src/[a-z", "invalid range pattern"⟩ (by decide +kernel), ?_⟩
  exact (haccepts "src/dist").2 ⟨" dist/ ", by simp [bracketPatterns], _, hdist, by decide +kernel⟩

end PatternSet

end LintConfig
