import LintConfig.Proofs.Base.Locality
import LintConfig.Proofs.Engine.Validation
import LintConfig.Proofs.Glob.PatternSet
import LintConfig.Proofs.Layer.Alike

/-!
# Excluded paths

A well-formed pattern of `excludedFiles` keeps an override from every path that it matches, and the
path resolves as if the override were not there (`Engine.compute_of_excluded`).  Malformed
patterns are looked at before: where one of them makes the override fail a path that the override
could select, the path fails although it is excluded.
-/

namespace LintConfig

/-! ### Blocks and their overrides -/

namespace OverrideBlock

/-- The patterns of excluded paths. -/
def exclusions (b : OverrideBlock) : List String :=
  (b.excludedFiles.map OneOrMany.toList).getD []

/-- The block fails a path: one of its patterns is malformed, and the path is one that a well-formed
pattern of `files` matches, or `files` has only malformed ones. -/
def FailsOn (b : OverrideBlock) (path : String) : Prop :=
  (Pattern.AnyAccepts b.files.toList path ∧
    ∃ raw ∈ b.files.toList ++ b.exclusions, (Pattern.problem? raw).isSome) ∨
  (b.files.toList ≠ [] ∧ ∀ raw ∈ b.files.toList, (Pattern.problem? raw).isSome)

end OverrideBlock

namespace Override

variable {origin path : String} {n : Nat} {b : OverrideBlock}

theorem excluded_ofBlock (origin : String) (n : Nat) (b : OverrideBlock) :
    (ofBlock origin n b).excluded = .compileLenient b.exclusions := by
  unfold ofBlock OverrideBlock.exclusions
  cases b.excludedFiles <;> rfl

theorem problems_ofBlock_ne_nil_iff : (ofBlock origin n b).problems ≠ [] ↔
    ∃ raw ∈ b.files.toList ++ b.exclusions, (Pattern.problem? raw).isSome := by
  rw [ne_eq, problems_eq_nil_iff, excluded_ofBlock, not_and_or, ← ne_eq, ← ne_eq, ofBlock,
    PatternSet.malformed_compileLenient_ne_nil_iff, PatternSet.malformed_compileLenient_ne_nil_iff]
  simp only [List.mem_append, or_and_right, exists_or]

/-- An override fails the paths that its block fails. -/
theorem failsOn_ofBlock_iff : (ofBlock origin n b).FailsOn path ↔ b.FailsOn path := by
  unfold FailsOn OverrideBlock.FailsOn
  rw [problems_ofBlock_ne_nil_iff, ofBlock, PatternSet.accepts_compileLenient_iff,
    PatternSet.malformed_compileLenient_ne_nil_iff, PatternSet.isEmpty_compileLenient_iff]
  refine or_congr_right (and_congr_left fun hall => ⟨?_, fun hne => ?_⟩)
  · rintro ⟨raw, hraw, -⟩
    exact List.ne_nil_of_mem hraw
  · obtain ⟨raw, hraw⟩ := List.exists_mem_of_ne_nil _ hne
    exact ⟨raw, hraw, hall raw hraw⟩

instance : Decidable (b.FailsOn path) :=
  decidable_of_iff _ (@failsOn_ofBlock_iff "" path 0 b)

end Override

/-! ### Resolving without an override -/

namespace Engine

variable {e : Engine} {base : Base} {i : Nat} {o : Override} {path : String}

/-- A path to which an override does not apply resolves as if the override were not there. -/
theorem compute_without (ho : base.overrides[i]? = some o) (hnot : o.appliesTo path = .ok false) :
    (e.compute base path).map Resolved.withoutFingerprint =
      (e.compute (base.without i) path).map Resolved.withoutFingerprint := by
  unfold compute
  rw [Base.apply_without ho hnot]
  cases (base.without i).apply path with
  | error error => rfl
  | ok candidate =>
    simp only [Except.map, bind, Except.bind, Base.Candidate.shift]
    cases candidate.layer.resolveRules e.registry e.options.strictPlugins <;> rfl

/-- A path that an override fails does not resolve. -/
theorem exists_compute_eq_error {error : Error} (hmem : o ∈ base.overrides)
    (h : o.appliesTo path = .error error) : ∃ error', e.compute base path = .error error' := by
  obtain ⟨error', happly⟩ := Base.exists_apply_eq_error hmem h
  exact ⟨error', by rw [compute, happly]; rfl⟩

/-- An override never configures a path that one of its well-formed patterns of excluded paths
matches.  Unless its malformed patterns make it fail the path, it does not apply, and every base with
the override gives the path what the base without it gives; if they do, every base with the override
fails the path. -/
theorem compute_of_excluded {origin : String} {n : Nat} {b : OverrideBlock}
    (hexcluded : Pattern.AnyAccepts b.exclusions path) :
    (Override.ofBlock origin n b).appliesTo path ≠ .ok true ∧
    (¬ b.FailsOn path →
      (Override.ofBlock origin n b).appliesTo path = .ok false ∧
      ∀ (e : Engine) (base : Base) (i : Nat),
        base.overrides[i]? = some (.ofBlock origin n b) →
          (e.compute base path).map Resolved.withoutFingerprint =
            (e.compute (base.without i) path).map Resolved.withoutFingerprint) ∧
    (b.FailsOn path →
      ∃ error ∈ (Override.ofBlock origin n b).problems,
        (Override.ofBlock origin n b).appliesTo path = .error error ∧
        ∀ (e : Engine) (base : Base), .ofBlock origin n b ∈ base.overrides →
          ∃ error', e.compute base path = .error error') := by
  have hnot : (Override.ofBlock origin n b).appliesTo path ≠ .ok true := by
    rw [ne_eq, Override.appliesTo_eq_true_iff, Override.excluded_ofBlock,
      PatternSet.accepts_compileLenient_iff.2 hexcluded]
    simp
  rw [← @Override.failsOn_ofBlock_iff origin path n b, ← Override.exists_appliesTo_eq_error_iff]
  refine ⟨hnot, fun hok => ?_, fun ⟨error, herror⟩ => ?_⟩
  · have hfalse := (Override.appliesTo_of_ne_true hnot).resolve_left hok
    exact ⟨hfalse, fun e base i ho => compute_without ho hfalse⟩
  · exact ⟨error, Override.mem_problems_of_appliesTo herror, herror,
      fun e base hmem => exists_compute_eq_error hmem herror⟩

/-- Overlays that exclude what ends in `.d.ts`. -/
def declarationsExcluded (files excluded : List String) : OverrideBlock where
  files := .many files
  excludedFiles := some (.many ("*.d.ts" :: excluded))

theorem compute_of_excluded_declarations :
    (Pattern.AnyAccepts (declarationsExcluded ["*.ts"] []).exclusions "a.d.ts" ∧
      (Override.ofBlock "app" 0 (declarationsExcluded ["*.ts"] [])).appliesTo "a.d.ts" =
        .ok false) ∧
    (Pattern.AnyAccepts (declarationsExcluded ["*.ts"] ["[oops"]).exclusions "a.d.ts" ∧
      ∃ error ∈ (Override.ofBlock "app" 0 (declarationsExcluded ["*.ts"] ["[oops"])).problems,
        (Override.ofBlock "app" 0 (declarationsExcluded ["*.ts"] ["[oops"])).appliesTo "a.d.ts" =
          .error error) := by
  have hplain : Pattern.AnyAccepts (declarationsExcluded ["*.ts"] []).exclusions "a.d.ts" := by
    decide +kernel
  have hoops : Pattern.AnyAccepts (declarationsExcluded ["*.ts"] ["[oops"]).exclusions "a.d.ts" := by
    decide +kernel
  obtain ⟨-, hapart, -⟩ := @compute_of_excluded "a.d.ts" "app" 0 _ hplain
  obtain ⟨-, -, hfails⟩ := @compute_of_excluded "a.d.ts" "app" 0 _ hoops
  obtain ⟨error, hmem, herror, -⟩ := hfails (by decide +kernel)
  exact ⟨⟨hplain, (hapart (by decide +kernel)).1⟩, hoops, error, hmem, herror⟩

/-- A base with one override. -/
def baseOf (b : OverrideBlock) : Base := { (default : Base) with overrides := [.ofBlock "app" 0 b] }

/-- An override fails a path that one of its well-formed patterns excludes, and that resolves without
the override. -/
def FailsExcluded (b : OverrideBlock) (path : String) : Prop :=
  Pattern.AnyAccepts b.exclusions path ∧
  (∃ error, (Override.ofBlock "app" 0 b).appliesTo path = .error error) ∧
  ∀ e : Engine, (∃ error, e.compute (baseOf b) path = .error error) ∧
    ∃ r, e.compute ((baseOf b).without 0) path = .ok r

theorem failsExcluded_of_failsOn {b : OverrideBlock}
    (hexcluded : Pattern.AnyAccepts b.exclusions path) (h : b.FailsOn path) :
    FailsExcluded b path := by
  obtain ⟨error, herror⟩ := Override.exists_appliesTo_eq_error_iff.2
    (@Override.failsOn_ofBlock_iff "app" path 0 b |>.2 h)
  have hmem : Override.ofBlock "app" 0 b ∈ (baseOf b).overrides := List.mem_singleton_self _
  exact ⟨hexcluded, ⟨error, herror⟩, fun e => ⟨exists_compute_eq_error hmem herror, _, rfl⟩⟩

/-- It is enough that one pattern is malformed, in either list. -/
theorem failsExcluded_declarations :
    FailsExcluded (declarationsExcluded ["[oops"] []) "a.d.ts" ∧
    FailsExcluded (declarationsExcluded ["*.ts"] ["[oops"]) "a.d.ts" :=
  ⟨failsExcluded_of_failsOn (by decide +kernel) (by decide +kernel),
    failsExcluded_of_failsOn (by decide +kernel) (by decide +kernel)⟩

end Engine

end LintConfig
