import LintConfig.Proofs.Engine.Spelling
import LintConfig.Proofs.Glob.Spelling

/-!
# Normal forms of paths and patterns

The normal form of a path is a projection that all spellings of a path or a pattern share
(`normalizePath_projects`): an engine without a root directory answers for a path from the entry of
its normal form, and a pattern matches alike however it is spelled.
-/

namespace LintConfig

namespace Engine

variable {e : Engine}

theorem matchPath_of_rootless (h : e.options.rootDir = none) (path : String) :
    e.matchPath path = normalizePath path := by
  unfold matchPath
  rw [h]

theorem matchPath_normalizePath (h : e.options.rootDir = none) (path : String) :
    e.matchPath (normalizePath path) = e.matchPath path := by
  rw [matchPath_of_rootless h, matchPath_of_rootless h, normalizePath_normalizePath]

end Engine

/-- Normalizing drops finitely many `./` from the start of a path with slashes, until there is none.
What is left has no backslash, and normalizing it again changes nothing.  An engine without a root
directory resolves a path and its normal form alike, from one entry of the cache.  Of the spellings
of a pattern without blanks around it all compile or none, unless its normal form is a single dot,
and all that compile match the same paths. -/
theorem normalizePath_projects :
    (∀ path, (∃ n, withSlashes path.toList =
        (List.replicate n ['.', '/']).flatten ++ (normalizePath path).toList) ∧
      ¬ ['.', '/'] <+: (normalizePath path).toList ∧ '\\' ∉ (normalizePath path).toList ∧
      normalizePath (normalizePath path) = normalizePath path) ∧
    (∀ e : Engine, e.options.rootDir = none → ∀ path,
      e.matchPath path = normalizePath path ∧
      e.matchPath (normalizePath path) = normalizePath path ∧
      e.resolve (normalizePath path) = e.resolve path ∧
      ∀ p ∈ [path, normalizePath path], ∀ p' ∈ [path, normalizePath path], ∀ r,
        (e.resolve p).1 = .ok r →
          ((e.resolve p).2.resolve p').1 = .ok r ∧
            ((e.resolve p).2.resolve p').2.cache.hits = (e.resolve p).2.cache.hits + 1 ∧
            ((e.resolve p).2.resolve p').2.cache.misses = (e.resolve p).2.cache.misses ∧
            ((e.resolve p).2.resolve p').2.cache.size ≤ (e.resolve p).2.cache.size) ∧
    ∀ raw, Text.trim raw = raw → normalizePath raw ≠ "." →
      ∀ s ∈ Pattern.spellings raw, ∀ s' ∈ Pattern.spellings raw, Pattern.Alike s s' := by
  refine ⟨fun path => ?_, fun e hroot path => ?_, fun raw htrim hdot s hs s' hs' => ?_⟩
  · rw [toList_normalizePath]
    exact ⟨exists_eq_replicate_append _, not_prefix_dropDotSlash _, backslash_notMem_normalChars _,
      normalizePath_normalizePath path⟩
  · have hsame := Engine.matchPath_normalizePath hroot path
    have hgiven := Engine.matchPath_of_rootless hroot path
    refine ⟨hgiven, hsame.trans hgiven, Engine.resolve_congr hsame,
      fun p hp p' hp' r hresolve => ?_⟩
    have hspelling : ∀ p ∈ [path, normalizePath path], e.matchPath p = e.matchPath path := by
      simp [hsame]
    exact Engine.resolve_resolve ((hspelling p hp).trans (hspelling p' hp').symm) hresolve
  · exact Pattern.alike_of_body_eq ((Pattern.body_of_mem_spellings htrim hdot hs).trans
      (Pattern.body_of_mem_spellings htrim hdot hs').symm)

/-- An engine without a root directory, and a pattern in two spellings. -/
theorem normalizePath_projects_mixed :
    (∃ e r, Engine.start "app" plainLibrary {} {} = .ok e ∧ e.options.rootDir = none ∧
      e.matchPath ".\\.//src\\a.ts" = "/src/a.ts" ∧
      (e.resolve ".\\.//src\\a.ts").1 = .ok r ∧
      ((e.resolve ".\\.//src\\a.ts").2.resolve "/src/a.ts").1 = .ok r) ∧
    Text.trim "./src/[a-c]*" = "./src/[a-c]*" ∧ normalizePath "./src/[a-c]*" ≠ "." ∧
    ".\\src\\[a-c]*" ∈ Pattern.spellings "./src/[a-c]*" ∧
    "././src/[a-c]*" ∈ Pattern.spellings "./src/[a-c]*" ∧
    Pattern.Alike ".\\src\\[a-c]*" "././src/[a-c]*" ∧
    ∃ p, Pattern.compile ".\\src\\[a-c]*" = .ok p ∧ p.accepts "src/b.ts".toList = true := by
  obtain ⟨-, hengine, hpattern⟩ := normalizePath_projects
  let tokens : List Glob.Token :=
    "src/".toList.map .literal ++ [.oneOf false [.range 'a' 'c'], .anyName]
  obtain ⟨e, r, hstart, hroot, hresolve⟩ : ∃ e r,
      Engine.start "app" plainLibrary {} {} = .ok e ∧ e.options.rootDir = none ∧
        (e.resolve ".\\.//src\\a.ts").1 = .ok r := ⟨_, _, rfl, rfl, rfl⟩
  have hnormal : normalizePath ".\\.//src\\a.ts" = "/src/a.ts" := by decide
  obtain ⟨hmatch, -, -, hcached⟩ := hengine e hroot ".\\.//src\\a.ts"
  rw [hnormal] at hmatch hcached
  have htrim : Text.trim "./src/[a-c]*" = "./src/[a-c]*" := by decide +kernel
  have hdot : normalizePath "./src/[a-c]*" ≠ "." := by decide +kernel
  have hback : ".\\src\\[a-c]*" ∈ Pattern.spellings "./src/[a-c]*" := by decide +kernel
  have hfront : "././src/[a-c]*" ∈ Pattern.spellings "./src/[a-c]*" := by decide +kernel
  exact ⟨⟨e, r, hstart, hroot, hmatch, hresolve,
    (hcached _ (by simp) _ (by simp) r hresolve).1⟩, htrim, hdot, hback, hfront,
    hpattern _ htrim hdot _ hback _ hfront, ⟨".\\src\\[a-c]*", tokens, false⟩, by decide +kernel,
    by decide +kernel⟩

end LintConfig
