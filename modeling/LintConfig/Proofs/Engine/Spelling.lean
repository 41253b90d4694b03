import LintConfig.Proofs.Cache.Calls
import LintConfig.Proofs.Engine.Reachable
import LintConfig.Proofs.Files.Relative
import LintConfig.Proofs.Glob.NormalPath

/-!
# Two spellings of a file

A file below the root directory can be given by its path from there, or by that path joined to the
root directory.  Both are matched as one path, unless the path from there is a single dot or starts
with a separator that is left over by the `./` before it (`Engine.resolve_join`).  When the root
directory is cut off, all that does not count is skipped, but of a path that is matched as given
only `./` at its start is dropped.
-/

namespace LintConfig

namespace Path

variable {rel : String}

/-! ### Stripping and dropping -/

theorem stripped_dot_slash (cs : List Char) :
    stripped (String.ofList ('.' :: '/' :: cs)) = stripped (String.ofList cs) :=
  stripped_cons_of_idle (p := ".") rfl (by simp [pieces, piecesOf])

theorem stripped_slash (cs : List Char) :
    stripped (String.ofList ('/' :: cs)) = stripped (String.ofList cs) :=
  stripped_cons_of_idle (p := "") rfl (by simp [pieces, piecesOf])

theorem stripped_dropDotSlash (cs : List Char) :
    stripped (String.ofList (dropDotSlash cs)) = stripped (String.ofList cs) := by
  fun_induction dropDotSlash cs with
  | case1 cs ih => rw [ih, stripped_dot_slash]
  | case2 => rfl

/-- What is left of a path that leads to a file, without `./` at its start, leads to a file. -/
theorem ToFile.dropDotSlash (h : ToFile rel)
    (hslash : (dropDotSlash rel.toList).head? ≠ some '/') :
    ToFile (String.ofList (LintConfig.dropDotSlash rel.toList)) where
  relative := by simpa [isAbsolute] using hslash
  nonempty := by
    intro hnil
    have hnil' : LintConfig.dropDotSlash rel.toList = [] := by simpa using hnil
    obtain hall | hsuffix := dropDotSlash_cases rel.toList
    · exact h.nonempty (String.toList_eq_nil_iff.1 (hall.symm.trans hnil'))
    · exact h.not_slash (hnil' ▸ hsuffix)
  not_slash := by
    rw [String.toList_ofList]
    exact fun hsuffix => h.not_slash (hsuffix.trans (dropDotSlash_suffix _))
  not_slashDot := by
    rw [String.toList_ofList]
    exact fun hsuffix => h.not_slashDot (hsuffix.trans (dropDotSlash_suffix _))

theorem ToFile.dropDotSlash_ne (h : ToFile rel) (hdot : rel ≠ ".") :
    String.ofList (LintConfig.dropDotSlash rel.toList) ≠ "." := by
  intro heq
  have heq' : LintConfig.dropDotSlash rel.toList = ['.'] := by
    rw [← String.toList_ofList (l := LintConfig.dropDotSlash rel.toList), heq]
    rfl
  obtain hall | hsuffix := dropDotSlash_cases rel.toList
  · exact hdot (String.toList_inj.1 (hall.symm.trans heq'))
  · exact h.not_slashDot (heq' ▸ hsuffix)

/-- A path that leads to a file is the same path, stripped and as given, just if it is no single dot
and no separator is left over by the `./` at its start. -/
theorem normalizePath_stripped_iff (h : ToFile rel) :
    normalizePath (stripped rel) = normalizePath rel ↔
      rel ≠ "." ∧ (dropDotSlash rel.toList).head? ≠ some '/' := by
  have hrest : stripped rel = stripped (String.ofList (dropDotSlash rel.toList)) := by
    rw [stripped_dropDotSlash, String.ofList_toList]
  have hnormal : normalizePath rel = String.ofList (normalChars (dropDotSlash rel.toList)) := by
    rw [normalChars_dropDotSlash, normalizePath]
  constructor
  · refine fun heq => ⟨?_, fun hslash => ?_⟩
    · rintro rfl
      revert heq
      decide
    · -- the separator is stripped, and counts in the path as it is given
      obtain ⟨ds, hds⟩ := List.head?_eq_some_iff.1 hslash
      rw [hds, stripped_slash] at hrest
      rw [hnormal, hrest, hds, normalizePath, ← String.toList_inj, String.toList_ofList,
        String.toList_ofList] at heq
      have hshort := Nat.le_trans (length_normalChars_le _) (length_stripped_le (String.ofList ds))
      rw [heq, length_normalChars_slash, String.toList_ofList] at hshort
      omega
  · rintro ⟨hdot, hslash⟩
    have hself : stripped (String.ofList (dropDotSlash rel.toList)) =
        String.ofList (dropDotSlash rel.toList) :=
      stripped_eq_self (h.dropDotSlash hslash) (h.dropDotSlash_ne hdot)
        (by rw [String.toList_ofList]; exact not_prefix_dropDotSlash _)
    rw [hrest, hself, hnormal, normalizePath, String.toList_ofList]

end Path

namespace Engine

variable {e : Engine} {path path' root rel : String} {r : Resolved}

/-! ### Paths that are matched as one -/

theorem resolve_congr (h : e.matchPath path = e.matchPath path') :
    e.resolve path = e.resolve path' := by
  unfold resolve
  rw [h]

theorem isIgnored_congr (h : e.matchPath path = e.matchPath path') :
    e.isIgnored path = e.isIgnored path' := by
  unfold isIgnored
  rw [h]

/-- What a path resolved to is the answer for every path that is matched as it, from the one entry
of the cache. -/
theorem resolve_resolve (hsame : e.matchPath path = e.matchPath path')
    (hresolve : (e.resolve path).1 = .ok r) :
    let after := (e.resolve path).2
    (after.resolve path').1 = .ok r ∧
      (after.resolve path').2.cache.hits = after.cache.hits + 1 ∧
      (after.resolve path').2.cache.misses = after.cache.misses ∧
      (after.resolve path').2.cache.size ≤ after.cache.size := by
  cases hstate : e.state with
  | broken reason => simp [resolve, Engine.base, hstate] at hresolve
  | ready base =>
    intro after
    rw [resolve_eq_fetch hstate] at hresolve
    have hafter : after = { e with cache := (e.cache.fetch
        ⟨e.matchPath path, base.resolutionFingerprint⟩
        fun _ => e.compute base (e.matchPath path)).2 } :=
      congrArg Prod.snd (resolve_eq_fetch hstate path)
    have hfind :
        after.cache.find? ⟨after.matchPath path', base.resolutionFingerprint⟩ = some r := by
      have hmatch : after.matchPath path' = e.matchPath path := by
        rw [hafter, hsame]
        rfl
      rw [hmatch, hafter]
      exact Cache.find?_fetch hresolve
    have hready : after.state = .ready base := by rw [hafter, hstate]
    rw [resolve_eq_fetch hready, Cache.fetch_of_some hfind]
    exact ⟨rfl, rfl, rfl, Cache.size_touch_of_find? hfind r⟩

theorem matchPath_of_relative (h : Path.isAbsolute path = false) (e : Engine) :
    e.matchPath path = normalizePath path := by
  unfold matchPath
  cases e.options.rootDir <;> simp [h]

theorem matchPath_join (hroot : e.options.rootDir = some root)
    (habsolute : Path.isAbsolute root = true) (hrel : Path.isAbsolute rel = false) :
    e.matchPath (Path.join root rel) = normalizePath (Path.stripped rel) := by
  unfold matchPath
  rw [hroot]
  simp [Path.isAbsolute_join habsolute, Path.relativeTo?_join habsolute hrel]

end Engine

/-- A file below the root directory, by its path from there and by that path joined to the root
directory.  The two are matched as one path just if the path from there is no single dot and no
separator is left over by the `./` at its start.  Then they resolve alike and are ignored alike, and
what one of them resolved to is the answer for the other, from one entry of the cache. -/
theorem Engine.resolve_join (e : Engine) {root rel : String} (hroot : e.options.rootDir = some root)
    (habsolute : Path.isAbsolute root = true) (hrel : Path.ToFile rel) :
    (e.matchPath (Path.join root rel) = e.matchPath rel ↔
      rel ≠ "." ∧ (dropDotSlash rel.toList).head? ≠ some '/') ∧
    (rel ≠ "." → (dropDotSlash rel.toList).head? ≠ some '/' →
      e.resolve (Path.join root rel) = e.resolve rel ∧
      e.isIgnored (Path.join root rel) = e.isIgnored rel ∧
      ∀ path ∈ [Path.join root rel, rel], ∀ path' ∈ [Path.join root rel, rel], ∀ r,
        (e.resolve path).1 = .ok r →
          let after := (e.resolve path).2
          (after.resolve path').1 = .ok r ∧
            (after.resolve path').2.cache.hits = after.cache.hits + 1 ∧
            (after.resolve path').2.cache.misses = after.cache.misses ∧
            (after.resolve path').2.cache.size ≤ after.cache.size) := by
  have hjoin := matchPath_join hroot habsolute hrel.relative
  have hgiven := matchPath_of_relative hrel.relative e
  have hiff := Path.normalizePath_stripped_iff hrel
  rw [← hjoin, ← hgiven] at hiff
  refine ⟨hiff, fun hdot hslash => ?_⟩
  have hsame := hiff.2 ⟨hdot, hslash⟩
  refine ⟨resolve_congr hsame, isIgnored_congr hsame, fun path hpath path' hpath' r hresolve => ?_⟩
  have hspelling : ∀ p ∈ [Path.join root rel, rel], e.matchPath p = e.matchPath rel := by
    simp [hsame]
  exact resolve_resolve ((hspelling path hpath).trans (hspelling path' hpath').symm) hresolve

/-- A document in memory. -/
def plainLibrary : Library := ⟨[.memory "memory" [("app", { env := [("node", true)] })]], default⟩

/-- Paths are seen from a directory. -/
def projectOptions : EngineOptions := { rootDir := some "/work/project" }

theorem Engine.resolve_join_project :
    ∃ e r, start "app" plainLibrary {} projectOptions = .ok e ∧
      e.options.rootDir = some "/work/project" ∧ Path.isAbsolute "/work/project" = true ∧
      Path.ToFile "././src//a.ts" ∧ "././src//a.ts" ≠ "." ∧
      (dropDotSlash "././src//a.ts".toList).head? ≠ some '/' ∧
      e.matchPath "/work/project/././src//a.ts" = e.matchPath "././src//a.ts" ∧
      (e.resolve "././src//a.ts").1 = .ok r ∧
      ((e.resolve "././src//a.ts").2.resolve "/work/project/././src//a.ts").1 = .ok r := by
  obtain ⟨e, r, hstart, hroot, hresolve⟩ : ∃ e r,
      start "app" plainLibrary {} projectOptions = .ok e ∧
        e.options.rootDir = some "/work/project" ∧ (e.resolve "././src//a.ts").1 = .ok r :=
    ⟨_, _, rfl, rfl, rfl⟩
  have hfile : Path.ToFile "././src//a.ts" := by
    constructor <;> decide
  have hjoin : Path.join "/work/project" "././src//a.ts" = "/work/project/././src//a.ts" := by
    decide
  have hslash : (dropDotSlash "././src//a.ts".toList).head? ≠ some '/' := by decide
  obtain ⟨hmatch, hrest⟩ := resolve_join e hroot (by decide) hfile
  obtain ⟨-, -, hcached⟩ := hrest (by decide) hslash
  rw [hjoin] at hmatch hcached
  exact ⟨e, r, hstart, hroot, by decide, hfile, by decide, hslash, hmatch.2 ⟨by decide, hslash⟩,
    hresolve, (hcached _ (by simp) _ (by simp) r hresolve).1⟩

/-- A separator that is left over by the `./` before it counts in the path as it is given. -/
theorem Engine.matchPath_join_leftOver :
    ∃ e, start "app" plainLibrary {} projectOptions = .ok e ∧
      e.options.rootDir = some "/work/project" ∧ Path.ToFile ".//src/a.ts" ∧
      e.matchPath (Path.join "/work/project" ".//src/a.ts") = "src/a.ts" ∧
      e.matchPath ".//src/a.ts" = "/src/a.ts" ∧
      e.matchPath (Path.join "/work/project" ".//src/a.ts") ≠ e.matchPath ".//src/a.ts" := by
  refine ⟨_, rfl, rfl, ?_, by decide, by decide, by decide⟩
  constructor <;> decide

end LintConfig
