import LintConfig.Glob.PatternSet
import Mathlib.Data.List.Basic

/-!
# Paths in normal form

Normalizing turns backslashes into slashes, and then drops `./` from the start as often as it stands
there (`exists_eq_replicate_append`).  What is left has neither, so that normalizing it again
changes nothing (`normalizePath_normalizePath`).
-/

namespace LintConfig

variable {cs : List Char}

/-! ### Backslashes -/

theorem backslash_notMem_withSlashes (cs : List Char) : '\\' ∉ withSlashes cs := by
  intro h
  obtain ⟨c, -, hc⟩ := List.mem_map.1 h
  split_ifs at hc with hback
  · cases hc
  · exact hback hc

theorem withSlashes_eq_self (h : '\\' ∉ cs) : withSlashes cs = cs := by
  refine (List.map_congr_left fun c hc => ?_).trans (List.map_id cs)
  exact if_neg fun heq : c = '\\' => h (heq ▸ hc)

/-! ### Dropping `./` -/

/-- Something is dropped up to a separator, or nothing. -/
theorem dropDotSlash_cases (cs : List Char) :
    dropDotSlash cs = cs ∨ '/' :: dropDotSlash cs <:+ cs := by
  fun_induction dropDotSlash cs with
  | case1 cs ih =>
    refine .inr ?_
    obtain h | h := ih
    · rw [h]
      exact List.suffix_cons _ _
    · exact h.trans ((List.suffix_cons _ _).trans (List.suffix_cons _ _))
  | case2 => exact .inl rfl

theorem dropDotSlash_suffix (cs : List Char) : dropDotSlash cs <:+ cs := by
  obtain h | h := dropDotSlash_cases cs
  · exact ⟨[], h⟩
  · exact (List.suffix_cons _ _).trans h

theorem not_prefix_dropDotSlash (cs : List Char) : ¬ ['.', '/'] <+: dropDotSlash cs := by
  fun_induction dropDotSlash cs with
  | case1 _ ih => exact ih
  | case2 cs h =>
    rintro ⟨ds, rfl⟩
    exact h ds rfl

theorem normalChars_dropDotSlash (cs : List Char) :
    normalChars (dropDotSlash cs) = normalChars cs := by
  fun_induction dropDotSlash cs with
  | case1 _ ih => exact ih
  | case2 => rfl

theorem length_normalChars_le (cs : List Char) : (normalChars cs).length ≤ cs.length := by
  have hle := (dropDotSlash_suffix (withSlashes cs)).length_le
  rwa [withSlashes, List.length_map] at hle

/-- Nothing is dropped of a path that starts with a separator. -/
theorem length_normalChars_slash (cs : List Char) :
    (normalChars ('/' :: cs)).length = cs.length + 1 := by
  have hnone : dropDotSlash (withSlashes ('/' :: cs)) = withSlashes ('/' :: cs) := rfl
  rw [normalChars, hnone, withSlashes, List.length_map, List.length_cons]

theorem dropDotSlash_of_ne (h : ∀ ds, cs ≠ '.' :: '/' :: ds) : dropDotSlash cs = cs := by
  unfold dropDotSlash
  split
  next ds => exact absurd rfl (h ds)
  · rfl

/-- What is dropped is `./`, over and over. -/
theorem exists_eq_replicate_append (cs : List Char) :
    ∃ n, cs = (List.replicate n ['.', '/']).flatten ++ dropDotSlash cs := by
  fun_induction dropDotSlash cs with
  | case1 cs ih =>
    obtain ⟨n, hn⟩ := ih
    refine ⟨n + 1, ?_⟩
    rw [List.replicate_succ, List.flatten_cons, List.append_assoc, ← hn]
    rfl
  | case2 => exact ⟨0, rfl⟩

/-- A separator at the end stays there, unless it makes a `./` of a single dot. -/
theorem dropDotSlash_concat_slash (h : dropDotSlash cs ≠ ['.']) :
    dropDotSlash (cs ++ ['/']) = dropDotSlash cs ++ ['/'] := by
  fun_induction dropDotSlash cs with
  | case1 cs ih => exact ih h
  | case2 cs hne =>
    refine dropDotSlash_of_ne fun ds heq => ?_
    rcases cs with _ | ⟨c, _ | ⟨d, cs⟩⟩
    · cases heq
    · obtain ⟨rfl, -⟩ := List.cons.inj heq
      exact h rfl
    · obtain ⟨rfl, htail⟩ := List.cons.inj heq
      obtain ⟨rfl, -⟩ := List.cons.inj htail
      exact hne cs rfl

/-! ### Normal forms -/

theorem backslash_notMem_normalChars (cs : List Char) : '\\' ∉ normalChars cs := fun h =>
  backslash_notMem_withSlashes cs ((dropDotSlash_suffix _).mem h)

theorem normalChars_normalChars (cs : List Char) :
    normalChars (normalChars cs) = normalChars cs := by
  rw [normalChars, withSlashes_eq_self (backslash_notMem_normalChars cs)]
  exact dropDotSlash_of_ne fun ds heq =>
    not_prefix_dropDotSlash (withSlashes cs) ⟨ds, heq.symm⟩

theorem toList_normalizePath (path : String) :
    (normalizePath path).toList = normalChars path.toList := String.toList_ofList

theorem normalizePath_normalizePath (path : String) :
    normalizePath (normalizePath path) = normalizePath path := by
  rw [← String.toList_inj, toList_normalizePath, toList_normalizePath, normalChars_normalChars]

end LintConfig
