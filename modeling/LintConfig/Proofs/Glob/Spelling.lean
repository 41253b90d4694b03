import LintConfig.Proofs.Glob.Basename

/-!
# Spellings of a pattern

A pattern can be written with `./` in front of it, with a separator after it, or with backslashes.
What is compiled of it is the same each time (`Pattern.body_of_mem_spellings`), unless the separator
makes a `./` of a single dot, and so all of them match the same paths (`Pattern.alike_of_body_eq`).
-/

namespace LintConfig

namespace Text

variable {cs ds : List Char}

/-- Trimming leaves a text alone just if neither its first character nor its last one is blank. -/
theorem trimChars_eq_self_iff_ends : trimChars cs = cs ↔
    (∀ c, cs.head? = some c → isBlank c = false) ∧
      ∀ c, cs.getLast? = some c → isBlank c = false := by
  rw [trimChars_eq_self_iff, List.dropWhile_eq_self_iff, List.rdropWhile_eq_self_iff]
  refine and_congr ?_ ?_
  · cases cs <;> simp
  · cases cs <;> simp [List.getLast?_eq_some_getLast]

theorem trimChars_append (h : trimChars cs = cs) (h' : trimChars ds = ds) :
    trimChars (cs ++ ds) = cs ++ ds := by
  rw [trimChars_eq_self_iff_ends] at h h' ⊢
  rw [List.head?_append, List.getLast?_append]
  refine ⟨fun c hc => ?_, fun c hc => ?_⟩
  · rcases Option.or_eq_some_iff.1 hc with hc | ⟨-, hc⟩
    · exact h.1 c hc
    · exact h'.1 c hc
  · rcases Option.or_eq_some_iff.1 hc with hc | ⟨-, hc⟩
    · exact h'.2 c hc
    · exact h.2 c hc

/-- Characters may be replaced where none becomes blank. -/
theorem trimChars_map {f : Char → Char} (hf : ∀ c, isBlank c = false → isBlank (f c) = false)
    (h : trimChars cs = cs) : trimChars (cs.map f) = cs.map f := by
  rw [trimChars_eq_self_iff_ends] at h ⊢
  constructor
  · intro d hd
    obtain ⟨c, hc, rfl⟩ := Option.map_eq_some_iff.1 (List.head?_map ▸ hd)
    exact hf c (h.1 c hc)
  · intro d hd
    obtain ⟨c, hc, rfl⟩ := Option.map_eq_some_iff.1 (List.getLast?_map ▸ hd)
    exact hf c (h.2 c hc)

end Text

namespace Pattern

variable {raw raw' : String}

/-- A path or a pattern with backslashes as separators. -/
def withBackslashes (s : String) : String :=
  String.ofList (s.toList.map fun c => if c = '/' then '\\' else c)

/-- A pattern as it is, with `./` in front, with a separator at the end, and with backslashes. -/
def spellings (raw : String) : List String :=
  [raw, "./" ++ raw, raw ++ "/", withBackslashes raw]

/-- Both texts compile or neither, and both match the same paths. -/
def Alike (raw raw' : String) : Prop :=
  ((∃ p, compile raw = .ok p) ↔ ∃ q, compile raw' = .ok q) ∧
    ∀ p q, compile raw = .ok p → compile raw' = .ok q → ∀ path, p.accepts path = q.accepts path

/-! ### What is compiled -/

theorem alike_of_body_eq (h : body raw = body raw') : Alike raw raw' := by
  unfold Alike compile
  rw [h]
  dsimp only
  split_ifs with hempty
  · simp
  · cases Glob.compile (body raw') with
    | error f => simp [Except.map]
    | ok tokens =>
      refine ⟨by simp [Except.map], ?_⟩
      rintro _ _ ⟨rfl⟩ ⟨rfl⟩ path
      rfl

theorem body_dot_slash (h : Text.trimChars raw.toList = raw.toList) :
    body ("./" ++ raw) = body raw := by
  have hchars : ("./" ++ raw).toList = ['.', '/'] ++ raw.toList := by
    rw [String.toList_append]
    rfl
  rw [body, hchars, Text.trimChars_append rfl h, body, h]
  rfl

theorem body_concat_slash (h : Text.trimChars raw.toList = raw.toList)
    (hdot : normalChars raw.toList ≠ ['.']) : body (raw ++ "/") = body raw := by
  have hchars : (raw ++ "/").toList = raw.toList ++ ['/'] := by
    rw [String.toList_append]
    rfl
  have hnormal : normalChars (raw.toList ++ ['/']) = normalChars raw.toList ++ ['/'] := by
    have hslashes : withSlashes (raw.toList ++ ['/']) = withSlashes raw.toList ++ ['/'] := by
      rw [withSlashes, List.map_append]
      rfl
    rw [normalChars, hslashes, dropDotSlash_concat_slash hdot, normalChars]
  rw [body, hchars, Text.trimChars_append h rfl, hnormal, body, h, Text.dropEndWhile_eq,
    List.rdropWhile_concat_pos _ _ _ rfl, Text.dropEndWhile_eq]

theorem body_withBackslashes (h : Text.trimChars raw.toList = raw.toList) :
    body (withBackslashes raw) = body raw := by
  have hblank : ∀ c, Text.isBlank c = false →
      Text.isBlank (if c = '/' then '\\' else c) = false := by
    intro c hc
    split_ifs
    · rfl
    · exact hc
  have hslashes : withSlashes (raw.toList.map fun c => if c = '/' then '\\' else c) =
      withSlashes raw.toList := by
    rw [withSlashes, List.map_map]
    refine List.map_congr_left fun c _ => ?_
    by_cases hc : c = '/' <;> simp [hc]
  rw [body, withBackslashes, String.toList_ofList, Text.trimChars_map hblank h, normalChars,
    hslashes, body, h, normalChars]

/-- However a pattern is spelled, the same is compiled of it. -/
theorem body_of_mem_spellings (htrim : Text.trim raw = raw) (hdot : normalizePath raw ≠ ".")
    {s : String} (hs : s ∈ spellings raw) : body s = body raw := by
  have htrim' : Text.trimChars raw.toList = raw.toList := by
    simpa [Text.trim] using congrArg String.toList htrim
  have hdot' : normalChars raw.toList ≠ ['.'] := fun heq =>
    hdot (by rw [normalizePath, heq])
  simp only [spellings, List.mem_cons, List.not_mem_nil, or_false] at hs
  rcases hs with rfl | rfl | rfl | rfl
  · rfl
  · exact body_dot_slash htrim'
  · exact body_concat_slash htrim' hdot'
  · exact body_withBackslashes htrim'

end Pattern

end LintConfig
