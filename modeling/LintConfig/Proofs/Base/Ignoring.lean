import LintConfig.Proofs.Base.Diamond
import LintConfig.Proofs.Glob.PatternSet

/-!
# Ignored paths

A path is ignored if a pattern of some fragment matches it or a directory above it
(`Base.isIgnored_ofChain_iff`).  So whatever lies below an ignored path is ignored, the order of
fragments and patterns does not count, and more patterns ignore more paths
(`Base.isIgnored_ofChain`).
-/

namespace LintConfig

/-! ### Directories above a path -/

/-- A directory above a path: a beginning of the path that is not empty and ends right before a
separator. -/
def Above (dir path : List Char) : Prop := dir ≠ [] ∧ dir ++ ['/'] <+: path

theorem Above.append {dir path : List Char} (h : Above dir path) (rest : List Char) :
    Above dir (path ++ rest) :=
  ⟨h.1, h.2.trans (List.prefix_append path rest)⟩

theorem above_append_slash {path : List Char} (h : path ≠ []) (rest : List Char) :
    Above path (path ++ '/' :: rest) :=
  ⟨h, rest, by simp⟩

/-- A pattern matches a path in normal form or a directory above it. -/
def Pattern.Covers (p : Pattern) (path : List Char) : Prop :=
  p.accepts path = true ∨ ∃ dir, Above dir path ∧ p.accepts dir = true

/-- What covers a path covers all that lies below it. -/
theorem Pattern.Covers.below {p : Pattern} {path : List Char} (h : p.Covers path) (hne : path ≠ [])
    (rest : List Char) : p.Covers (path ++ '/' :: rest) := by
  rcases h with haccepts | ⟨dir, habove, haccepts⟩
  · exact .inr ⟨path, above_append_slash hne rest, haccepts⟩
  · exact .inr ⟨dir, habove.append _, haccepts⟩

namespace PatternSet

/-- The directories that are met after some characters of a path: a beginning of the rest is added
to those characters, which may be none of the rest if there are any. -/
theorem mem_ancestors_iff {before cs dir : List Char} : dir ∈ ancestors before cs ↔
    ∃ ds, dir = before.reverse ++ ds ∧ dir ≠ [] ∧ ds ++ ['/'] <+: cs := by
  induction cs generalizing before with
  | nil => simp [ancestors]
  | cons c cs ih =>
    -- either the path is cut right here, or after `c` and more
    have hsplit : (∃ ds, dir = before.reverse ++ ds ∧ dir ≠ [] ∧ ds ++ ['/'] <+: c :: cs) ↔
        (c = '/' ∧ before ≠ [] ∧ dir = before.reverse) ∨ dir ∈ ancestors (c :: before) cs := by
      rw [ih, List.reverse_cons]
      constructor
      · rintro ⟨ds, rfl, hne, hprefix⟩
        cases ds with
        | nil => exact .inl ⟨by simpa [eq_comm] using hprefix, by simpa using hne, by simp⟩
        | cons d ds =>
          obtain ⟨rfl, hrest⟩ := List.cons_prefix_cons.1 hprefix
          exact .inr ⟨ds, by simp, hne, hrest⟩
      · rintro (⟨rfl, hne, rfl⟩ | ⟨ds, rfl, hne, hprefix⟩)
        · exact ⟨[], by simp, by simpa using hne, by simp⟩
        · exact ⟨c :: ds, by simp, hne, List.cons_prefix_cons.2 ⟨rfl, hprefix⟩⟩
    rw [hsplit, ancestors]
    split_ifs with h
    · simp [h]
    · rw [or_iff_right]
      exact fun hhere => h ⟨hhere.1, hhere.2.1⟩

/-- A set covers what one of its patterns covers. -/
theorem covers_iff {s : PatternSet} {path : String} :
    s.covers path = true ↔ ∃ p ∈ s.patterns, p.Covers path.toList := by
  have habove (dir : List Char) : dir ∈ ancestors [] path.toList ↔ Above dir path.toList := by
    simp [mem_ancestors_iff, Above]
  simp only [covers, accepts, acceptsChars, Bool.or_eq_true, List.any_eq_true, habove]
  constructor
  · rintro (⟨dir, hdir, p, hp, haccepts⟩ | ⟨p, hp, haccepts⟩)
    · exact ⟨p, hp, .inr ⟨dir, hdir, haccepts⟩⟩
    · exact ⟨p, hp, .inl haccepts⟩
  · rintro ⟨p, hp, haccepts | ⟨dir, hdir, haccepts⟩⟩
    · exact .inr ⟨p, hp, haccepts⟩
    · exact .inl ⟨dir, hdir, p, hp, haccepts⟩

end PatternSet

/-! ### Ignored paths of a chain -/

/-- The patterns of ignored paths of all fragments, as written. -/
def Chain.ignoreTexts (c : Chain) : List String :=
  c.fragments.flatMap fun f => f.document.ignorePatterns

namespace Base

variable {deep deep' : Names} {c c' : Chain} {b b' : Base}

theorem ignorePatterns_eq_ok_iff {f : Fragment} {s : PatternSet} :
    f.ignorePatterns = .ok s ↔ PatternSet.compile f.document.ignorePatterns = .ok s := by
  unfold Fragment.ignorePatterns
  cases PatternSet.compile f.document.ignorePatterns <;> simp [Except.mapError]

/-- A chain is merged if all of its patterns of ignored paths compile. -/
theorem exists_ofChain_iff_compile : (∃ b, ofChain deep c = .ok b) ↔
    ∀ raw ∈ c.ignoreTexts, ∃ p, Pattern.compile raw = .ok p := by
  simp only [exists_ofChain_eq_ok_iff, ignorePatterns_eq_ok_iff,
    PatternSet.exists_compile_eq_ok_iff, Chain.ignoreTexts, List.mem_flatMap]
  exact ⟨fun h raw ⟨f, hf, hraw⟩ => h f hf raw hraw, fun h f hf raw hraw => h raw ⟨f, hf, hraw⟩⟩

theorem mem_ignorePatterns_ofChain (hb : ofChain deep c = .ok b) (p : Pattern) :
    p ∈ b.ignorePatterns.patterns ↔ ∃ raw ∈ c.ignoreTexts, Pattern.compile raw = .ok p := by
  have hcompiled := exists_ofChain_eq_ok_iff.1 ⟨b, hb⟩
  obtain ⟨s, hs, rfl⟩ := ofChain_eq_ok_iff.1 hb
  simp only [mem_ignorePatternsOf hs, Chain.ignoreTexts, List.mem_flatMap]
  constructor
  · rintro ⟨f, hf, t, ht, hp⟩
    obtain ⟨raw, hraw, hcompile⟩ :=
      (PatternSet.mem_patterns_of_compile (ignorePatterns_eq_ok_iff.1 ht)).1 hp
    exact ⟨raw, ⟨f, hf, hraw⟩, hcompile⟩
  · rintro ⟨raw, ⟨f, hf, hraw⟩, hcompile⟩
    obtain ⟨t, ht⟩ := hcompiled f hf
    exact ⟨f, hf, t, ht,
      (PatternSet.mem_patterns_of_compile (ignorePatterns_eq_ok_iff.1 ht)).2 ⟨raw, hraw, hcompile⟩⟩

/-- A path is ignored if a pattern of some fragment, compiled alone, matches it or a directory
above it. -/
theorem isIgnored_ofChain_iff (hb : ofChain deep c = .ok b) (path : String) :
    b.isIgnored path = true ↔
      ∃ raw ∈ c.ignoreTexts, ∃ p, Pattern.compile raw = .ok p ∧ p.Covers path.toList := by
  rw [isIgnored, PatternSet.covers_iff]
  simp only [mem_ignorePatterns_ofChain hb]
  constructor
  · rintro ⟨p, ⟨raw, hraw, hp⟩, hcovers⟩
    exact ⟨raw, hraw, p, hp, hcovers⟩
  · rintro ⟨raw, hraw, p, hp, hcovers⟩
    exact ⟨p, ⟨raw, hraw, hp⟩, hcovers⟩

/-- More patterns ignore more paths. -/
theorem isIgnored_mono (hb : ofChain deep c = .ok b) (hb' : ofChain deep' c' = .ok b')
    (h : c.ignoreTexts ⊆ c'.ignoreTexts) {path : String} (hpath : b.isIgnored path = true) :
    b'.isIgnored path = true := by
  obtain ⟨raw, hraw, hcovers⟩ := (isIgnored_ofChain_iff hb path).1 hpath
  exact (isIgnored_ofChain_iff hb' path).2 ⟨raw, h hraw, hcovers⟩

/-- What lies below an ignored path is ignored.  A path is ignored just if a pattern of some
fragment, compiled alone, matches it or a directory above it; so a chain with the same patterns, in
whatever order and however often, is merged as well and ignores the same paths, and a chain with
more patterns ignores all of these paths. -/
theorem isIgnored_ofChain (hb : ofChain deep c = .ok b) :
    (∀ path rest : String, path ≠ "" → b.isIgnored path = true →
      b.isIgnored (path ++ "/" ++ rest) = true) ∧
    (∀ path : String, b.isIgnored path = true ↔
      ∃ f ∈ c.fragments, ∃ raw ∈ f.document.ignorePatterns, ∃ p, Pattern.compile raw = .ok p ∧
        (p.accepts path.toList = true ∨
          ∃ dir, dir ≠ [] ∧ dir ++ ['/'] <+: path.toList ∧ p.accepts dir = true)) ∧
    (∀ deep' c', (∀ raw, raw ∈ c'.ignoreTexts ↔ raw ∈ c.ignoreTexts) →
      ∃ b', ofChain deep' c' = .ok b' ∧ ∀ path, b'.isIgnored path = b.isIgnored path) ∧
    ∀ deep' c' b', ofChain deep' c' = .ok b' → c.ignoreTexts ⊆ c'.ignoreTexts →
      ∀ path, b.isIgnored path = true → b'.isIgnored path = true := by
  refine ⟨fun path rest hne hpath => ?_, fun path => ?_, fun deep' c' hsame => ?_,
    fun deep' c' b' hb' hsubset path => isIgnored_mono hb hb' hsubset⟩
  · obtain ⟨raw, hraw, p, hp, hcovers⟩ := (isIgnored_ofChain_iff hb path).1 hpath
    have hchars : (path ++ "/" ++ rest).toList = path.toList ++ '/' :: rest.toList := by simp
    refine (isIgnored_ofChain_iff hb _).2 ⟨raw, hraw, p, hp, ?_⟩
    rw [hchars]
    exact hcovers.below (by simpa using hne) rest.toList
  · rw [isIgnored_ofChain_iff hb]
    simp only [Chain.ignoreTexts, List.mem_flatMap, Pattern.Covers, Above, and_assoc]
    exact ⟨fun ⟨raw, ⟨f, hf, hraw⟩, h⟩ => ⟨f, hf, raw, hraw, h⟩,
      fun ⟨f, hf, raw, hraw, h⟩ => ⟨raw, ⟨f, hf, hraw⟩, h⟩⟩
  · have hmerged := exists_ofChain_iff_compile.1 ⟨b, hb⟩
    obtain ⟨b', hb'⟩ : ∃ b', ofChain deep' c' = .ok b' :=
      exists_ofChain_iff_compile.2 fun raw hraw => hmerged raw ((hsame raw).1 hraw)
    refine ⟨b', hb', fun path => Bool.eq_iff_iff.2 ⟨?_, ?_⟩⟩
    · exact isIgnored_mono hb' hb fun raw => (hsame raw).1
    · exact isIgnored_mono hb hb' fun raw => (hsame raw).2

end Base

/-- A chain in which the base ignores packages wherever they stand, and `app` a directory at the
root and a kind of files. -/
def ignoringChain : Chain :=
  ⟨"app", [⟨"base", { ignorePatterns := ["node_modules/"] }⟩,
    ⟨"app", { ignorePatterns := ["/dist", "*.min.js"] }⟩]⟩

/-- What lies below ignored packages is ignored, and what lies in the directory is ignored by the
fragments in another order, each twice. -/
theorem Base.isIgnored_ofChain_packages : ∃ b, ofChain [] ignoringChain = .ok b ∧
    "lib/node_modules" ≠ "" ∧ b.isIgnored "lib/node_modules" = true ∧
    b.isIgnored ("lib/node_modules" ++ "/" ++ "/é/") = true ∧
    ∃ b', ofChain ["react"] ⟨"app", (ignoringChain.fragments ++ ignoringChain.fragments).reverse⟩ =
        .ok b' ∧ b'.isIgnored "/dist//a.ts" = true := by
  have hmodules : Pattern.compile "node_modules/" =
      .ok ⟨"node_modules/", "node_modules".toList.map .literal, true⟩ := by decide +kernel
  have hdist : Pattern.compile "/dist" = .ok ⟨"/dist", "/dist".toList.map .literal, false⟩ := by
    decide +kernel
  have hmin : Pattern.compile "*.min.js" =
      .ok ⟨"*.min.js", .anyName :: ".min.js".toList.map .literal, true⟩ := by decide +kernel
  have htexts : ignoringChain.ignoreTexts = ["node_modules/", "/dist", "*.min.js"] := rfl
  obtain ⟨b, hb⟩ : ∃ b, ofChain [] ignoringChain = .ok b := by
    rw [exists_ofChain_iff_compile, htexts]
    simp [hmodules, hdist, hmin]
  obtain ⟨hbelow, -, hsame, -⟩ := isIgnored_ofChain hb
  have hne : "lib/node_modules" ≠ "" := by decide
  have hlib : b.isIgnored "lib/node_modules" = true :=
    (isIgnored_ofChain_iff hb _).2 ⟨_, by simp [htexts], _, hmodules, .inl (by decide +kernel)⟩
  have habove : Above "/dist".toList "/dist//a.ts".toList := ⟨by decide +kernel, by decide +kernel⟩
  have hbuilt : b.isIgnored "/dist//a.ts" = true :=
    (isIgnored_ofChain_iff hb _).2
      ⟨_, by simp [htexts], _, hdist, .inr ⟨_, habove, by decide +kernel⟩⟩
  obtain ⟨b', hb', hagree⟩ := hsame ["react"]
    ⟨"app", (ignoringChain.fragments ++ ignoringChain.fragments).reverse⟩ fun raw => by
      simp [Chain.ignoreTexts]
  exact ⟨b, hb, hne, hlib, hbelow _ _ hne hlib, b', hb', (hagree _).trans hbuilt⟩

end LintConfig
