import LintConfig.Glob.PatternSet
import LintConfig.Proofs.Glob.Level
import LintConfig.Proofs.Glob.NormalPath
import Mathlib.Data.List.DropRight

/-!
# Patterns without separators

A pattern without separators is matched against the last component of a path, and so is the same as
that pattern in any directory: both compile or neither, and both match the same paths
(`Pattern.slashless_iff_anyDepth`).
-/

namespace LintConfig

namespace Text

variable {α : Type} {p : α → Bool} {l cs ds : List Char} {s : String}

theorem dropEndWhile_eq (p : α → Bool) (l : List α) : dropEndWhile p l = l.rdropWhile p := rfl

/-- Trimming leaves a text alone just if it starts and ends with no blank character. -/
theorem trimChars_eq_self_iff :
    trimChars cs = cs ↔ cs.dropWhile isBlank = cs ∧ cs.rdropWhile isBlank = cs := by
  rw [trimChars, dropEndWhile_eq]
  constructor
  · intro h
    have hle : cs.length ≤ (cs.dropWhile isBlank).length := by
      conv_lhs => rw [← h]
      exact (List.rdropWhile_prefix _ _).length_le
    have hfront : cs.dropWhile isBlank = cs := (List.dropWhile_suffix _).eq_of_length_le hle
    exact ⟨hfront, by rwa [hfront] at h⟩
  · rintro ⟨hfront, hback⟩
    rw [hfront, hback]

theorem trimChars_cons {c : Char} (hc : isBlank c = false) (hne : cs ≠ [])
    (h : trimChars cs = cs) : trimChars (c :: cs) = c :: cs := by
  rw [trimChars_eq_self_iff, List.rdropWhile_eq_self_iff] at h ⊢
  refine ⟨by simp [hc], fun _ => ?_⟩
  rw [List.getLast_cons hne]
  exact h.2 hne

end Text

namespace Glob.Token

variable {ts : List Token} {cs : List Char}

/-- A pattern without separators compiles in any directory as it does alone, after `**`. -/
theorem compile_anyDepth (hcs : '/' ∉ cs) (hne : cs ≠ []) :
    compile ('*' :: '*' :: '/' :: cs) = (compile cs).map (.anyDepth :: ·) := by
  by_cases hdepth : cs = ['*', '*']
  · subst hdepth
    rfl
  have hnodepth : NoDepth (.between none) cs := fun _ _ _ => hdepth
  obtain ⟨r, hr⟩ := exists_reads hcs hnodepth
  calc compile ('*' :: '*' :: '/' :: cs)
    _ = read (.between '/') [.anyDepth] cs := by rw [compile, read.eq_def]; rfl
    _ = read (.between none) [.anyDepth] cs := read_between_congr rfl
    _ = (compile cs).map (.anyDepth :: ·) := by
      rw [compile, hr.read_eq, hr.read_eq]
      cases r <;> rfl

/-- A pattern without separators compiles to tokens within a component, unless it is `**`. -/
theorem compile_eq_ok (hcs : '/' ∉ cs) (hne : cs ≠ []) (h : compile cs = .ok ts) :
    ts = [.anyDepth] ∨ ts ≠ [] ∧ ∀ t ∈ ts, t.Level := by
  by_cases hdepth : cs = ['*', '*']
  · subst hdepth
    cases h
    exact .inl rfl
  have hnodepth : NoDepth (.between none) cs := fun _ _ _ => hdepth
  obtain ⟨r, hr⟩ := exists_reads hcs hnodepth
  rw [compile, hr.read_eq] at h
  cases r with
  | error => cases h
  | ok us =>
    cases h
    refine .inr ⟨?_, hr.level us rfl⟩
    rintro hnil
    obtain ⟨_, -, heq⟩ := hr.of_nil (congrArg Except.ok hnil)
    exact hne heq

end Glob.Token

namespace Pattern
open Glob

variable {cs ds : List Char} {ts : List Token}

theorem lastComponent_of_not_mem (h : '/' ∉ cs) : lastComponent cs = cs := by
  rw [lastComponent, List.takeWhile_eq_self_iff.2, List.reverse_reverse]
  intro c hc
  simpa using fun heq : c = '/' => h (heq ▸ List.mem_reverse.1 hc)

theorem lastComponent_of_suffix (hds : '/' ∉ ds) (h : '/' :: ds <:+ cs) :
    lastComponent cs = ds := by
  obtain ⟨es, rfl⟩ := h
  have hall : ∀ c ∈ ds.reverse, (c != '/') = true := by
    intro c hc
    simpa using fun heq : c = '/' => hds (heq ▸ List.mem_reverse.1 hc)
  rw [lastComponent, List.reverse_append, List.reverse_cons, List.append_assoc,
    List.takeWhile_append_of_pos hall]
  simp

theorem not_mem_lastComponent : '/' ∉ lastComponent cs := by
  intro h
  simpa using List.mem_takeWhile_imp (List.mem_reverse.1 h)

theorem eq_or_suffix_lastComponent (cs : List Char) :
    cs = lastComponent cs ∨ '/' :: lastComponent cs <:+ cs := by
  by_cases hmem : '/' ∈ cs
  · obtain ⟨as, bs, heq, has⟩ := List.eq_append_cons_of_mem (List.mem_reverse.2 hmem)
    have hsuffix : '/' :: as.reverse <:+ cs :=
      ⟨bs.reverse, by simpa using (congrArg List.reverse heq).symm⟩
    rw [lastComponent_of_suffix (by simpa using has) hsuffix]
    exact .inr hsuffix
  · exact .inl (lastComponent_of_not_mem hmem).symm

/-- Tokens within a component, tried in every component, match where they match the last one. -/
theorem accepts_anyDepth (h : ∀ t ∈ ts, t.Level) (hne : ts ≠ []) (cs : List Char) :
    Token.accepts (.anyDepth :: ts) cs = Token.accepts ts (lastComponent cs) := by
  have hiff : Token.run (.anyDepth :: ts) cs = .matched ↔
      Token.run ts (lastComponent cs) = .matched := by
    rw [Token.run, (Token.conclusive_run h).acrossComponents_eq_matched_iff]
    constructor
    · rintro (⟨-, hrun⟩ | ⟨ds, hds, hrun⟩ | hrun)
      · rwa [lastComponent_of_not_mem (Token.not_mem_of_run h hrun)]
      · rwa [lastComponent_of_suffix (Token.not_mem_of_run h hrun) hds]
      · exact Token.run_eq_matched_of_nil h hne hrun not_mem_lastComponent
    · intro hrun
      rcases eq_or_suffix_lastComponent cs with heq | hsuffix
      · exact .inl ⟨rfl, heq ▸ hrun⟩
      · exact .inr (.inl ⟨_, hsuffix, hrun⟩)
  rw [Token.accepts, Token.accepts, Bool.eq_iff_iff, beq_iff_eq, beq_iff_eq, hiff]


/-- `**` matches every path. -/
theorem run_anyDepth (cs : List Char) : Token.run [.anyDepth] cs = .matched := by
  have hconclusive : Conclusive (Token.run []) := Token.conclusive_run (by simp)
  rw [Token.run, hconclusive.acrossComponents_eq_matched_iff]
  exact .inr (.inr rfl)

theorem run_anyDepth_anyDepth (cs : List Char) : Token.run [.anyDepth, .anyDepth] cs = .matched := by
  rw [Token.run]
  cases cs with
  | nil => exact run_anyDepth []
  | cons c cs => rw [acrossComponents, run_anyDepth]

/-! ### Patterns as written -/

variable {raw : String}

/-- What is compiled of a pattern in normal form without separator at the end is the pattern. -/
theorem body_of_normal (htrim : Text.trimChars raw.toList = raw.toList) (hback : '\\' ∉ raw.toList)
    (hdot : ∀ ds, raw.toList ≠ '.' :: '/' :: ds)
    (hend : ∀ hne : raw.toList ≠ [], raw.toList.getLast hne ≠ '/') : body raw = raw.toList := by
  rw [body, htrim, normalChars, withSlashes_eq_self hback, dropDotSlash_of_ne hdot,
    Text.dropEndWhile_eq, List.rdropWhile_eq_self_iff]
  simpa using hend

theorem body_of_slashless (htrim : Text.trimChars raw.toList = raw.toList)
    (hback : '\\' ∉ raw.toList) (hslash : '/' ∉ raw.toList) : body raw = raw.toList := by
  refine body_of_normal htrim hback (fun ds heq => hslash (by simp [heq])) fun hne heq => ?_
  exact hslash (heq ▸ List.getLast_mem hne)

theorem body_anyDepth (htrim : Text.trimChars raw.toList = raw.toList)
    (hback : '\\' ∉ raw.toList) (hslash : '/' ∉ raw.toList) (hne : raw.toList ≠ []) :
    body ("**/" ++ raw) = '*' :: '*' :: '/' :: raw.toList := by
  have hchars : ("**/" ++ raw).toList = '*' :: '*' :: '/' :: raw.toList := by
    rw [String.toList_append]
    rfl
  rw [body_of_normal, hchars]
  · rw [hchars]
    refine Text.trimChars_cons rfl nofun (Text.trimChars_cons rfl nofun ?_)
    exact Text.trimChars_cons rfl hne htrim
  · simpa [hchars] using hback
  · simp [hchars]
  · intro _ heq
    simp only [hchars, List.getLast_cons, hne, ne_eq, reduceCtorEq, not_false_eq_true] at heq
    exact hslash (heq ▸ List.getLast_mem hne)

/-- A pattern without separators is the same as that pattern in any directory: both compile or
neither, and both match the same paths. -/
theorem slashless_iff_anyDepth (raw : String) (hne : raw ≠ "") (hslash : '/' ∉ raw.toList)
    (hback : '\\' ∉ raw.toList) (htrim : Text.trim raw = raw) :
    ((∃ p, compile raw = .ok p) ↔ ∃ q, compile ("**/" ++ raw) = .ok q) ∧
      ∀ p q, compile raw = .ok p → compile ("**/" ++ raw) = .ok q →
        ∀ path, p.accepts path = q.accepts path := by
  have hchars : raw.toList ≠ [] := by simpa using hne
  have htrim : Text.trimChars raw.toList = raw.toList := by
    simpa [Text.trim] using congrArg String.toList htrim
  have hraw : compile raw = (Glob.compile raw.toList).map fun ts => ⟨raw, ts, true⟩ := by
    simp [compile, body_of_slashless htrim hback hslash, hchars, hslash]
  have hany : compile ("**/" ++ raw) =
      (Glob.compile raw.toList).map fun ts => ⟨"**/" ++ raw, .anyDepth :: ts, false⟩ := by
    rw [compile, body_anyDepth htrim hback hslash hchars, Token.compile_anyDepth hslash hchars]
    cases Glob.compile raw.toList <;> simp [Except.map]
  rw [hraw, hany]
  cases hcompile : Glob.compile raw.toList with
  | error f => simp [Except.map]
  | ok ts =>
    refine ⟨by simp [Except.map], ?_⟩
    rintro _ _ ⟨rfl⟩ ⟨rfl⟩ path
    rcases Token.compile_eq_ok hslash hchars hcompile with rfl | ⟨hne, hlevel⟩
    · simp [accepts, Token.accepts, run_anyDepth, run_anyDepth_anyDepth]
    · simp [accepts, accepts_anyDepth hlevel hne]

/-- The pattern `*.test.ts` is that pattern in any directory. -/
theorem slashless_iff_anyDepth_star :
    "*.test.ts" ≠ "" ∧ '/' ∉ "*.test.ts".toList ∧ '\\' ∉ "*.test.ts".toList ∧
      Text.trim "*.test.ts" = "*.test.ts" ∧
      ∃ p q, compile "*.test.ts" = .ok p ∧ compile ("**/" ++ "*.test.ts") = .ok q ∧
        p.accepts "src/app/a.test.ts".toList = true ∧ q.accepts "src/app/a.test.ts".toList = true ∧
        p.accepts "src/a.test.ts/".toList = q.accepts "src/a.test.ts/".toList := by
  have hne : "*.test.ts" ≠ "" := by decide
  have hslash : '/' ∉ "*.test.ts".toList := by decide +kernel
  have hback : '\\' ∉ "*.test.ts".toList := by decide +kernel
  have htrim : Text.trim "*.test.ts" = "*.test.ts" := by decide +kernel
  obtain ⟨hiff, hsame⟩ := slashless_iff_anyDepth "*.test.ts" hne hslash hback htrim
  have hp : compile "*.test.ts" =
      .ok ⟨"*.test.ts", .anyName :: ".test.ts".toList.map .literal, true⟩ := by decide +kernel
  obtain ⟨q, hq⟩ := hiff.1 ⟨_, hp⟩
  have hdeep := hsame _ q hp hq "src/app/a.test.ts".toList
  have hclosed := hsame _ q hp hq "src/a.test.ts/".toList
  exact ⟨hne, hslash, hback, htrim, _, q, hp, hq, by decide +kernel, hdeep ▸ by decide +kernel,
    hclosed⟩

end Pattern

end LintConfig
