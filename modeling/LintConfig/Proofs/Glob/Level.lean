import LintConfig.Glob.Pattern
import Mathlib.Data.List.Basic

/-!
# Patterns within a component

A pattern without separators compiles to tokens that stay within a component, unless it is `**`
alone.  What is read of it does not depend on what was read before (`Token.exists_reads`).  Such
tokens match no separator (`Token.not_mem_of_run`), and where an attempt with them ends at the end
of the path, no later attempt matches (`Token.conclusive_run`).  So trying them at every component
misses no match, although it gives up there (`Conclusive.acrossComponents_eq_matched_iff`).
-/

namespace LintConfig.Glob

/-- A token that stays within a component. -/
def Token.Level (t : Token) : Prop := t ≠ .anyDepth ∧ t ≠ .literal '/'

/-! ### Compiling -/

namespace Token

variable {pl : Place} {last : Option Char} {ts us : List Token} {cs : List Char} {c : Char}

theorem read_question :
    read (.between last) ts ('?' :: cs) = read (.between '?') (.anyOne :: ts) cs := by
  rw [read.eq_def]
  rfl

theorem read_bracket : read (.between last) ts ('[' :: cs) = read .opened ts cs := by
  rw [read.eq_def]
  rfl

theorem read_star (h : cs.head? ≠ some '*') :
    read (.between last) ts ('*' :: cs) = read (.between '*') (.anyName :: ts) cs := by
  rw [read.eq_def]
  cases cs with
  | nil => rfl
  | cons c cs => simp [show c ≠ '*' by simpa using h]

theorem read_partial (h₁ : c ≠ '*') (h₂ : c ≠ '/') :
    read (.between last) ts ('*' :: '*' :: c :: cs) = .error .partialComponent := by
  rw [read.eq_def]
  simp [h₁, h₂]

theorem read_literal (h₁ : c ≠ '?') (h₂ : c ≠ '[') (h₃ : c ≠ '*') :
    read (.between last) ts (c :: cs) = read (.between c) (.literal c :: ts) cs := by
  rw [read.eq_def]
  simp only [h₁, h₂, h₃, if_false]

/-- Of the character before only matters whether `**` may follow it. -/
theorem read_between_congr {last' : Option Char}
    (h : startsComponent last = startsComponent last') :
    read (.between last) ts cs = read (.between last') ts cs := by
  cases cs with
  | nil => rfl
  | cons c cs =>
    rw [read.eq_def, read.eq_def (.between last')]
    simp only [h]

/-- Reading from a place adds `r` to the tokens before, whatever those are, and what it adds stays
within a component. -/
structure Reads (pl : Place) (cs : List Char) (r : Except Fault (List Token)) : Prop where
  read_eq : ∀ ts, read pl ts cs = r.map (ts.reverse ++ ·)
  level : ∀ us, r = .ok us → ∀ t ∈ us, t.Level
  of_nil : r = .ok [] → ∃ last, pl = .between last ∧ cs = []

namespace Reads
variable {pl' : Place} {r : Except Fault (List Token)} {t : Token} {cs' : List Char} {f : Fault}

theorem fault (h : ∀ ts, read pl ts cs = .error f) : Reads pl cs (.error f) :=
  ⟨h, fun _ => nofun, nofun⟩

theorem done : Reads (.between last) [] (.ok []) :=
  ⟨fun ts => by simp [read, Except.map], by simp, fun _ => ⟨last, rfl, rfl⟩⟩

/-- A token that is read stands before what is read after it. -/
theorem token (h : Reads pl' cs' r) (ht : t.Level)
    (hread : ∀ ts, read pl ts cs = read pl' (t :: ts) cs') : Reads pl cs (r.map (t :: ·)) where
  read_eq ts := by
    rw [hread, h.read_eq]
    cases r <;> simp [Except.map]
  level us hus := by
    cases r with
    | error => cases hus
    | ok vs =>
      obtain rfl : t :: vs = us := by simpa [Except.map] using hus
      exact List.forall_mem_cons.2 ⟨ht, h.level vs rfl⟩
  of_nil hnil := by cases r <;> simp [Except.map] at hnil

/-- Within the brackets of a class, no token is added. -/
theorem inside (h : Reads pl' cs' r) (hpl : ∀ last, pl' ≠ .between last)
    (hread : ∀ ts, read pl ts cs = read pl' ts cs') : Reads pl cs r where
  read_eq ts := (hread ts).trans (h.read_eq ts)
  level := h.level
  of_nil hnil := by
    obtain ⟨last, hlast, -⟩ := h.of_nil hnil
    exact absurd hlast (hpl last)

end Reads

/-- No token for `**` is read next: it may not stand here, or something else follows. -/
def NoDepth (pl : Place) (cs : List Char) : Prop :=
  ∀ last, pl = .between last → startsComponent last = true → cs ≠ ['*', '*']

theorem noDepth_after {ds : List Char} (hc : c ≠ '/') : NoDepth (.between c) ds := by
  rintro _ ⟨rfl⟩ h
  exact absurd (by simpa [startsComponent] using h) hc

/-- Two stars do not compile here, whatever follows. -/
theorem exists_reads_stars {ds : List Char} (hds : '/' ∉ ds)
    (hdepth : NoDepth (.between last) ('*' :: '*' :: ds)) :
    ∃ r, Reads (.between last) ('*' :: '*' :: ds) r := by
  cases ds with
  | nil =>
    have hlast : startsComponent last ≠ true := fun h => hdepth last rfl h rfl
    refine ⟨.error .partialComponent, .fault fun ts => ?_⟩
    rw [read.eq_def]
    simp [hlast]
  | cons d ds =>
    rcases eq_or_ne d '*' with rfl | hd
    · exact ⟨_, .fault fun ts => by rw [read.eq_def]; rfl⟩
    · exact ⟨_, .fault fun ts => read_partial hd (List.ne_of_not_mem_cons hds).symm⟩

/-- Without separators, what is read stays within a component, but for `**` alone in one. -/
theorem exists_reads (hcs : '/' ∉ cs) (hdepth : NoDepth pl cs) : ∃ r, Reads pl cs r := by
  induction cs generalizing pl with
  | nil =>
    cases pl with
    | between last => exact ⟨_, .done⟩
    | opened => exact ⟨.error .openClass, .fault fun ts => by simp [read]⟩
    | inClass negated chars => exact ⟨.error .openClass, .fault fun ts => by simp [read]⟩
  | cons c cs ih =>
    have hc : c ≠ '/' := (List.ne_of_not_mem_cons hcs).symm
    have hread (pl : Place) (h : NoDepth pl cs) : ∃ r, Reads pl cs r :=
      ih (List.not_mem_of_not_mem_cons hcs) h
    cases pl with
    | between last =>
      obtain ⟨r, hr⟩ := hread _ (noDepth_after hc)
      rcases eq_or_ne c '?' with rfl | hquestion
      · exact ⟨_, hr.token (by simp [Level]) fun ts => read_question⟩
      rcases eq_or_ne c '[' with rfl | hbracket
      · obtain ⟨r, hr⟩ := hread .opened nofun
        exact ⟨r, hr.inside nofun fun ts => read_bracket⟩
      rcases eq_or_ne c '*' with rfl | hstar
      · by_cases hstars : cs.head? = some '*'
        · obtain ⟨ds, rfl⟩ := List.head?_eq_some_iff.1 hstars
          exact exists_reads_stars (by simpa using hcs) hdepth
        · exact ⟨_, hr.token (by simp [Level]) fun ts => read_star hstars⟩
      · exact ⟨_, hr.token (t := .literal c) (by simp [Level, hc])
          fun ts => read_literal hquestion hbracket hstar⟩
    | opened =>
      obtain ⟨r, hr⟩ := hread (.inClass (c = '!') (if c = '!' then [] else [c])) nofun
      refine ⟨r, hr.inside nofun fun ts => ?_⟩
      by_cases hbang : c = '!' <;> simp [read, hbang]
    | inClass negated chars =>
      by_cases hend : c = ']' ∧ chars ≠ []
      · obtain ⟨r, hr⟩ := hread (.between ']') (noDepth_after (by decide))
        refine ⟨_, hr.token (t := .oneOf negated (membersOf chars.reverse)) (by simp [Level])
          fun ts => ?_⟩
        rw [read.eq_def]
        simp only [if_pos hend]
      · obtain ⟨r, hr⟩ := hread (.inClass negated (c :: chars)) nofun
        refine ⟨r, hr.inside nofun fun ts => ?_⟩
        rw [read.eq_def]
        simp only [if_neg hend]

end Token

/-! ### Matching -/

/-- Where an attempt ends at the end of the path, no later attempt matches. -/
def Conclusive (rest : List Char → Verdict) : Prop :=
  ∀ cs, rest cs = .exhausted → ∀ ds, ds <:+ cs → rest ds ≠ .matched

variable {rest : List Char → Verdict} {cs ds : List Char}

theorem exists_suffix_of_withinComponent (h : withinComponent rest cs = .matched) :
    ∃ ds, ds <:+ cs ∧ rest ds = .matched := by
  fun_induction withinComponent rest cs with
  | case1 => exact ⟨[], List.suffix_rfl, h⟩
  | case2 => cases h
  | case3 c cs _ _ ih =>
    obtain ⟨ds, hds, hmatched⟩ := ih h
    exact ⟨ds, hds.trans (List.suffix_cons c cs), hmatched⟩
  | case4 c cs => exact ⟨c :: cs, List.suffix_rfl, h⟩

theorem not_mem_of_withinComponent (hrest : ∀ ds, rest ds = .matched → '/' ∉ ds)
    (h : withinComponent rest cs = .matched) : '/' ∉ cs := by
  fun_induction withinComponent rest cs with
  | case1 => exact hrest _ h
  | case2 => cases h
  | case3 c cs _ hc ih => exact List.not_mem_cons_of_ne_of_not_mem (Ne.symm hc) (ih h)
  | case4 => exact hrest _ h

namespace Conclusive

theorem withinComponent_eq_matched (h : Conclusive rest) (hnil : rest [] = .matched)
    (hcs : '/' ∉ cs) : withinComponent rest cs = .matched := by
  fun_induction withinComponent rest cs with
  | case1 => exact hnil
  | case2 => exact absurd List.mem_cons_self hcs
  | case3 c cs _ _ ih => exact ih (List.not_mem_of_not_mem_cons hcs)
  | case4 c cs hrest =>
    cases hverdict : rest (c :: cs) with
    | matched => rfl
    | mismatch => exact absurd hverdict hrest
    | exhausted => exact absurd hnil (h _ hverdict [] List.nil_suffix)

theorem withinComponent (h : Conclusive rest) : Conclusive (withinComponent rest) := by
  -- The attempts before the one that ends were mismatches, and those after it fail with it.
  have hnone (cs : List Char) (hcs : Glob.withinComponent rest cs = .exhausted) :
      ∀ ds, ds <:+ cs → rest ds ≠ .matched := by
    fun_induction Glob.withinComponent rest cs with
    | case1 => exact h _ hcs
    | case2 => cases hcs
    | case3 c cs hmismatch _ ih =>
      intro ds hds
      rcases List.suffix_cons_iff.1 hds with rfl | hds
      · simp [hmismatch]
      · exact ih hcs ds hds
    | case4 => exact h _ hcs
  intro cs hcs ds hds hmatched
  obtain ⟨es, hes, hes'⟩ := exists_suffix_of_withinComponent hmatched
  exact hnone cs hcs es (hes.trans hds) hes'

/-- Trying at every component finds a match just if there is one here, at the start of a later
component or at the end. -/
theorem acrossComponents_eq_matched_iff (h : Conclusive rest) {start : Bool} :
    acrossComponents rest start cs = .matched ↔
      (start = true ∧ rest cs = .matched) ∨ (∃ ds, '/' :: ds <:+ cs ∧ rest ds = .matched) ∨
        rest [] = .matched := by
  have hlater (c : Char) (cs : List Char) :
      (∃ ds, '/' :: ds <:+ c :: cs ∧ rest ds = .matched) ↔
        ((c == '/') = true ∧ rest cs = .matched) ∨
          ∃ ds, '/' :: ds <:+ cs ∧ rest ds = .matched := by
    simp only [List.suffix_cons_iff, List.cons.injEq, or_and_right, exists_or, beq_iff_eq]
    refine or_congr_left ⟨?_, ?_⟩
    · rintro ⟨ds, ⟨rfl, rfl⟩, hds⟩
      exact ⟨rfl, hds⟩
    · rintro ⟨rfl, hcs⟩
      exact ⟨cs, ⟨rfl, rfl⟩, hcs⟩
  fun_induction acrossComponents rest start cs with
  | case1 => simp
  | case2 c cs hmismatch ih =>
    refine ih.trans ?_
    rw [hlater, or_assoc]
    simp [hmismatch]
  | case3 c cs hrest =>
    cases hverdict : rest (c :: cs) with
    | matched => simp
    | mismatch => exact absurd hverdict hrest
    | exhausted =>
      have hnone : ∀ ds, ds <:+ c :: cs → rest ds ≠ .matched := h _ hverdict
      simp only [reduceCtorEq, and_false, false_or, hnone [] List.nil_suffix, or_false, false_iff]
      rintro ⟨ds, hds, hmatched⟩
      exact hnone ds ((List.suffix_cons _ _).trans hds) hmatched
  | case4 c cs ih =>
    refine ih.trans ?_
    rw [hlater, or_assoc]
    simp

end Conclusive

namespace Token

variable {t : Token} {ts : List Token}

theorem takes_slash (ht : t.Level) : t.takes '/' = false := by
  cases t with
  | literal d => simpa [takes] using fun h : '/' = d => ht.2 (h ▸ rfl)
  | _ => rfl

theorem run_cons (ht : t.Level) (hname : t ≠ .anyName) (c : Char) (cs : List Char) :
    run (t :: ts) (c :: cs) = if t.takes c then run ts cs else .mismatch := by
  rw [run]
  · exact hname
  · exact ht.1

/-- A token within a component that is no star takes one character. -/
theorem exists_cons_of_run_eq_matched (ht : t.Level) (hname : t ≠ .anyName)
    (h : run (t :: ts) cs = .matched) :
    ∃ c ds, cs = c :: ds ∧ t.takes c = true ∧ run ts ds = .matched := by
  cases cs with
  | nil => cases t <;> simp_all [run, Level]
  | cons c cs =>
    rw [run_cons ht hname] at h
    split at h
    next htakes => exact ⟨c, cs, rfl, htakes, h⟩
    · cases h

theorem exists_cons_of_run_eq_exhausted (ht : t.Level) (hname : t ≠ .anyName)
    (h : run (t :: ts) cs = .exhausted) :
    cs = [] ∨ ∃ c ds, cs = c :: ds ∧ run ts ds = .exhausted := by
  cases cs with
  | nil => exact .inl rfl
  | cons c cs =>
    rw [run_cons ht hname] at h
    split at h
    · exact .inr ⟨c, cs, rfl, h⟩
    · cases h

/-- An attempt with tokens within a component that ends at the end of the path is final. -/
theorem conclusive_run (h : ∀ t ∈ ts, t.Level) : Conclusive (run ts) := by
  induction ts with
  | nil => intro cs; cases cs <;> simp [run]
  | cons t ts ih =>
    obtain ⟨ht, hts⟩ := List.forall_mem_cons.1 h
    by_cases hname : t = .anyName
    · subst hname
      simpa only [run] using (ih hts).withinComponent
    intro cs hcs ds hds hmatched
    obtain ⟨d, ds, rfl, -, hmatched⟩ := exists_cons_of_run_eq_matched ht hname hmatched
    obtain rfl | ⟨c, cs, rfl, hexhausted⟩ := exists_cons_of_run_eq_exhausted ht hname hcs
    · cases List.suffix_nil.1 hds
    · have hsuffix : ds <:+ cs := by
        rcases List.suffix_cons_iff.1 hds with heq | hds
        · cases heq
          exact List.suffix_rfl
        · exact (List.suffix_cons d ds).trans hds
      exact ih hts cs hexhausted ds hsuffix hmatched

/-- Tokens within a component match no separator. -/
theorem not_mem_of_run (h : ∀ t ∈ ts, t.Level) (hrun : run ts cs = .matched) : '/' ∉ cs := by
  induction ts generalizing cs with
  | nil => cases cs <;> simp [run] at hrun ⊢
  | cons t ts ih =>
    obtain ⟨ht, hts⟩ := List.forall_mem_cons.1 h
    by_cases hname : t = .anyName
    · subst hname
      exact not_mem_of_withinComponent (fun ds => ih hts) (by simpa only [run] using hrun)
    obtain ⟨c, ds, rfl, htakes, hrun⟩ := exists_cons_of_run_eq_matched ht hname hrun
    refine List.not_mem_cons_of_ne_of_not_mem ?_ (ih hts hrun)
    rintro rfl
    simp [takes_slash ht] at htakes

/-- Tokens within a component that match the empty text match every text without separators: all of
them are stars. -/
theorem run_eq_matched_of_nil (h : ∀ t ∈ ts, t.Level) (hne : ts ≠ []) (hnil : run ts [] = .matched)
    (hcs : '/' ∉ cs) : run ts cs = .matched := by
  obtain ⟨t, ts, rfl⟩ := List.exists_cons_of_ne_nil hne
  obtain ⟨ht, hts⟩ := List.forall_mem_cons.1 h
  by_cases hname : t = .anyName
  · subst hname
    have hrest : run ts [] = .matched := by simpa only [run, withinComponent] using hnil
    exact (conclusive_run hts).withinComponent_eq_matched hrest hcs
  · obtain ⟨c, ds, heq, -⟩ := exists_cons_of_run_eq_matched ht hname hnil
    cases heq

end Token

end LintConfig.Glob
