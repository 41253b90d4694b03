import LintConfig.Rule.Name
import Mathlib.Data.List.TakeWhile
import Mathlib.Tactic.SplitIfs

/-!
# Taking names of rules apart

A rule is named by its namespace and its own name with a slash between them, and this text is
taken apart again at the first slash, or at the last one if it begins with a scope.
`Rule.namespaceOf_qualify_iff` says for which names the namespace comes back: those that are
`Rule.Addressable`.
-/

namespace LintConfig.Rule

variable {cs before after : List Char}

/-! ### Splitting -/

theorem splitFirst?_cons (c : Char) (cs : List Char) : splitFirst? (c :: cs) =
    if c = '/' then some ([], cs) else (splitFirst? cs).map fun r => (c :: r.1, r.2) := by
  unfold splitFirst?
  by_cases hc : c = '/'
  · simp [hc]
  · simp only [hc, List.dropWhile_cons, List.takeWhile_cons, bne_iff_ne, ne_eq,
      not_false_eq_true, if_true, if_false]
    cases cs.dropWhile (· != '/') <;> rfl

theorem splitFirst?_eq_some_iff :
    splitFirst? cs = some (before, after) ↔ cs = before ++ '/' :: after ∧ '/' ∉ before := by
  induction cs generalizing before with
  | nil => simp [splitFirst?]
  | cons c cs ih =>
    rw [splitFirst?_cons]
    split_ifs with hc
    · subst hc
      cases before with
      | nil => simp
      | cons b before => simp +contextual [eq_comm]
    · rw [Option.map_eq_some_iff]
      constructor
      · rintro ⟨⟨before', after'⟩, h, heq⟩
        obtain ⟨rfl, rfl⟩ := Prod.mk.inj heq
        obtain ⟨rfl, hnot⟩ := ih.1 h
        exact ⟨rfl, List.not_mem_cons_of_ne_of_not_mem (Ne.symm hc) hnot⟩
      · rintro ⟨heq, hnot⟩
        cases before with
        | nil => exact absurd (List.cons.inj heq).1 hc
        | cons b before =>
          obtain ⟨rfl, rfl⟩ := List.cons.inj heq
          exact ⟨(before, after), ih.2 ⟨rfl, fun h => hnot (List.mem_cons_of_mem _ h)⟩, rfl⟩

theorem splitFirst?_eq_none_iff : splitFirst? cs = none ↔ '/' ∉ cs := by
  have hdrop : splitFirst? cs = none ↔ cs.dropWhile (· != '/') = [] := by
    unfold splitFirst?
    cases cs.dropWhile (· != '/') <;> simp
  rw [hdrop, List.dropWhile_eq_nil_iff]
  constructor
  · intro h hmem
    simpa using h '/' hmem
  · intro hnot c hc
    simpa using ne_of_mem_of_not_mem hc hnot

theorem splitLast?_eq_some_iff :
    splitLast? cs = some (before, after) ↔ cs = before ++ '/' :: after ∧ '/' ∉ after := by
  rw [splitLast?, Option.map_eq_some_iff]
  constructor
  · rintro ⟨⟨a, b⟩, h, hr⟩
    obtain ⟨rfl, rfl⟩ := Prod.mk.inj hr
    obtain ⟨hcs, hnot⟩ := splitFirst?_eq_some_iff.1 h
    refine ⟨?_, by simpa using hnot⟩
    rw [← List.reverse_reverse cs, hcs]
    simp
  · rintro ⟨rfl, hnot⟩
    refine ⟨(after.reverse, before.reverse), splitFirst?_eq_some_iff.2 ⟨?_, ?_⟩, ?_⟩
    · simp
    · simpa using hnot
    · simp

theorem splitLast?_eq_none_iff : splitLast? cs = none ↔ '/' ∉ cs := by
  rw [splitLast?, Option.map_eq_none_iff, splitFirst?_eq_none_iff, List.mem_reverse]

/-! ### Namespaces -/

variable {ns name name' : String}

@[simp] theorem qualify_empty : qualify "" name = name := rfl

theorem qualify_of_ne (h : ns ≠ "") : qualify ns name = ns ++ "/" ++ name := by
  rw [qualify, if_neg (by simpa using h)]

theorem qualify_inj : qualify ns name = qualify ns name' ↔ name = name' := by
  by_cases h : ns = ""
  · subst h
    rfl
  · rw [qualify_of_ne h, qualify_of_ne h, ← String.toList_inj, ← String.toList_inj]
    simp

/-- The two sides of the slash at which the text of a rule is taken apart. -/
def sides? (cs : List Char) : Option (List Char × List Char) :=
  if cs.head? = some '@' then splitLast? cs else splitFirst? cs

theorem namespaceOf_eq (id : String) :
    namespaceOf id = ((sides? id.toList).map fun r => String.ofList r.1).getD "" := by
  unfold namespaceOf split sides?
  dsimp only
  cases id.toList with
  | nil => rfl
  | cons c cs =>
    by_cases hc : c = '@'
    · subst hc
      cases splitLast? ('@' :: cs) <;> simp
    · cases splitFirst? (c :: cs) <;> simp [hc]

theorem sides?_eq_none_iff : sides? cs = none ↔ '/' ∉ cs := by
  unfold sides?
  split_ifs
  · exact splitLast?_eq_none_iff
  · exact splitFirst?_eq_none_iff

theorem sides?_eq_some_iff : sides? cs = some (before, after) ↔ cs = before ++ '/' :: after ∧
    if cs.head? = some '@' then '/' ∉ after else '/' ∉ before := by
  unfold sides?
  split_ifs
  · exact splitLast?_eq_some_iff
  · exact splitFirst?_eq_some_iff

/-- The names that come back from the text of a rule: a built-in rule has no slash, unless it begins
with one; a namespace without a scope has no slash; in a namespace with a scope, with or without a
name of its own, the rule has none. -/
inductive Addressable : String → String → Prop
  | builtin {name : String} (hname : '/' ∉ name.toList) : Addressable "" name
  | rooted {name : String} (hname : name.toList.head? = some '/') : Addressable "" name
  | plain {ns name : String} (hne : ns ≠ "") (hscope : ns.toList.head? ≠ some '@')
    (hns : '/' ∉ ns.toList) : Addressable ns name
  | inScope {ns name : String} (hscope : ns.toList.head? = some '@') (hname : '/' ∉ name.toList) :
    Addressable ns name

theorem addressable_empty_iff : Addressable "" name ↔
    '/' ∉ name.toList ∨ name.toList.head? = some '/' := by
  constructor
  · intro h
    cases h with
    | builtin hname => exact .inl hname
    | rooted hname => exact .inr hname
    | plain hne => exact absurd rfl hne
    | inScope hscope => simp at hscope
  · rintro (hname | hname)
    · exact .builtin hname
    · exact .rooted hname

theorem addressable_iff_of_ne (h : ns ≠ "") : Addressable ns name ↔
    if ns.toList.head? = some '@' then '/' ∉ name.toList else '/' ∉ ns.toList := by
  constructor
  · intro haddressable
    cases haddressable with
    | builtin => exact absurd rfl h
    | rooted => exact absurd rfl h
    | plain _ hscope hns => rwa [if_neg hscope]
    | inScope hscope hname => rwa [if_pos hscope]
  · split_ifs with hscope
    · exact .inScope hscope
    · exact .plain h hscope

/-- A built-in rule is taken for one unless a slash in its name leaves something before it. -/
theorem namespaceOf_eq_empty_iff : namespaceOf name = "" ↔ Addressable "" name := by
  rw [addressable_empty_iff, namespaceOf_eq]
  cases h : sides? name.toList with
  | none => simp [sides?_eq_none_iff.1 h]
  | some r =>
    obtain ⟨before, after⟩ := r
    obtain ⟨hname, hslash⟩ := sides?_eq_some_iff.1 h
    cases before with
    | nil => simp [hname]
    | cons c cs =>
      have hc : c ≠ '/' := by
        rintro rfl
        simp [hname] at hslash
      simp [hname, hc, ← String.toList_inj]

/-- A rule's namespace comes back from its text exactly if its names are addressable. -/
theorem namespaceOf_qualify_iff : namespaceOf (qualify ns name) = ns ↔ Addressable ns name := by
  by_cases hns : ns = ""
  · subst hns
    exact namespaceOf_eq_empty_iff
  · have htext : (qualify ns name).toList = ns.toList ++ '/' :: name.toList := by
      simp [qualify_of_ne hns]
    have hhead : (qualify ns name).toList.head? = ns.toList.head? := by
      rw [htext]
      cases h : ns.toList with
      | nil => exact absurd (by simpa using h) hns
      | cons c cs => rfl
    rw [addressable_iff_of_ne hns, namespaceOf_eq, ← hhead]
    have hsides : (∃ after, sides? (qualify ns name).toList = some (ns.toList, after)) ↔
        if (qualify ns name).toList.head? = some '@' then '/' ∉ name.toList
          else '/' ∉ ns.toList := by
      simp only [sides?_eq_some_iff, htext, List.append_cancel_left_eq, List.cons.injEq, true_and]
      exact ⟨fun ⟨_, heq, h⟩ => heq ▸ h, fun h => ⟨_, rfl, h⟩⟩
    rw [← hsides]
    cases sides? (qualify ns name).toList with
    | none => simpa using Ne.symm hns
    | some r => simp [Prod.ext_iff, ← String.toList_inj]

end LintConfig.Rule
