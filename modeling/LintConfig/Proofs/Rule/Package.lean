import LintConfig.Proofs.Glob.Basename
import LintConfig.Proofs.Rule.Name

/-!
# Plugins named by their packages

Normalizing the name of a plugin takes a package name apart once.  What comes out may be a package
name again, or have blanks around it, and then a second time takes more away: the names that one
pass settles are those that are `Rule.OncePackaged`.
-/

namespace LintConfig

namespace Text

variable {cs : List Char}

theorem trimChars_sublist (cs : List Char) : (trimChars cs).Sublist cs :=
  (List.rdropWhile_prefix _ _).sublist.trans (List.dropWhile_suffix _).sublist

theorem trimChars_trimChars (cs : List Char) : trimChars (trimChars cs) = trimChars cs := by
  rw [trimChars_eq_self_iff, trimChars, dropEndWhile_eq]
  refine ⟨?_, List.rdropWhile_idempotent _ _⟩
  cases hfront : cs.dropWhile isBlank with
  | nil => rfl
  | cons c rest =>
    have hc : isBlank c = false := by
      have hhead := List.head?_dropWhile_not isBlank cs
      simpa [hfront] using hhead
    obtain hnil | ⟨rest', hcons, -⟩ := List.prefix_cons_iff.1
      (List.rdropWhile_prefix isBlank (c :: rest))
    · rw [hnil, List.dropWhile_nil]
    · rw [hcons, List.dropWhile_cons_of_neg (by simp [hc])]

end Text

namespace Rule

open Text (trimChars trimChars_sublist trimChars_trimChars)

variable {cs ns ns' pre rest scope : List Char} {name : String}

theorem after?_eq_some_iff : after? pre cs = some rest ↔ cs = pre ++ rest := by
  induction pre generalizing cs with
  | nil => simp [after?]
  | cons p pre ih =>
    cases cs with
    | nil => simp [after?]
    | cons c cs =>
      rw [after?]
      split_ifs with h
      · rw [ih, h, List.cons_append, List.cons_inj_right]
      · simp [Ne.symm h]

/-! ### Package names -/

/-- The package names of a namespace. -/
inductive PackageOf : List Char → List Char → Prop
  | plain (short : List Char) : PackageOf short (packageStart ++ short)
  | only {scope : List Char} (hscope : '/' ∉ scope) :
    PackageOf ('@' :: scope) ('@' :: (scope ++ '/' :: packageName))
  | inScope {scope : List Char} (hscope : '/' ∉ scope) (short : List Char) :
    PackageOf ('@' :: (scope ++ '/' :: short)) ('@' :: (scope ++ '/' :: (packageStart ++ short)))

theorem length_packageStart : packageStart.length = 14 := rfl

theorem length_packageName : packageName.length = 13 := rfl

theorem PackageOf.length_lt (h : PackageOf ns cs) : ns.length < cs.length := by
  cases h <;> simp [length_packageStart]

theorem normalizeChars_of_head?_ne (h : cs.head? ≠ some '@') :
    normalizeChars cs = (after? packageStart cs).getD cs := by
  unfold normalizeChars
  split
  · exact absurd rfl h
  · rfl

theorem normalizeChars_inScope (hscope : '/' ∉ scope) (rest : List Char) :
    normalizeChars ('@' :: (scope ++ '/' :: rest)) =
      if rest = packageName then '@' :: scope
      else match after? packageStart rest with
        | some short => '@' :: (scope ++ '/' :: short)
        | none => '@' :: (scope ++ '/' :: rest) := by
  rewrite [normalizeChars, splitFirst?_eq_some_iff.2 ⟨rfl, hscope⟩]
  rfl

theorem normalizeChars_of_packageOf (h : PackageOf ns cs) : normalizeChars cs = ns := by
  cases h with
  | plain =>
    have hhead : (packageStart ++ ns).head? ≠ some '@' := by
      rw [List.head?_append_of_ne_nil _ (by decide)]
      decide
    rw [normalizeChars_of_head?_ne hhead, after?_eq_some_iff.2 rfl, Option.getD_some]
  | only hscope => rw [normalizeChars_inScope hscope, if_pos rfl]
  | inScope hscope short =>
    have hne : packageStart ++ short ≠ packageName := by
      intro h
      have hlength := congrArg List.length h
      rw [List.length_append, length_packageStart, length_packageName] at hlength
      omega
    rw [normalizeChars_inScope hscope, if_neg hne, after?_eq_some_iff.2 rfl]

/-- A text is normalized to the namespace it is a package name of, and stands for itself if there is
none. -/
theorem packageOf_or_normalizeChars_eq (cs : List Char) :
    PackageOf (normalizeChars cs) cs ∨ normalizeChars cs = cs := by
  by_cases hhead : cs.head? = some '@'
  · obtain ⟨inner, rfl⟩ := List.head?_eq_some_iff.1 hhead
    cases hsplit : splitFirst? inner with
    | none => exact .inr (by rw [normalizeChars, hsplit])
    | some sides =>
      obtain ⟨scope, rest⟩ := sides
      obtain ⟨rfl, hscope⟩ := splitFirst?_eq_some_iff.1 hsplit
      rw [normalizeChars_inScope hscope]
      split_ifs with honly
      · exact .inl (honly ▸ .only hscope)
      · cases hshort : after? packageStart rest with
        | none => exact .inr rfl
        | some short => exact .inl (after?_eq_some_iff.1 hshort ▸ .inScope hscope short)
  · rw [normalizeChars_of_head?_ne hhead]
    cases hshort : after? packageStart cs with
    | none => exact .inr rfl
    | some short => exact .inl (after?_eq_some_iff.1 hshort ▸ .plain short)

theorem normalizeChars_eq_self_iff : normalizeChars cs = cs ↔ ∀ ns, ¬ PackageOf ns cs := by
  constructor
  · intro h ns hns
    rw [normalizeChars_of_packageOf hns] at h
    exact absurd hns.length_lt (h ▸ lt_irrefl _)
  · intro h
    exact (packageOf_or_normalizeChars_eq cs).resolve_left (h _)

theorem length_normalizeChars_le (cs : List Char) : (normalizeChars cs).length ≤ cs.length := by
  obtain h | h := packageOf_or_normalizeChars_eq cs
  · exact h.length_lt.le
  · rw [h]

/-! ### Names that one pass settles -/

/-- Texts that stand for themselves: no package names, and no blanks around them. -/
def IsNamespace (ns : List Char) : Prop := trimChars ns = ns ∧ ∀ ns', ¬ PackageOf ns' ns

/-- What a name is the package name of, if of anything, is no package name in its turn and has no
blanks around it. -/
def OncePackaged (name : String) : Prop :=
  ∀ ns, PackageOf ns (trimChars name.toList) → IsNamespace ns

theorem normalizeChars_trimChars_eq_self_iff :
    normalizeChars (trimChars cs) = cs ↔ IsNamespace cs := by
  constructor
  · intro h
    have hle : cs.length ≤ (trimChars cs).length := by
      conv_lhs => rw [← h]
      exact length_normalizeChars_le _
    have htrim : trimChars cs = cs := (trimChars_sublist cs).eq_of_length_le hle
    rw [htrim] at h
    exact ⟨htrim, normalizeChars_eq_self_iff.1 h⟩
  · rintro ⟨htrim, hnone⟩
    rw [htrim, normalizeChars_eq_self_iff.2 hnone]

theorem toList_normalizePlugin (name : String) :
    (normalizePlugin name).toList = normalizeChars (trimChars name.toList) := by
  simp [normalizePlugin]

theorem normalizePlugin_eq_self_iff : normalizePlugin name = name ↔ IsNamespace name.toList := by
  rw [← String.toList_inj, toList_normalizePlugin, normalizeChars_trimChars_eq_self_iff]

theorem normalizePlugin_normalizePlugin_iff :
    normalizePlugin (normalizePlugin name) = normalizePlugin name ↔ OncePackaged name := by
  rw [normalizePlugin_eq_self_iff, toList_normalizePlugin]
  constructor
  · intro h ns hns
    rwa [normalizeChars_of_packageOf hns] at h
  · intro h
    obtain hpackage | hself := packageOf_or_normalizeChars_eq (trimChars name.toList)
    · exact h _ hpackage
    · rw [hself]
      exact ⟨trimChars_trimChars _, normalizeChars_eq_self_iff.1 hself⟩

/-! ### Lists of names -/

section Distinct

variable {α : Type} [DecidableEq α] {l : List α}

theorem eraseDups_concat (l : List α) (a : α) :
    (l ++ [a]).eraseDups = if a ∈ l then l.eraseDups else l.eraseDups ++ [a] := by
  rw [List.eraseDups_append]
  split_ifs with h <;> simp [h, List.removeAll, List.eraseDups_cons]

theorem foldl_eq_eraseDups (l : List α) :
    l.foldl (fun acc a => if acc.contains a then acc else acc ++ [a]) [] = l.eraseDups := by
  induction l using List.reverseRecOn with
  | nil => rfl
  | append_singleton l a ih =>
    rw [List.foldl_append, ih, eraseDups_concat, List.foldl_cons, List.foldl_nil]
    simp

theorem eraseDups_sublist (l : List α) : l.eraseDups.Sublist l := by
  induction l using List.reverseRecOn with
  | nil => exact .slnil
  | append_singleton l a ih =>
    rw [eraseDups_concat]
    split_ifs
    · exact ih.trans (List.sublist_append_left l [a])
    · exact ih.append_right [a]

theorem nodup_eraseDups (l : List α) : l.eraseDups.Nodup := by
  induction l using List.reverseRecOn with
  | nil => exact List.nodup_nil
  | append_singleton l a ih =>
    rw [eraseDups_concat]
    split_ifs with h
    · exact ih
    · have hdisjoint : ∀ b ∈ l.eraseDups, ∀ c ∈ [a], b ≠ c := by
        intro b hb c hc
        rw [List.mem_singleton.1 hc]
        exact ne_of_mem_of_not_mem (List.mem_eraseDups.1 hb) h
      exact List.nodup_append.2 ⟨ih, by simp, hdisjoint⟩

theorem eraseDups_eq_self_iff : l.eraseDups = l ↔ l.Nodup := by
  refine ⟨fun h => h ▸ nodup_eraseDups l, fun h => ?_⟩
  induction l using List.reverseRecOn with
  | nil => rfl
  | append_singleton l a ih =>
    obtain ⟨hl, -, hdisjoint⟩ := List.nodup_append.1 h
    have ha : a ∉ l := fun hmem => hdisjoint a hmem a (by simp) rfl
    rw [eraseDups_concat, if_neg ha, ih hl]

end Distinct

variable {names : List String}

theorem normalizePlugins_eq (names : List String) :
    normalizePlugins names = (names.map normalizePlugin).eraseDups :=
  foldl_eq_eraseDups _

theorem normalizePlugins_eq_self_iff :
    normalizePlugins names = names ↔ names.Nodup ∧ ∀ n ∈ names, normalizePlugin n = n := by
  rw [normalizePlugins_eq]
  have hmap : names.map normalizePlugin = names ↔ ∀ n ∈ names, normalizePlugin n = n := by
    simpa using (List.map_inj_left : names.map normalizePlugin = names.map id ↔ _)
  constructor
  · intro h
    have hlength : (names.map normalizePlugin).length ≤
        (names.map normalizePlugin).eraseDups.length := by
      rw [h, List.length_map]
    have hnames : names.map normalizePlugin = names :=
      ((eraseDups_sublist _).eq_of_length_le hlength).symm.trans h
    rw [hnames, eraseDups_eq_self_iff] at h
    exact ⟨h, hmap.1 hnames⟩
  · rintro ⟨hnodup, hself⟩
    rw [hmap.2 hself, eraseDups_eq_self_iff.2 hnodup]

theorem normalizePlugins_normalizePlugins_iff :
    normalizePlugins (normalizePlugins names) = normalizePlugins names ↔
      ∀ n ∈ names, OncePackaged n := by
  rw [normalizePlugins_eq_self_iff, normalizePlugins_eq]
  simp [nodup_eraseDups, normalizePlugin_normalizePlugin_iff]

end Rule

end LintConfig
