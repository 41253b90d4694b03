import LintConfig.Proofs.Layer.Precedence

/-!
# Rules that are refused

A rule entry is refused for its severity, for its rule or for its options.  Resolving the rules of a
layer stops at the first entry that is refused, and collecting the problems goes on to the last one;
both find the same (`Layer.resolveRules_iff_problems`).  Only strict lookups ask which plugins are
enabled, and what is accepted stays accepted when more of them are (`RuleEntry.resolve_of_fewer`).
-/

namespace LintConfig

/-- A computation fails in its first part, or after it. -/
theorem bind_eq_error_iff {ε α β : Type} {x : Except ε α} {f : α → Except ε β} {error : ε} :
    x >>= f = .error error ↔ x = .error error ∨ ∃ a, x = .ok a ∧ f a = .error error := by
  cases x <;> simp [bind, Except.bind]

/-! ### Entries that are refused -/

/-- An error of looking a rule up, or of its options. -/
inductive Error.About (rule : String) : Error → Prop where
  | unknown (reason : String) : About rule (.unknownRule rule reason)
  | options (reason : String) : About rule (.invalidRuleOptions rule reason)

section Rules

variable {registry : Registry} {strict : Bool} {enabled fewer : Names} {id : String}
  {entry : RuleEntry} {error : Error}

/-- A rule is found if it is registered and, for strict lookups, if its plugin is enabled. -/
theorem Registry.lookup_eq_ok_iff {d : Descriptor} : registry.lookup id enabled strict = .ok d ↔
    (strict = true → (Rule.namespaceOf id).isEmpty = false → Rule.namespaceOf id ∈ enabled) ∧
      registry.get? id = some d := by
  constructor
  · intro h
    refine ⟨fun hstrict hplugin => ?_, get?_of_lookup h⟩
    by_contra hdisabled
    simp [lookup, find, hstrict, hplugin, hdisabled, Except.mapError] at h
  · rintro ⟨henabled, hget⟩
    have hpass : (strict && !(Rule.namespaceOf id).isEmpty &&
        !enabled.contains (Rule.namespaceOf id)) = false := by
      cases strict <;> cases hplugin : (Rule.namespaceOf id).isEmpty <;> simp_all
    obtain ⟨rules, hrules, hd⟩ := Option.bind_eq_some_iff.1 hget
    unfold lookup find
    simp only [hpass, hrules, hd, Bool.false_eq_true, if_false, Except.mapError]

theorem Registry.about_of_lookup (h : registry.lookup id enabled strict = .error error) :
    error.About id := by
  unfold lookup at h
  cases hfind : registry.find id enabled strict with
  | ok d => simp [hfind, Except.mapError] at h
  | error fault =>
    rw [hfind] at h
    obtain rfl := Except.error.inj h
    exact .unknown fault.message

/-- An entry is refused for its severity, or for what it says about its rule. -/
theorem RuleEntry.resolve_eq_error (h : entry.resolve registry strict enabled id = .error error) :
    (Severity.ofRaw? entry.severity = none ∧ error = .invalidSeverity id entry.severity.text) ∨
      ((Severity.ofRaw? entry.severity).isSome ∧ error.About id) := by
  unfold resolve at h
  cases hseverity : Severity.ofRaw? entry.severity with
  | none =>
    rw [hseverity] at h
    exact .inl ⟨rfl, (Except.error.inj h).symm⟩
  | some severity =>
    refine .inr ⟨rfl, ?_⟩
    rw [hseverity] at h
    rcases bind_eq_error_iff.1 h with hd | ⟨d, -, h⟩
    · exact Registry.about_of_lookup hd
    · cases hoptions : entry.options with
      | none =>
        rw [hoptions] at h
        cases h
      | some options =>
        rw [hoptions] at h
        dsimp only at h
        cases hcheck : d.schema.check options with
        | none =>
          rw [hcheck] at h
          cases h
        | some fault =>
          rw [hcheck] at h
          exact Except.error.inj h ▸ .options fault.message

/-- What is accepted is accepted in the same way when more plugins are enabled. -/
theorem RuleEntry.resolve_of_fewer (hfewer : ∀ x ∈ fewer, x ∈ enabled) {rule : ResolvedRule}
    (h : entry.resolve registry strict fewer id = .ok rule) :
    entry.resolve registry strict enabled id = .ok rule := by
  obtain ⟨hseverity, d, hd, -⟩ := resolve_eq_ok h
  obtain ⟨henabled, hget⟩ := Registry.lookup_eq_ok_iff.1 hd
  have hd' : registry.lookup id enabled strict = .ok d :=
    Registry.lookup_eq_ok_iff.2 ⟨fun hstrict hplugin => hfewer _ (henabled hstrict hplugin), hget⟩
  unfold resolve at h ⊢
  simp only [hseverity, hd] at h
  simp only [hseverity, hd']
  exact h

/-- What is refused is refused when fewer plugins are enabled, with the same error or with one about
the same rule. -/
theorem RuleEntry.exists_error_of_fewer (hfewer : ∀ x ∈ fewer, x ∈ enabled)
    (h : entry.resolve registry strict enabled id = .error error) :
    ∃ error', entry.resolve registry strict fewer id = .error error' ∧
      (error' = error ∨ error.About id ∧ error'.About id) := by
  cases hresult : entry.resolve registry strict fewer id with
  | ok rule => cases h.symm.trans (resolve_of_fewer hfewer hresult)
  | error error' =>
    refine ⟨error', rfl, ?_⟩
    -- the severity, which decides what kind of error there is, does not depend on plugins
    rcases resolve_eq_error h with ⟨hnone, rfl⟩ | ⟨hsome, habout⟩
    · rcases resolve_eq_error hresult with ⟨-, rfl⟩ | ⟨hsome, -⟩
      · exact .inl rfl
      · simp [hnone] at hsome
    · rcases resolve_eq_error hresult with ⟨hnone, -⟩ | ⟨-, habout'⟩
      · simp [hnone] at hsome
      · exact .inr ⟨habout, habout'⟩

/-! ### First errors and all errors -/

theorem RuleMap.mem_problems_iff {rules : RuleMap} :
    error ∈ RuleMap.problems registry strict enabled rules ↔ ∃ id entry, (id, entry) ∈ rules ∧
      RuleEntry.resolve registry strict enabled id entry = .error error := by
  rw [RuleMap.problems, List.mem_filterMap, Prod.exists]
  refine exists₂_congr fun id entry => and_congr_right fun _ => ?_
  cases entry.resolve registry strict enabled id <;> simp

theorem RuleMap.problems_cons_of_error {rules : RuleMap}
    (h : entry.resolve registry strict enabled id = .error error) :
    RuleMap.problems registry strict enabled ((id, entry) :: rules) =
      error :: RuleMap.problems registry strict enabled rules := by
  simp only [problems, List.filterMap_cons, h]

theorem RuleMap.problems_cons_of_ok {rules : RuleMap} {rule : ResolvedRule}
    (h : entry.resolve registry strict enabled id = .ok rule) :
    RuleMap.problems registry strict enabled ((id, entry) :: rules) =
      RuleMap.problems registry strict enabled rules := by
  simp only [problems, List.filterMap_cons, h]

/-- Resolving fails with the first of all problems. -/
theorem RuleMap.resolve_eq_error_iff {rules : RuleMap} :
    RuleMap.resolve registry strict enabled rules = .error error ↔
      (RuleMap.problems registry strict enabled rules).head? = some error := by
  induction rules with
  | nil => simp [RuleMap.resolve, RuleMap.problems]
  | cons e rules ih =>
    obtain ⟨id, entry⟩ := e
    unfold RuleMap.resolve
    cases hrule : entry.resolve registry strict enabled id with
    | error first =>
      rw [problems_cons_of_error hrule, List.head?_cons, Option.some.injEq]
      exact ⟨Except.error.inj, congrArg Except.error⟩
    | ok rule =>
      rw [problems_cons_of_ok hrule, ← ih]
      cases RuleMap.resolve registry strict enabled rules <;>
        simp [bind, Except.bind, pure, Except.pure]

theorem RuleMap.exists_of_resolve_eq_error {rules : RuleMap}
    (h : RuleMap.resolve registry strict enabled rules = .error error) :
    ∃ id entry, (id, entry) ∈ rules ∧
      RuleEntry.resolve registry strict enabled id entry = .error error :=
  mem_problems_iff.1 (List.mem_of_head? (resolve_eq_error_iff.1 h))

/-- Resolving succeeds if there are no problems. -/
theorem RuleMap.exists_resolve_eq_ok_iff {rules : RuleMap} :
    (∃ resolved, RuleMap.resolve registry strict enabled rules = .ok resolved) ↔
      RuleMap.problems registry strict enabled rules = [] := by
  rw [← List.head?_eq_none_iff, Option.eq_none_iff_forall_ne_some]
  simp only [ne_eq, ← resolve_eq_error_iff]
  cases RuleMap.resolve registry strict enabled rules <;> simp

/-! ### Plugins that are enabled -/

/-- What is done with each entry decides what is done with all of them. -/
theorem RuleMap.resolve_congr {enabled' : Names} {rules : RuleMap}
    (h : ∀ e ∈ rules, RuleEntry.resolve registry strict enabled e.1 e.2 =
      RuleEntry.resolve registry strict enabled' e.1 e.2) :
    RuleMap.resolve registry strict enabled rules =
      RuleMap.resolve registry strict enabled' rules := by
  induction rules with
  | nil => rfl
  | cons e rules ih =>
    rw [List.forall_mem_cons] at h
    unfold RuleMap.resolve
    rw [h.1, ih h.2]

/-- A layer that is accepted comes to the same rules when more plugins are enabled. -/
theorem RuleMap.resolve_of_fewer (hfewer : ∀ x ∈ fewer, x ∈ enabled) {rules : RuleMap}
    {resolved : Table ResolvedRule}
    (h : RuleMap.resolve registry strict fewer rules = .ok resolved) :
    RuleMap.resolve registry strict enabled rules = .ok resolved := by
  have hnone := exists_resolve_eq_ok_iff.1 ⟨resolved, h⟩
  rw [← h]
  refine (resolve_congr fun e he => ?_).symm
  cases hrule : RuleEntry.resolve registry strict fewer e.1 e.2 with
  | error error =>
    have hmem := mem_problems_iff.2 ⟨e.1, e.2, he, hrule⟩
    rw [hnone] at hmem
    cases hmem
  | ok rule => rw [RuleEntry.resolve_of_fewer hfewer hrule]

/-- A lookup that is not strict does not ask which plugins are enabled. -/
theorem RuleEntry.resolve_not_strict (enabled enabled' : Names) :
    entry.resolve registry false enabled id = entry.resolve registry false enabled' id := rfl

theorem RuleMap.problems_not_strict (enabled enabled' : Names) (rules : RuleMap) :
    RuleMap.problems registry false enabled rules =
      RuleMap.problems registry false enabled' rules := rfl

end Rules

/-- The rules of a layer resolve if there are no problems, and otherwise they fail with the first of
them.  What they resolve to are the rules that the layer mentions in its order, each with the
severity of its entry, off included; and it stays the same when more plugins are enabled.  Unless
the lookup is strict it does not matter at all which plugins are enabled. -/
theorem Layer.resolveRules_iff_problems (registry : Registry) (strict : Bool) (l : Layer) :
    ((∃ rules, l.resolveRules registry strict = .ok rules) ↔ l.problems registry strict = []) ∧
    (∀ error, l.resolveRules registry strict = .error error ↔
      (l.problems registry strict).head? = some error) ∧
    (∀ rules, l.resolveRules registry strict = .ok rules →
      Table.keys rules = Table.keys l.rules ∧
      (∀ id entry, Table.get? l.rules id = some entry → ∃ rule, Table.get? rules id = some rule ∧
        Severity.ofRaw? entry.severity = some rule.severity) ∧
      ∀ enabled : Names, l.plugins ⊆ enabled →
        { l with plugins := enabled }.resolveRules registry strict = .ok rules) ∧
    ∀ enabled : Names,
      { l with plugins := enabled }.resolveRules registry false = l.resolveRules registry false ∧
      { l with plugins := enabled }.problems registry false = l.problems registry false := by
  refine ⟨RuleMap.exists_resolve_eq_ok_iff, fun error => RuleMap.resolve_eq_error_iff,
    fun rules hrules => ?_, fun enabled => ⟨?_, ?_⟩⟩
  · have hmatched := RuleMap.resolve_eq_ok hrules
    refine ⟨hmatched.keys_eq.symm, fun id entry hentry => ?_, fun enabled henabled => ?_⟩
    · obtain ⟨rule, hrule, hresolve⟩ := hmatched.exists_get? hentry
      exact ⟨rule, hrule, (RuleEntry.resolve_eq_ok hresolve).1⟩
    · exact RuleMap.resolve_of_fewer (fun x hx => henabled hx) hrules
  · exact RuleMap.resolve_congr fun e _ => RuleEntry.resolve_not_strict enabled l.plugins
  · exact RuleMap.problems_not_strict enabled l.plugins l.rules

/-- A plugin with one rule, under its long name. -/
def hooksPlugin : Manifest where
  plugin := "eslint-plugin-react-hooks"
  rules := [("exhaustive-deps", {})]

/-- The rules of two plugins. -/
def hooksRegistry : Registry := .ofManifests [quotesPlugin, hooksPlugin]

/-- A layer that enables the plugin, and has a rule that is off. -/
def hooksLayer : Layer where
  plugins := ["react-hooks"]
  rules := [("react-hooks/exhaustive-deps", ⟨.code (.int 1), none⟩), ("semi", ⟨.word "OFF ", none⟩)]

/-- A layer that does not enable it, and has a severity that is none. -/
def loudLayer : Layer where
  rules := [("react-hooks/exhaustive-deps", ⟨.word "warn", none⟩), ("semi", ⟨.word "loud", none⟩)]

theorem Layer.resolveRules_iff_problems_hooks :
    (∃ rules, hooksLayer.resolveRules hooksRegistry true = .ok rules ∧
      hooksLayer.problems hooksRegistry true = [] ∧
      Table.keys rules = ["react-hooks/exhaustive-deps", "semi"] ∧
      (∃ rule, Table.get? rules "semi" = some rule ∧ some Severity.off = some rule.severity) ∧
      { hooksLayer with plugins := ["import", "react-hooks"] }.resolveRules hooksRegistry true =
        .ok rules) ∧
    loudLayer.problems hooksRegistry true =
      [.unknownRule "react-hooks/exhaustive-deps" "plugin 'react-hooks' is not enabled",
        .invalidSeverity "semi" "loud"] ∧
    loudLayer.resolveRules hooksRegistry true = .error
      (.unknownRule "react-hooks/exhaustive-deps" "plugin 'react-hooks' is not enabled") := by
  obtain ⟨hok, -, hrules, -⟩ := resolveRules_iff_problems hooksRegistry true hooksLayer
  have hnone : hooksLayer.problems hooksRegistry true = [] := by rfl
  obtain ⟨rules, hresolved⟩ := hok.2 hnone
  obtain ⟨hkeys, hseverity, hmore⟩ := hrules rules hresolved
  obtain ⟨-, herror, -, -⟩ := resolveRules_iff_problems hooksRegistry true loudLayer
  exact ⟨⟨rules, hresolved, hnone, hkeys, hseverity "semi" ⟨.word "OFF ", none⟩ (by rfl),
    hmore _ (by decide)⟩, by rfl, (herror _).2 (by rfl)⟩

end LintConfig
