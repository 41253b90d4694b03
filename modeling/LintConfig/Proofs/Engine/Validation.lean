import LintConfig.Proofs.Engine.Transparent
import LintConfig.Proofs.Layer.Problems

/-!
# Validating covers resolving

A path can be configured by any selection of overrides; `Engine.validate` looks at the base and at
each override alone on the base.  This is enough: an entry that a path fails for was written by the
base or by one override (`Base.exists_checked`), and what enables fewer plugins refuses it too
(`RuleEntry.exists_error_of_fewer`), with the same error or with one about the same rule
(`Engine.validate_covers_resolve`).
-/

namespace LintConfig

namespace Override

/-- What keeps an override from being applied is one of its malformed patterns. -/
theorem mem_problems_of_appliesTo {o : Override} {path : String} {error : Error}
    (h : o.appliesTo path = .error error) : error ∈ o.problems := by
  unfold problems
  unfold appliesTo at h
  dsimp only at h
  cases hfiles : o.files.malformed.head? with
  | some m =>
    rw [hfiles] at h
    dsimp only at h
    split_ifs at h
    obtain rfl := Except.error.inj h
    exact List.mem_map_of_mem (List.mem_append_left _ (List.mem_of_head? hfiles))
  | none =>
    rw [hfiles] at h
    dsimp only at h
    split_ifs at h
    cases hexcluded : o.excluded.malformed.head? with
    | none => simp [hexcluded] at h
    | some m =>
      rw [hexcluded] at h
      obtain rfl := Except.error.inj h
      exact List.mem_map_of_mem (List.mem_append_right _ (List.mem_of_head? hexcluded))

end Override

namespace Base

/-! ### Where the rules of a path come from -/

/-- The layers that validating looks at: the base, and the base with each of its overrides. -/
def checked (b : Base) : List Layer :=
  b.layer :: b.overrides.map fun o => Layer.merge b.deepKeys b.layer o.layer

end Base

/-- An entry of merged layers was written by the lowest layer, or is what one of the others writes
onto the lowest. -/
theorem Layer.mem_rules_of_mergeAll {deep : Names} {base : Layer} {layers : List Layer} {id : String}
    {entry : RuleEntry} (hnodup : (Table.keys base.rules).Nodup)
    (h : (id, entry) ∈ (mergeAll deep base layers).rules) :
    (id, entry) ∈ base.rules ∨ ∃ l ∈ layers, (id, entry) ∈ (merge deep base l).rules := by
  rw [rules_mergeAll] at h
  -- keys stand once, so an entry of the result is what was written last under its key
  have hget := Table.get?_of_mem (Table.nodup_keys_overlay hnodup _) h
  rw [Table.get?_overlay, Option.or_eq_some_iff] at hget
  rcases hget with hget | ⟨-, hget⟩
  · obtain ⟨_, hrules, hlast⟩ := Table.exists_of_lastWritten? hget
    obtain ⟨l, hl, rfl⟩ := List.mem_map.1 hrules
    have hmerged : Table.get? (merge deep base l).rules id = some entry := by
      rw [merge, Table.get?_overlay, hlast, Option.some_or]
    exact .inr ⟨l, hl, Table.mem_of_get? hmerged⟩
  · exact .inl (Table.mem_of_get? hget)

namespace Base

variable {b : Base} {deep : Names} {c : Chain} {path : String} {candidate : Candidate}

theorem nodup_rules_ofChain (h : ofChain deep c = .ok b) : (Table.keys b.layer.rules).Nodup := by
  rw [layer_ofChain h, Layer.rules_mergeAll]
  exact Table.nodup_keys_overlay (t := []) List.nodup_nil _

/-- Each entry that a path gets stands in a layer that validating looks at, and there no more
plugins are enabled than for the path. -/
theorem exists_checked (hbase : ofChain deep c = .ok b) (happly : b.apply path = .ok candidate)
    {id : String} {entry : RuleEntry} (h : (id, entry) ∈ candidate.layer.rules) :
    ∃ l ∈ b.checked, (id, entry) ∈ l.rules ∧ ∀ x ∈ l.plugins, x ∈ candidate.layer.plugins := by
  rw [apply_eq_ok happly] at h ⊢
  rcases Layer.mem_rules_of_mergeAll (nodup_rules_ofChain hbase) h with h | ⟨l, hl, h⟩
  · refine ⟨b.layer, List.mem_cons_self, h, fun x hx => ?_⟩
    exact (Layer.mem_plugins_mergeAll _ _ _ x).2 (.inl hx)
  · obtain ⟨o, ho, rfl⟩ := List.mem_map.1 hl
    have hchecked := List.mem_map_of_mem (f := fun o => Layer.merge b.deepKeys b.layer o.layer)
      (List.mem_filter.1 ho).1
    refine ⟨_, List.mem_cons_of_mem _ hchecked, h, fun x hx => ?_⟩
    rw [Layer.mem_plugins_mergeAll]
    exact ((Names.mem_union _ _ x).1 hx).imp_right fun hx => ⟨o.layer, hl, hx⟩

end Base

namespace Engine

variable {e : Engine} {base : Base} {error : Error}

/-! ### Distinct texts -/

/-- Notes an error unless its text was noted before. -/
def note (acc : List Error × List String) (error : Error) : List Error × List String :=
  if acc.2.contains error.message then acc else (acc.1 ++ [error], error.message :: acc.2)

theorem exists_of_foldl_note {errors : List Error} {acc : List Error × List String} {text : String}
    (hacc : ∀ text ∈ acc.2, ∃ p ∈ acc.1, p.message = text)
    (h : text ∈ acc.2 ∨ ∃ error ∈ errors, error.message = text) :
    ∃ p ∈ (errors.foldl note acc).1, p.message = text := by
  induction errors generalizing acc with
  | nil => exact hacc text (h.resolve_right (by simp))
  | cons error errors ih =>
    rw [List.foldl_cons, note]
    rw [List.exists_mem_cons_iff] at h
    -- an error that is left out has the text of one that was kept
    split_ifs with hknown
    · refine ih hacc ?_
      rcases h with h | rfl | h
      · exact .inl h
      · exact .inl (List.contains_iff_mem.1 hknown)
      · exact .inr h
    · refine ih ?_ ?_
      · intro text htext
        rcases List.mem_cons.1 htext with rfl | htext
        · exact ⟨error, by simp, rfl⟩
        · obtain ⟨p, hp, hmessage⟩ := hacc text htext
          exact ⟨p, List.mem_append_left _ hp, hmessage⟩
      · rcases h with h | rfl | h
        · exact .inl (List.mem_cons_of_mem _ h)
        · exact .inl List.mem_cons_self
        · exact .inr h

/-- No text is lost. -/
theorem exists_mem_distinct {errors : List Error} (h : error ∈ errors) :
    ∃ p ∈ distinct errors, p.message = error.message := by
  have hnone : ∀ text ∈ ([] : List String), ∃ p ∈ ([] : List Error), p.message = text := by simp
  exact exists_of_foldl_note hnone (.inr ⟨error, h, rfl⟩)

/-! ### Validating -/

theorem exists_mem_validate (hbase : e.base = .ok base)
    (h : (∃ l ∈ base.checked, error ∈ l.problems e.registry e.options.strictPlugins) ∨
      ∃ o ∈ base.overrides, error ∈ o.problems) : ∃ p ∈ e.validate, p.message = error.message := by
  unfold validate
  rw [hbase]
  refine exists_mem_distinct ?_
  rcases h with ⟨l, hl, h⟩ | ⟨o, ho, h⟩
  · rcases List.mem_cons.1 hl with rfl | hl
    · exact List.mem_append_left _ h
    · obtain ⟨o, ho, rfl⟩ := List.mem_map.1 hl
      exact List.mem_append_right _ (List.mem_flatMap.2 ⟨o, ho, List.mem_append_right _ h⟩)
  · exact List.mem_append_right _ (List.mem_flatMap.2 ⟨o, ho, List.mem_append_left _ h⟩)

theorem compute_of_resolve_eq_error (hbase : e.base = .ok base) {path : String}
    (h : (e.resolve path).1 = .error error) : e.compute base (e.matchPath path) = .error error := by
  unfold resolve at h
  simp only [hbase] at h
  exact Cache.compute_of_fetch_eq_error h

theorem compute_eq_error {path : String} (h : e.compute base path = .error error) :
    base.apply path = .error error ∨ ∃ candidate, base.apply path = .ok candidate ∧
      candidate.layer.resolveRules e.registry e.options.strictPlugins = .error error := by
  unfold compute at h
  rcases bind_eq_error_iff.1 h with happly | ⟨candidate, happly, h⟩
  · exact .inl happly
  · rcases bind_eq_error_iff.1 h with hrules | ⟨rules, -, h⟩
    · exact .inr ⟨candidate, happly, hrules⟩
    · cases h

/-- What a path fails with shows when its base is validated: as an error with the same text, or, if
it is about a rule, as an error about that rule. -/
theorem exists_mem_validate_of_compute (hbase : e.base = .ok base) {deep : Names} {c : Chain}
    (hchain : Base.ofChain deep c = .ok base) {path : String}
    (h : e.compute base path = .error error) :
    ((∃ pattern origin reason, error = .malformedPattern pattern origin reason) ∨
        ∃ rule value, error = .invalidSeverity rule value) ∧
      (∃ p ∈ e.validate, p.message = error.message) ∨
    ∃ rule, error.About rule ∧ ∃ p ∈ e.validate, ∃ q : Error, q.About rule ∧
      p.message = q.message := by
  rcases compute_eq_error h with happly | ⟨candidate, happly, hrules⟩
  · obtain ⟨o, ho, happlies⟩ := Base.exists_of_apply_eq_error happly
    have hproblem := Override.mem_problems_of_appliesTo happlies
    obtain ⟨m, -, rfl⟩ := List.mem_map.1 hproblem
    exact .inl ⟨.inl ⟨_, _, _, rfl⟩, exists_mem_validate hbase (.inr ⟨o, ho, hproblem⟩)⟩
  · obtain ⟨id, entry, hmem, hentry⟩ := RuleMap.exists_of_resolve_eq_error hrules
    obtain ⟨l, hl, hmem', hfewer⟩ := Base.exists_checked hchain happly hmem
    -- the layer where the entry stands refuses it as well
    obtain ⟨error', herror', hsame⟩ := RuleEntry.exists_error_of_fewer hfewer hentry
    have hvalidate : ∃ p ∈ e.validate, p.message = error'.message :=
      exists_mem_validate hbase (.inl ⟨l, hl, RuleMap.mem_problems_iff.2 ⟨_, _, hmem', herror'⟩⟩)
    rcases hsame with rfl | ⟨habout, habout'⟩
    · rcases RuleEntry.resolve_eq_error hentry with ⟨-, rfl⟩ | ⟨-, habout⟩
      · exact .inl ⟨.inr ⟨_, _, rfl⟩, hvalidate⟩
      · obtain ⟨p, hp, hmessage⟩ := hvalidate
        exact .inr ⟨id, habout, p, hp, error', habout, hmessage⟩
    · obtain ⟨p, hp, hmessage⟩ := hvalidate
      exact .inr ⟨id, habout, p, hp, error', habout', hmessage⟩

/-- Whatever a path fails with, an engine with a base finds it when it validates: a malformed
pattern and an invalid severity under the same text, and a rule that is unknown or has invalid
options as an unknown rule or as invalid options of the same rule.  There is nothing else that a
path can fail with, and when there is nothing to find every path resolves. -/
theorem validate_covers_resolve (hreachable : Reachable e) (hbase : e.base = .ok base) :
    (∀ path error, (e.resolve path).1 = .error error →
      e.validate ≠ [] ∧
      ((∃ pattern origin reason, error = .malformedPattern pattern origin reason) ∨
        (∃ rule value, error = .invalidSeverity rule value) ∨ ∃ rule, error.About rule) ∧
      (∀ pattern origin reason, error = .malformedPattern pattern origin reason →
        ∃ p ∈ e.validate, p.message = error.message) ∧
      (∀ rule value, error = .invalidSeverity rule value →
        ∃ p ∈ e.validate, p.message = error.message) ∧
      ∀ rule, error.About rule → ∃ p ∈ e.validate, ∃ q : Error, q.About rule ∧
        p.message = q.message) ∧
    (e.validate = [] → ∀ path, ∃ r, (e.resolve path).1 = .ok r) := by
  obtain ⟨c, hchain⟩ := hreachable.sound.merged base (state_of_base hbase)
  have hfound (path : String) (error : Error) (h : (e.resolve path).1 = .error error) :=
    exists_mem_validate_of_compute hbase hchain (compute_of_resolve_eq_error hbase h)
  constructor
  · intro path error h
    rcases hfound path error h with ⟨hkind, p, hp, hmessage⟩ | ⟨rule, habout, p, hp, q, hq⟩
    · refine ⟨List.ne_nil_of_mem hp, hkind.imp_right .inl, fun _ _ _ _ => ⟨p, hp, hmessage⟩,
        fun _ _ _ => ⟨p, hp, hmessage⟩, fun rule habout => ?_⟩
      rcases hkind with ⟨_, _, _, rfl⟩ | ⟨_, _, rfl⟩ <;> cases habout
    · refine ⟨List.ne_nil_of_mem hp, .inr (.inr ⟨rule, habout⟩), ?_, ?_, fun rule' habout' => ?_⟩
      · rintro _ _ _ rfl
        cases habout
      · rintro _ _ rfl
        cases habout
      · obtain rfl : rule = rule' := by cases habout <;> cases habout' <;> rfl
        exact ⟨p, hp, q, hq⟩
  · intro hempty path
    cases hresult : (e.resolve path).1 with
    | ok r => exact ⟨r, rfl⟩
    | error error =>
      rcases hfound path error hresult with ⟨-, p, hp, -⟩ | ⟨-, -, p, hp, -⟩
      all_goals simp [hempty] at hp

/-- A plugin with one rule, which takes no options. -/
def reactPlugin : Manifest where
  plugin := "react"
  rules := [("jsx", { optionSchema := .takesNone })]

/-- A document with one override that enables the plugin, and one that gives its rule an option. -/
def reactDocument : Document where
  overrides := [
    { files := .one "*.ts", plugins := ["react"] },
    { files := .one "a.*", rules := [("react/jsx", ⟨.word "warn", some [.str "always"]⟩)] }]

/-- The documents of an engine for it. -/
def reactLibrary : Library := ⟨[.memory "memory" [("app", reactDocument)]], default⟩

theorem start_react : ∃ e base,
    start "app" reactLibrary (.ofManifests [reactPlugin]) {} = .ok e ∧ e.base = .ok base ∧
    e.matchPath "a.ts" = "a.ts" ∧
    e.compute base "a.ts" =
      .error (.invalidRuleOptions "react/jsx" "expected at most 0 option(s), got 1") ∧
    e.validate = [.unknownRule "react/jsx" "plugin 'react' is not enabled"] :=
  ⟨_, _, by rfl, by rfl, by decide +kernel, by rfl, by rfl⟩

/-- On its own the second override lacks the plugin, which is found under another text. -/
theorem validate_react : ∃ e,
    start "app" reactLibrary (.ofManifests [reactPlugin]) {} = .ok e ∧
    (e.resolve "a.ts").1 =
      .error (.invalidRuleOptions "react/jsx" "expected at most 0 option(s), got 1") ∧
    (∃ p ∈ e.validate, ∃ q : Error, q.About "react/jsx" ∧ p.message = q.message) ∧
    e.validate = [.unknownRule "react/jsx" "plugin 'react' is not enabled"] := by
  obtain ⟨e, base, hstart, hbase, hpath, hcompute, hvalidate⟩ := start_react
  have hreachable : Reachable e := ⟨_, _, _, _, e, hstart, .refl⟩
  obtain ⟨base', htransparent⟩ := Transparent.start hstart
  obtain rfl : base = base' := State.ready.inj ((state_of_base hbase).symm.trans htransparent.ready)
  have hresolve := htransparent.resolve_eq_compute "a.ts"
  rw [hpath, hcompute] at hresolve
  obtain ⟨-, -, -, -, habout⟩ := (validate_covers_resolve hreachable hbase).1 _ _ hresolve
  exact ⟨e, hstart, hresolve, habout "react/jsx" (.options _), hvalidate⟩

end Engine

end LintConfig
