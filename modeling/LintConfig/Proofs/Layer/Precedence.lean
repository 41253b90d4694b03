import LintConfig.Engine
import LintConfig.Proofs.Base

/-!
# Precedence

The configuration of a path comes from a list of layers: those of the fragments of the chain, and
then those of the overrides that apply to the path (`Chain.layersFor`).  Merging, selecting
overrides, laying them on and settling severities are four passes, and together they come to one
law: what was written last counts (`compute_last_wins`).
-/

namespace LintConfig

/-! ### Settings -/

namespace Settings

theorem get?_overlayOne {deep : List String} {k : String} (hk : k ∉ deep) (base : Settings)
    (key : String) (value : Setting) : Table.get? (overlayOne deep base key value) k =
      if key = k then some value else Table.get? base k := by
  unfold overlayOne
  by_cases h : key = k
  · subst h
    cases Table.get? base key <;> simp [Table.get?_put, hk]
  · cases Table.get? base key <;> simp [Table.get?_put, h]

/-- Settings under a key that is not merged deeply are overlaid like any table. -/
theorem get?_overlay {deep : List String} {k : String} (hk : k ∉ deep) (base upper : Settings) :
    Table.get? (overlay deep base upper) k = (Table.get? upper.reverse k).or (Table.get? base k) := by
  induction upper generalizing base with
  | nil => simp [overlay, Table.get?]
  | cons e upper ih =>
    obtain ⟨key, value⟩ := e
    have hstep : overlay deep base ((key, value) :: upper) =
        overlay deep (overlayOne deep base key value) upper := rfl
    rw [hstep, ih, get?_overlayOne hk, List.reverse_cons, Table.get?_append]
    by_cases h : key = k <;> cases Table.get? upper.reverse k <;> simp [Table.get?, h]

end Settings

/-! ### Merged layers -/

namespace Layer

variable (deep : Names) (base : Layer) (layers : List Layer)

theorem mergeAll_append (uppers : List Layer) :
    mergeAll deep base (layers ++ uppers) = mergeAll deep (mergeAll deep base layers) uppers := by
  unfold mergeAll
  rw [List.foldl_append]

/-- What merging does to a field that is merged on its own. -/
theorem mergeAll_field {α : Type} (field : Layer → α) (lay : α → α → α)
    (hfield : ∀ b u, field (merge deep b u) = lay (field b) (field u)) :
    field (mergeAll deep base layers) = (layers.map field).foldl lay (field base) := by
  unfold mergeAll
  induction layers generalizing base with
  | nil => rfl
  | cons l layers ih => rw [List.foldl_cons, ih, hfield, List.map_cons, List.foldl_cons]

theorem rules_mergeAll :
    (mergeAll deep base layers).rules = Table.overlay base.rules (layers.map rules).flatten := by
  rw [mergeAll_field deep base layers rules Table.overlay fun _ _ => rfl, Table.foldl_overlay]

theorem env_mergeAll :
    (mergeAll deep base layers).env = Table.overlay base.env (layers.map env).flatten := by
  rw [mergeAll_field deep base layers env Table.overlay fun _ _ => rfl, Table.foldl_overlay]

/-- Settings laid onto settings, away from the keys that are merged deeply. -/
theorem get?_foldl_overlay {keys : List String} {k : String} (hk : k ∉ keys) (t : Settings)
    (us : List Settings) : Table.get? (us.foldl (Settings.overlay keys) t) k =
      (Table.lastWritten? us k).or (Table.get? t k) := by
  unfold Table.lastWritten?
  induction us generalizing t with
  | nil => simp [Table.get?]
  | cons u us ih =>
    rw [List.foldl_cons, ih, Settings.get?_overlay hk, List.flatten_cons, List.reverse_append,
      Table.get?_append, Option.or_assoc]

theorem get?_settings_mergeAll {k : String} (hk : k ∉ deep) :
    Table.get? (mergeAll deep base layers).settings k =
      (Table.lastWritten? (layers.map settings) k).or (Table.get? base.settings k) := by
  rw [mergeAll_field deep base layers settings (Settings.overlay deep) fun _ _ => rfl,
    get?_foldl_overlay hk]

theorem get?_globals_mergeAll (k : String) :
    Table.get? (mergeAll deep base layers).globals k =
      (Table.lastWritten? (layers.map globals) k).or (Table.get? base.globals k) := by
  rw [mergeAll_field deep base layers globals (Settings.overlay []) fun _ _ => rfl,
    get?_foldl_overlay List.not_mem_nil]

theorem get?_parserOptions_mergeAll (k : String) :
    Table.get? (mergeAll deep base layers).parserOptions k =
      (Table.lastWritten? (layers.map parserOptions) k).or (Table.get? base.parserOptions k) := by
  rw [mergeAll_field deep base layers parserOptions (Settings.overlay []) fun _ _ => rfl,
    get?_foldl_overlay List.not_mem_nil]

theorem parser_mergeAll :
    (mergeAll deep base layers).parser = (layers.filterMap parser).getLast?.or base.parser := by
  rw [mergeAll_field deep base layers parser (fun b u => u.or b) fun _ _ => rfl]
  induction layers generalizing base with
  | nil => rfl
  | cons l layers ih =>
    have h := ih { base with parser := l.parser.or base.parser }
    rw [List.map_cons, List.foldl_cons, h]
    cases hp : l.parser <;> simp [hp, List.getLast?_cons]

theorem mem_plugins_mergeAll (x : String) :
    x ∈ (mergeAll deep base layers).plugins ↔ x ∈ base.plugins ∨ ∃ l ∈ layers, x ∈ l.plugins := by
  rw [mergeAll_field deep base layers plugins Names.union fun _ _ => rfl]
  induction layers generalizing base with
  | nil => simp
  | cons l layers ih =>
    have h := ih { base with plugins := Names.union base.plugins l.plugins }
    rw [List.map_cons, List.foldl_cons, h]
    simp only [Names.mem_union, List.mem_cons, exists_eq_or_imp, or_assoc]

end Layer

/-! ### Overrides of a path -/

/-- Whether an override applies to a path, an error aside. -/
def Override.applies (o : Override) (path : String) : Bool :=
  match o.appliesTo path with
  | .ok applies => applies
  | .error _ => false

/-- The layers that the configuration of a path comes from: those of the fragments, and those of
the overrides that apply to the path. -/
def Chain.layersFor (c : Chain) (path : String) : List Layer :=
  c.fragments.map (fun f => .ofDocument f.document) ++
    ((c.fragments.flatMap Fragment.overrides).filter fun o => o.applies path).map Override.layer

namespace Base

theorem selectFrom_eq_ok {path : String} {os : List Override} {n : Nat}
    {selected : List (Nat × Override)} (h : selectFrom path n os = .ok selected) :
    selected.map Prod.snd = os.filter fun o => o.applies path := by
  induction os generalizing n selected with
  | nil =>
    cases h
    rfl
  | cons o os ih =>
    unfold selectFrom at h
    cases happlies : o.appliesTo path with
    | error e => simp [happlies, bind, Except.bind] at h
    | ok applies =>
      cases hrest : selectFrom path (n + 1) os with
      | error e => simp [happlies, hrest, bind, Except.bind] at h
      | ok rest =>
        have happlies' : o.applies path = applies := by simp [Override.applies, happlies]
        simp only [happlies, hrest, bind, Except.bind, pure, Except.pure, Except.ok.injEq] at h
        subst h
        cases applies <;> simp [happlies', ih hrest]

theorem apply_eq_ok {b : Base} {path : String} {candidate : Candidate}
    (h : b.apply path = .ok candidate) :
    candidate.layer = Layer.mergeAll b.deepKeys b.layer
      ((b.overrides.filter fun o => o.applies path).map Override.layer) := by
  unfold apply select at h
  cases hselected : selectFrom path 0 b.overrides with
  | error e => simp [hselected, bind, Except.bind] at h
  | ok selected =>
    simp only [hselected, bind, Except.bind, pure, Except.pure, Except.ok.injEq] at h
    subst h
    rw [← selectFrom_eq_ok hselected, List.map_map]
    rfl

/-- A path's layer is that of its layers merged. -/
theorem apply_ofChain {deep : Names} {c : Chain} {b : Base} (hbase : ofChain deep c = .ok b)
    {path : String} {candidate : Candidate} (h : b.apply path = .ok candidate) :
    candidate.layer = Layer.mergeAll deep {} (c.layersFor path) := by
  rw [apply_eq_ok h, deepKeys_ofChain hbase, layer_ofChain hbase, overrides_ofChain hbase,
    Chain.layersFor, Layer.mergeAll_append]

end Base

/-! ### Rules -/

theorem Registry.get?_of_lookup {registry : Registry} {id : String} {enabled : Names} {strict : Bool}
    {d : Descriptor} (h : registry.lookup id enabled strict = .ok d) : registry.get? id = some d := by
  unfold Registry.lookup Registry.find at h
  unfold Registry.get?
  dsimp only at h
  split_ifs at h
  · cases h
  all_goals
    cases hrules : Table.get? registry.namespaces (Rule.namespaceOf id) with
    | none => simp [hrules, Except.mapError] at h
    | some rules =>
      cases hd : Table.get? rules id with
      | none => simp [hrules, hd, Except.mapError] at h
      | some d' => simpa [hrules, hd, Except.mapError] using h

/-- A rule is run with the severity and the options of its entry, and with the default options of
the rule if the entry has none. -/
theorem RuleEntry.resolve_eq_ok {registry : Registry} {strict : Bool} {enabled : Names}
    {id : String} {entry : RuleEntry} {rule : ResolvedRule}
    (h : entry.resolve registry strict enabled id = .ok rule) :
    Severity.ofRaw? entry.severity = some rule.severity ∧ ∃ d,
      registry.lookup id enabled strict = .ok d ∧
        rule.options = entry.options.getD d.defaultOptions := by
  unfold RuleEntry.resolve at h
  cases hseverity : Severity.ofRaw? entry.severity with
  | none => simp [hseverity] at h
  | some severity =>
    cases hd : registry.lookup id enabled strict with
    | error error => simp [hseverity, hd, bind, Except.bind] at h
    | ok d =>
      cases hoptions : entry.options with
      | none =>
        simp only [hseverity, hd, hoptions, bind, Except.bind, pure, Except.pure,
          Except.ok.injEq] at h
        subst h
        exact ⟨rfl, d, rfl, rfl⟩
      | some options =>
        cases hcheck : d.schema.check options with
        | some fault => simp [hseverity, hd, hoptions, hcheck, bind, Except.bind] at h
        | none =>
          simp only [hseverity, hd, hoptions, hcheck, bind, Except.bind, pure, Except.pure,
            Except.ok.injEq] at h
          subst h
          exact ⟨rfl, d, rfl, rfl⟩

/-- The rules of a map stand in its order, each under its own name. -/
theorem RuleMap.resolve_eq_ok {registry : Registry} {strict : Bool} {enabled : Names}
    {rules : RuleMap} {resolved : Table ResolvedRule}
    (h : RuleMap.resolve registry strict enabled rules = .ok resolved) :
    Table.Matched (fun id entry rule => RuleEntry.resolve registry strict enabled id entry = .ok rule)
      rules resolved := by
  induction rules generalizing resolved with
  | nil =>
    cases h
    exact .nil
  | cons e rules ih =>
    obtain ⟨id, entry⟩ := e
    unfold RuleMap.resolve at h
    cases hrule : entry.resolve registry strict enabled id with
    | error error => simp [hrule, bind, Except.bind] at h
    | ok rule =>
      cases hrest : RuleMap.resolve registry strict enabled rules with
      | error error => simp [hrule, hrest, bind, Except.bind] at h
      | ok rest =>
        simp only [hrule, hrest, bind, Except.bind, pure, Except.pure, Except.ok.injEq] at h
        subst h
        exact .cons ⟨rfl, hrule⟩ (ih hrest)

/-! ### Configurations -/

theorem Engine.compute_eq_ok_iff {e : Engine} {base : Base} {path : String} {r : Resolved} :
    e.compute base path = .ok r ↔ ∃ candidate rules, base.apply path = .ok candidate ∧
      candidate.layer.resolveRules e.registry e.options.strictPlugins = .ok rules ∧
      r = { path
            fingerprint := base.resolutionFingerprint
            plugins := candidate.layer.plugins
            rules
            settings := candidate.layer.settings
            env := candidate.layer.env
            globals := candidate.layer.globals
            parser := candidate.layer.parser
            parserOptions := candidate.layer.parserOptions } := by
  unfold Engine.compute
  cases base.apply path with
  | error error => simp [bind, Except.bind]
  | ok candidate =>
    cases hrules : candidate.layer.resolveRules e.registry e.options.strictPlugins with
    | error error => simp [bind, Except.bind, hrules]
    | ok rules => simp [bind, Except.bind, pure, Except.pure, hrules, eq_comm]

/-- Of everything that is written by key the value written last counts, in the order of the layers:
of a rule the severity and the options of its last entry, and never the options of an earlier one;
of environments, globals, parser options and settings the last value, except under the keys that
are merged deeply; and the parser that was set last.  Rules stand in the order in which they are
first mentioned, and plugins are those of all layers. -/
theorem Engine.compute_last_wins {e : Engine} {deep : Names} {c : Chain} {b : Base} {path : String}
    {r : Resolved} (hbase : Base.ofChain deep c = .ok b) (hr : e.compute b path = .ok r) :
    (∀ id, (r.rule? id).isSome ↔ ∃ l ∈ c.layersFor path, id ∈ Table.keys l.rules) ∧
    (∀ id entry, Table.lastWritten? ((c.layersFor path).map Layer.rules) id = some entry →
      ∃ rule d, r.rule? id = some rule ∧ Severity.ofRaw? entry.severity = some rule.severity ∧
        e.registry.get? id = some d ∧ rule.options = entry.options.getD d.defaultOptions) ∧
    Table.keys r.rules =
      (Table.keys ((c.layersFor path).map Layer.rules).flatten).eraseDups ∧
    (∀ k, Table.get? r.env k = Table.lastWritten? ((c.layersFor path).map Layer.env) k) ∧
    (∀ k, Table.get? r.globals k = Table.lastWritten? ((c.layersFor path).map Layer.globals) k) ∧
    (∀ k, Table.get? r.parserOptions k =
      Table.lastWritten? ((c.layersFor path).map Layer.parserOptions) k) ∧
    (∀ k, k ∉ deep →
      Table.get? r.settings k = Table.lastWritten? ((c.layersFor path).map Layer.settings) k) ∧
    r.parser = ((c.layersFor path).filterMap Layer.parser).getLast? ∧
    ∀ x, x ∈ r.plugins ↔ ∃ l ∈ c.layersFor path, x ∈ l.plugins := by
  obtain ⟨candidate, rules, happly, hrules, rfl⟩ := Engine.compute_eq_ok_iff.1 hr
  have hlayer := Base.apply_ofChain hbase happly
  -- merging and overriding are one sequence of layers, in which rule maps are overlaid
  have hwritten : candidate.layer.rules =
      Table.written ((c.layersFor path).map Layer.rules) := by
    rw [hlayer, Layer.rules_mergeAll]
    rfl
  have hresolved := RuleMap.resolve_eq_ok hrules
  have hkeys : Table.keys rules =
      (Table.keys ((c.layersFor path).map Layer.rules).flatten).eraseDups := by
    rw [← hresolved.keys_eq, hwritten, Table.keys_written]
  refine ⟨fun id => ?_, fun id entry hentry => ?_, hkeys, fun k => ?_, fun k => ?_, fun k => ?_,
    fun k hk => ?_, ?_, fun x => ?_⟩
  · unfold Resolved.rule?
    rw [Table.isSome_get?_iff, ← hresolved.keys_eq, hwritten,
      ← Table.isSome_get?_iff, Table.get?_written, Table.isSome_lastWritten?_iff]
    simp
  · rw [← Table.get?_written, ← hwritten] at hentry
    obtain ⟨rule, hrule, hresolve⟩ := hresolved.exists_get? hentry
    obtain ⟨hseverity, d, hlookup, hoptions⟩ := RuleEntry.resolve_eq_ok hresolve
    exact ⟨rule, d, hrule, hseverity, Registry.get?_of_lookup hlookup, hoptions⟩
  · rw [hlayer, Layer.env_mergeAll]
    exact Table.get?_written _ k
  · rw [hlayer, Layer.get?_globals_mergeAll]
    simp [Table.get?]
  · rw [hlayer, Layer.get?_parserOptions_mergeAll]
    simp [Table.get?]
  · rw [hlayer, Layer.get?_settings_mergeAll deep {} _ hk]
    simp [Table.get?]
  · rw [hlayer, Layer.parser_mergeAll]
    simp
  · rw [hlayer, Layer.mem_plugins_mergeAll]
    simp

/-- A chain of two fragments, the second of which changes a rule for some paths and leaves its
options out. -/
def quotesChain : Chain where
  root := "app"
  fragments := [
    .ofDocument "base" {
      rules := [("quotes", ⟨.word "error", some [.str "single"]⟩), ("semi", ⟨.word "warn", none⟩)]
      env := [("node", true)] },
    .ofDocument "app" {
      env := [("node", false)]
      overrides := [{ files := .one "*.ts", rules := [("quotes", ⟨.word "warn", none⟩)] }] }]

/-- A built-in plugin with the rules of the chain. -/
def quotesPlugin : Manifest where
  rules := [("quotes", { defaultOptions := [.str "double"] }), ("semi", {})]

/-- The options of an earlier entry are not taken over. -/
theorem Engine.compute_quotes : ∃ (e : Engine) (b : Base) (r : Resolved),
    e.registry = Registry.ofManifests [quotesPlugin] ∧ Base.ofChain [] quotesChain = .ok b ∧
    e.compute b "a.ts" = .ok r ∧ Table.keys r.rules = ["quotes", "semi"] ∧
    (∃ rule, r.rule? "quotes" = some rule ∧ rule.severity = .warn ∧
      rule.options = [.str "double"]) ∧
    Table.get? r.env "node" = some false := by
  let e : Engine := ⟨"app", Registry.ofManifests [quotesPlugin], {}, {}, .broken "", .ofCapacity 1⟩
  have hok : ((Base.ofChain [] quotesChain).bind fun b => e.compute b "a.ts").isOk = true := by rfl
  cases hbase : Base.ofChain [] quotesChain with
  | error error => simp [hbase, Except.bind, Except.isOk, Except.toBool] at hok
  | ok b =>
    cases hr : e.compute b "a.ts" with
    | error error => simp [hbase, hr, Except.bind, Except.isOk, Except.toBool] at hok
    | ok r =>
      obtain ⟨-, hrule, hkeys, henv, -⟩ := Engine.compute_last_wins hbase hr
      obtain ⟨rule, d, hquotes, hseverity, hd, hoptions⟩ :=
        hrule "quotes" ⟨.word "warn", none⟩ (by rfl)
      have hd' : e.registry.get? "quotes" = some (quotesPlugin.descriptor "quotes"
          { defaultOptions := [.str "double"] }) := by rfl
      rw [hd', Option.some.injEq] at hd
      have hwarn : Severity.ofRaw? (.word "warn") = some .warn := by rfl
      refine ⟨e, b, r, rfl, rfl, hr, hkeys.trans (by rfl), ⟨rule, hquotes, ?_, ?_⟩,
        (henv "node").trans (by rfl)⟩
      · exact (Option.some.inj (hwarn.symm.trans hseverity)).symm
      · rw [hoptions, ← hd]
        rfl

end LintConfig
