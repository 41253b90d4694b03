import LintConfig.Engine
import LintConfig.Proofs.Rule.Name
import LintConfig.Proofs.Table

/-!
# What is found of registered plugins

A registry finds a rule by its text, which names the namespace to look in, and a preset by its
reference.  In a namespace the last declaration of a rule counts (`Registry.declared?_ofManifests`),
and so does the last preset of a reference (`Registry.presets_ofManifests`).  So what a plugin
registers is found as long as no later plugin declares it again, with two exceptions
(`Registry.finds_registered`): a rule whose names do not come back from its text, and a preset whose
reference a plugin of a nested namespace has too (`Nested`).
-/

namespace LintConfig

/-! ### Rules -/

namespace Manifest

/-- The declared rules by their identities. -/
def ruleTable (m : Manifest) : Table Descriptor := m.descriptors.map fun d => (d.id, d)

variable {m m' : Manifest} {name name' : String}

-- no `rfl` here: it would run the normal form of the plugin's name
@[simp] theorem descriptor_id (r : ManifestRule) :
    (m.descriptor name r).id = Rule.qualify m.ns name := by
  simp only [descriptor]

@[simp] theorem descriptor_ns (r : ManifestRule) : (m.descriptor name r).ns = m.ns := by
  simp only [descriptor]

theorem ruleTable_eq (m : Manifest) :
    m.ruleTable = m.rules.map fun e => (Rule.qualify m.ns e.1, m.descriptor e.1 e.2) := by
  simp only [ruleTable, descriptors, List.map_map, Function.comp_def, descriptor_id]

theorem keys_ruleTable (m : Manifest) :
    Table.keys m.ruleTable = (Table.keys m.rules).map (Rule.qualify m.ns) := by
  simp only [ruleTable_eq, Table.keys, List.map_map, Function.comp_def]

theorem get?_ruleTable (hnodup : (Table.keys m.rules).Nodup) {r : ManifestRule}
    (h : (name, r) ∈ m.rules) :
    Table.get? m.ruleTable.reverse (Rule.qualify m.ns name) = some (m.descriptor name r) := by
  refine Table.get?_of_mem ?_ (List.mem_reverse.2 ?_)
  · have hinj : Function.Injective (Rule.qualify m.ns) := fun _ _ heq => Rule.qualify_inj.1 heq
    rw [Table.keys, List.map_reverse, List.nodup_reverse, ← Table.keys, keys_ruleTable]
    exact hnodup.map hinj
  · rw [ruleTable_eq]
    exact List.mem_map.2 ⟨(name, r), h, by dsimp only⟩

end Manifest

namespace Registry

/-- What is registered under an identity in a namespace. -/
def declared? (registry : Registry) (ns id : String) : Option Descriptor :=
  (Table.get? registry.namespaces ns).bind fun rules => Table.get? rules id

theorem get?_eq_declared? (registry : Registry) (id : String) :
    registry.get? id = registry.declared? (Rule.namespaceOf id) id := rfl

theorem declared?_register (registry : Registry) (m : Manifest) (ns id : String) :
    (registry.register m).declared? ns id =
      if m.ns = ns then (Table.get? m.ruleTable.reverse id).or (registry.declared? ns id)
      else registry.declared? ns id := by
  have hadded (rules : Table Descriptor) :
      m.descriptors.foldl (fun acc d => Table.put acc d.id d) rules =
        Table.overlay rules m.ruleTable := by
    rw [Table.overlay, Manifest.ruleTable, List.foldl_map]
  unfold declared? register
  simp only [hadded, Table.get?_put]
  split_ifs with hns
  · subst hns
    rw [Option.bind_some, Table.get?_overlay]
    cases Table.get? registry.namespaces m.ns <;> rfl
  · rfl

/-- In a namespace the last declaration of an identity counts. -/
theorem declared?_ofManifests (ms : List Manifest) (ns id : String) :
    (ofManifests ms).declared? ns id =
      Table.lastWritten? ((ms.filter fun m => m.ns = ns).map Manifest.ruleTable) id := by
  unfold ofManifests
  induction ms using List.reverseRecOn with
  | nil => rfl
  | append_singleton ms m ih =>
    rw [List.foldl_concat, declared?_register, ih]
    unfold Table.lastWritten?
    split_ifs with hns <;> simp [hns, Table.get?_append]

/-- What is registered in a namespace is of that namespace. -/
theorem ns_of_declared? {ms : List Manifest} {ns id : String} {d : Descriptor}
    (h : (ofManifests ms).declared? ns id = some d) : d.ns = ns := by
  rw [declared?_ofManifests] at h
  obtain ⟨t, ht, hd⟩ := Table.exists_of_lastWritten? h
  obtain ⟨m, hm, rfl⟩ := List.mem_map.1 ht
  have hns : m.ns = ns := by simpa using (List.mem_filter.1 hm).2
  have hmem := List.mem_reverse.1 (Table.mem_of_get? hd)
  rw [Manifest.ruleTable_eq] at hmem
  obtain ⟨e, -, he⟩ := List.mem_map.1 hmem
  obtain ⟨-, rfl⟩ := Prod.mk.inj he
  rw [Manifest.descriptor_ns, hns]

/-- A rule that no later plugin declares again is what its namespace has under its identity. -/
theorem declared?_of_later {before after : List Manifest} {m : Manifest} {name : String}
    {r : ManifestRule} (hnodup : (Table.keys m.rules).Nodup) (hr : (name, r) ∈ m.rules)
    (hlater : ∀ m' ∈ after, m'.ns = m.ns → name ∉ Table.keys m'.rules) :
    (ofManifests (before ++ m :: after)).declared? m.ns (Rule.qualify m.ns name) =
      some (m.descriptor name r) := by
  rw [declared?_ofManifests, List.filter_append, List.filter_cons_of_pos (by simp), List.map_append,
    List.map_cons]
  refine Table.lastWritten?_of_later (Manifest.get?_ruleTable hnodup hr) ?_ _
  intro t ht hmem
  obtain ⟨m', hm', rfl⟩ := List.mem_map.1 ht
  obtain ⟨hm', hns⟩ := List.mem_filter.1 hm'
  have hns' : m'.ns = m.ns := by simpa using hns
  rw [Manifest.keys_ruleTable, hns'] at hmem
  obtain ⟨name', hname', heq⟩ := List.mem_map.1 hmem
  exact hlater m' hm' hns' (Rule.qualify_inj.1 heq ▸ hname')

/-- Such a rule is found by its identity exactly if its namespace comes back from it. -/
theorem get?_of_later {before after : List Manifest} {m : Manifest} {name : String}
    {r : ManifestRule} (hnodup : (Table.keys m.rules).Nodup) (hr : (name, r) ∈ m.rules)
    (hlater : ∀ m' ∈ after, m'.ns = m.ns → name ∉ Table.keys m'.rules) :
    (ofManifests (before ++ m :: after)).get? (Rule.qualify m.ns name) =
      some (m.descriptor name r) ↔ Rule.Addressable m.ns name := by
  rw [← Rule.namespaceOf_qualify_iff, get?_eq_declared?]
  constructor
  · exact fun h => (ns_of_declared? h).symm
  · intro hns
    rw [hns]
    exact declared?_of_later hnodup hr hlater

end Registry

/-! ### Presets -/

/-- A text is taken apart at two slashes only if what is between them moves from the end of one side
to the beginning of the other. -/
theorem append_slash_eq_iff {a b c d : String} : a ++ "/" ++ b = c ++ "/" ++ d ↔
    (a = c ∧ b = d) ∨ (∃ inner, c = a ++ "/" ++ inner ∧ b = inner ++ "/" ++ d) ∨
      ∃ inner, a = c ++ "/" ++ inner ∧ d = inner ++ "/" ++ b := by
  constructor
  · intro h
    have hchars : a.toList ++ '/' :: b.toList = c.toList ++ '/' :: d.toList := by
      simpa using congrArg String.toList h
    -- the shorter of the two first sides is the beginning of the other
    rcases List.append_eq_append_iff.1 hchars with ⟨between, hc, hb⟩ | ⟨between, ha, hd⟩
    · cases between with
      | nil =>
        refine .inl ⟨String.toList_inj.1 (by simpa using hc.symm), String.toList_inj.1 ?_⟩
        simpa using hb
      | cons x inner =>
        obtain ⟨rfl, hb⟩ := List.cons.inj hb
        refine .inr (.inl ⟨String.ofList inner, String.toList_inj.1 ?_, String.toList_inj.1 ?_⟩)
        · simpa using hc
        · simpa using hb
    · cases between with
      | nil =>
        refine .inl ⟨String.toList_inj.1 (by simpa using ha), String.toList_inj.1 ?_⟩
        simpa using hd.symm
      | cons x inner =>
        obtain ⟨rfl, hd⟩ := List.cons.inj hd
        refine .inr (.inr ⟨String.ofList inner, String.toList_inj.1 ?_, String.toList_inj.1 ?_⟩)
        · simpa using ha
        · simpa using hd
  · rintro (⟨rfl, rfl⟩ | ⟨inner, rfl, rfl⟩ | ⟨inner, rfl, rfl⟩)
    · rfl
    · simp only [String.append_assoc]
    · simp only [String.append_assoc]

/-- A namespace goes on with a slash and more, and the preset of the shorter one is named by this
rest, a slash and the name of the other preset. -/
def Nested (ns name ns' name' : String) : Prop :=
  ns ≠ "" ∧ ∃ inner, ns' = ns ++ "/" ++ inner ∧ name = inner ++ "/" ++ name'

theorem Nested.ne {ns name ns' name' : String} (h : Nested ns name ns' name') : ns ≠ ns' := by
  obtain ⟨-, inner, rfl, -⟩ := h
  intro heq
  have hlength := congrArg (fun s => s.toList.length) heq
  simp at hlength

/-- Presets without slashes in their names are never nested. -/
theorem Nested.slash_mem {ns name ns' name' : String} (h : Nested ns name ns' name') :
    '/' ∈ name.toList := by
  obtain ⟨-, inner, -, rfl⟩ := h
  simp

namespace Manifest

variable {m m' : Manifest} {name name' : String}

theorem presetReference_builtin (h : m.ns = "") (name : String) :
    m.presetReference name = "eslint:" ++ name := by
  rw [presetReference, if_pos (by simpa using h)]

theorem presetReference_of_ne (h : m.ns ≠ "") (name : String) :
    m.presetReference name = "plugin:" ++ m.ns ++ "/" ++ name := by
  rw [presetReference, if_neg (by simpa using h)]

/-- A preset of a plugin and a built-in one have no reference in common. -/
theorem presetReference_ne (h : m.ns = "") (h' : m'.ns ≠ "") :
    m.presetReference name ≠ m'.presetReference name' := by
  rw [presetReference_builtin h, presetReference_of_ne h']
  intro heq
  have hhead := congrArg (fun s => s.toList.head?) heq
  simp at hhead

/-- Two presets have one reference only if they are one, or if their namespaces are nested. -/
theorem presetReference_eq_iff : m.presetReference name = m'.presetReference name' ↔
    (m.ns = m'.ns ∧ name = name') ∨ Nested m.ns name m'.ns name' ∨
      Nested m'.ns name' m.ns name := by
  have hempty {a b inner : String} (ha : a = "") : a ≠ b ++ "/" ++ inner := by
    rintro rfl
    simp at ha
  by_cases h : m.ns = "" <;> by_cases h' : m'.ns = ""
  · rw [presetReference_builtin h, presetReference_builtin h', ← String.toList_inj]
    simp [Nested, h, h', String.toList_inj]
  · refine iff_of_false (presetReference_ne h h') ?_
    rintro (⟨heq, -⟩ | ⟨hne, -⟩ | ⟨-, inner, heq, -⟩)
    · exact h' (heq.symm.trans h)
    · exact hne h
    · exact hempty h heq
  · refine iff_of_false (presetReference_ne h' h).symm ?_
    rintro (⟨heq, -⟩ | ⟨-, inner, heq, -⟩ | ⟨hne, -⟩)
    · exact h (heq.trans h')
    · exact hempty h' heq
    · exact hne h'
  · rw [presetReference_of_ne h, presetReference_of_ne h', String.append_assoc, String.append_assoc,
      String.append_assoc, String.append_assoc, String.append_right_inj, ← String.append_assoc,
      ← String.append_assoc, append_slash_eq_iff]
    simp only [Nested, h, h', ne_eq, not_false_eq_true, true_and]

/-- In one namespace every preset has a reference of its own. -/
theorem presetReference_inj (h : m.ns = m'.ns) :
    m.presetReference name = m'.presetReference name' ↔ name = name' := by
  rw [presetReference_eq_iff]
  refine ⟨?_, fun heq => .inl ⟨h, heq⟩⟩
  rintro (⟨-, heq⟩ | hnested | hnested)
  · exact heq
  · exact absurd h hnested.ne
  · exact absurd h.symm hnested.ne

theorem keys_presets (m : Manifest) :
    Table.keys m.presets = (Table.keys m.configs).map m.presetReference := by
  simp [presets, Table.keys]

theorem get?_presets (hnodup : (Table.keys m.configs).Nodup) {d : Document}
    (h : (name, d) ∈ m.configs) :
    Table.get? m.presets.reverse (m.presetReference name) = some d := by
  have hinj : Function.Injective m.presetReference := fun _ _ => (presetReference_inj rfl).1
  refine Table.get?_of_mem ?_ (List.mem_reverse.2 (List.mem_map.2 ⟨(name, d), h, rfl⟩))
  rw [Table.keys, List.map_reverse, List.nodup_reverse, ← Table.keys, keys_presets]
  exact hnodup.map hinj

theorem mem_keys_presets {reference : String} : reference ∈ Table.keys m.presets ↔
    ∃ name ∈ Table.keys m.configs, m.presetReference name = reference := by
  rw [keys_presets, List.mem_map]

end Manifest

namespace Registry

/-- The source of presets, which an engine asks first. -/
def presetSource (registry : Registry) : Source := .memory Engine.presetsName registry.presets

/-- Of every reference the last preset counts. -/
theorem presets_ofManifests (ms : List Manifest) :
    (ofManifests ms).presets = Table.written (ms.map Manifest.presets) := by
  unfold ofManifests
  induction ms using List.reverseRecOn with
  | nil => rfl
  | append_singleton ms m ih =>
    rw [List.foldl_concat, register, ih, Table.written, Table.written, ← Table.overlay_append]
    simp

theorem read_presetSource {ms : List Manifest} {reference : String} {d : Document}
    (h : Table.lastWritten? (ms.map Manifest.presets) reference = some d) (files : Files.Tree) :
    (ofManifests ms).presetSource.read files reference = .ok d := by
  rw [← Table.get?_written, ← presets_ofManifests] at h
  simp only [presetSource, Source.read, h]

section Presets

variable {before after : List Manifest} {m : Manifest} {name : String} {d : Document}

/-- A preset whose reference no later plugin has is what the reference leads to. -/
theorem read_preset_of_later (hnodup : (Table.keys m.configs).Nodup) (hd : (name, d) ∈ m.configs)
    (hlater : ∀ m' ∈ after, m.presetReference name ∉ Table.keys m'.presets) (files : Files.Tree) :
    (ofManifests (before ++ m :: after)).presetSource.read files (m.presetReference name) =
      .ok d := by
  refine read_presetSource ?_ files
  rw [List.map_append, List.map_cons]
  exact Table.lastWritten?_of_later (Manifest.get?_presets hnodup hd) (by simpa using hlater) _

/-- A reference that later plugins have too leads to the preset of one of them. -/
theorem exists_read_preset (hlater : ∃ m' ∈ after, m.presetReference name ∈ Table.keys m'.presets) :
    ∃ m' ∈ after, ∃ name' d', (name', d') ∈ m'.configs ∧
      m'.presetReference name' = m.presetReference name ∧ ∀ files,
        (ofManifests (before ++ m :: after)).presetSource.read files (m.presetReference name) =
          .ok d' := by
  have hsome : (Table.lastWritten? (after.map Manifest.presets) (m.presetReference name)).isSome := by
    rw [Table.isSome_lastWritten?_iff]
    obtain ⟨m', hm', hmem⟩ := hlater
    exact ⟨_, List.mem_map_of_mem hm', hmem⟩
  obtain ⟨d', hd'⟩ := Option.isSome_iff_exists.1 hsome
  obtain ⟨t, ht, hget⟩ := Table.exists_of_lastWritten? hd'
  obtain ⟨m', hm', rfl⟩ := List.mem_map.1 ht
  obtain ⟨⟨name', d''⟩, hconfig, heq⟩ :=
    List.mem_map.1 (List.mem_reverse.1 (Table.mem_of_get? hget))
  obtain ⟨hreference, rfl⟩ := Prod.mk.inj heq
  refine ⟨m', hm', name', d'', hconfig, hreference, read_presetSource ?_⟩
  rw [← List.singleton_append, ← List.append_assoc, List.map_append, Table.lastWritten?_append, hd',
    Option.some_or]

end Presets

/-- What a plugin registers is found, as long as no later plugin declares it again.  A rule is found
by its text exactly if its namespace comes back from it.  A preset is read by its reference, unless
a later plugin of a nested namespace has a preset of the same reference: then the reference leads to
such a preset. -/
theorem finds_registered {before after : List Manifest} {m : Manifest}
    (hrules : (Table.keys m.rules).Nodup) (hconfigs : (Table.keys m.configs).Nodup) :
    (∀ name r, (name, r) ∈ m.rules →
      (∀ m' ∈ after, m'.ns = m.ns → name ∉ Table.keys m'.rules) →
      ((ofManifests (before ++ m :: after)).get? (m.descriptor name r).id =
        some (m.descriptor name r) ↔ Rule.Addressable m.ns name)) ∧
    ∀ name d, (name, d) ∈ m.configs →
      (∀ m' ∈ after, m'.ns = m.ns → name ∉ Table.keys m'.configs) →
      ((∀ m' ∈ after, ∀ name' ∈ Table.keys m'.configs,
          ¬ Nested m.ns name m'.ns name' ∧ ¬ Nested m'.ns name' m.ns name) →
        ∀ files, (ofManifests (before ++ m :: after)).presetSource.read files
          (m.presetReference name) = .ok d) ∧
      ((∃ m' ∈ after, ∃ name' ∈ Table.keys m'.configs,
          Nested m.ns name m'.ns name' ∨ Nested m'.ns name' m.ns name) →
        ∃ m' ∈ after, m'.ns ≠ m.ns ∧ ∃ name' d', (name', d') ∈ m'.configs ∧
          m'.presetReference name' = m.presetReference name ∧ ∀ files,
            (ofManifests (before ++ m :: after)).presetSource.read files
              (m.presetReference name) = .ok d') := by
  refine ⟨fun name r hr hlater => ?_, fun name d hd hlater => ⟨fun hnested files => ?_, ?_⟩⟩
  · rw [Manifest.descriptor_id]
    exact get?_of_later hrules hr hlater
  · refine read_preset_of_later hconfigs hd (fun m' hm' hmem => ?_) files
    obtain ⟨name', hname', heq⟩ := Manifest.mem_keys_presets.1 hmem
    rcases Manifest.presetReference_eq_iff.1 heq with ⟨hns, rfl⟩ | hnest | hnest
    · exact hlater m' hm' hns hname'
    · exact (hnested m' hm' name' hname').2 hnest
    · exact (hnested m' hm' name' hname').1 hnest
  · rintro ⟨m', hm', name', hname', hnest⟩
    have heq := Manifest.presetReference_eq_iff.2 (.inr hnest)
    have hmem := Manifest.mem_keys_presets.2 ⟨name', hname', heq.symm⟩
    obtain ⟨m'', hm'', name'', d'', hd'', heq'', hread⟩ :=
      @exists_read_preset before after m name ⟨m', hm', hmem⟩
    refine ⟨m'', hm'', fun hns => ?_, name'', d'', hd'', heq'', hread⟩
    obtain rfl := (Manifest.presetReference_inj hns).1 heq''
    exact hlater m'' hm'' hns (List.mem_map_of_mem (f := Prod.fst) hd'')

/-- A plugin of a scope, with a slash in the names of a rule and of a preset. -/
def scopePlugin : Manifest where
  plugin := "@next/eslint-plugin"
  rules := [("no-img", {}), ("app/no-img", {})]
  configs := [("recommended", {}), ("next/recommended", {})]

/-- A plugin of that scope with a name of its own. -/
def namedPlugin : Manifest where
  plugin := "@next/eslint-plugin-next"
  rules := [("no-img", {})]
  configs := [("recommended", { parser := some "espree" })]

theorem ns_scopePlugin : scopePlugin.ns = "@next" := by decide +kernel

theorem ns_namedPlugin : namedPlugin.ns = "@next/next" := by decide +kernel

theorem nodup_scopePlugin :
    (Table.keys scopePlugin.rules).Nodup ∧ (Table.keys scopePlugin.configs).Nodup := by decide

theorem notMem_of_namedPlugin (names : Manifest → List String) (name : String) :
    ∀ m ∈ [namedPlugin], m.ns = scopePlugin.ns → name ∉ names m := by
  rw [List.forall_mem_singleton, ns_scopePlugin, ns_namedPlugin]
  intro h
  exact absurd h (by decide)

theorem nested_scopePlugin :
    Nested scopePlugin.ns "next/recommended" namedPlugin.ns "recommended" := by
  rw [ns_scopePlugin, ns_namedPlugin]
  exact ⟨by decide, "next", by decide, by decide⟩

/-- The first rule of the scope is found and the second one is not; the first preset is read, and in
place of the second one that of the other plugin. -/
theorem finds_registered_next :
    (ofManifests [scopePlugin, namedPlugin]).get? (scopePlugin.descriptor "no-img" {}).id =
      some (scopePlugin.descriptor "no-img" {}) ∧
    (ofManifests [scopePlugin, namedPlugin]).get? (scopePlugin.descriptor "app/no-img" {}).id ≠
      some (scopePlugin.descriptor "app/no-img" {}) ∧
    (ofManifests [scopePlugin, namedPlugin]).presetSource.read default
      (scopePlugin.presetReference "recommended") = .ok {} ∧
    ∃ name d, (name, d) ∈ namedPlugin.configs ∧
      (ofManifests [scopePlugin, namedPlugin]).presetSource.read default
        (scopePlugin.presetReference "next/recommended") = .ok d := by
  obtain ⟨hrules, hpresets⟩ := @finds_registered [] [namedPlugin] scopePlugin nodup_scopePlugin.1
    nodup_scopePlugin.2
  have hscope : scopePlugin.ns.toList.head? = some '@' := by rw [ns_scopePlugin]; decide
  have hfound := hrules "no-img" {} (by simp [scopePlugin]) (notMem_of_namedPlugin _ _)
  have hlost := hrules "app/no-img" {} (by simp [scopePlugin]) (notMem_of_namedPlugin _ _)
  have hread := (hpresets "recommended" {} (by simp [scopePlugin]) (notMem_of_namedPlugin _ _)).1
  have hother := (hpresets "next/recommended" {} (by simp [scopePlugin])
    (notMem_of_namedPlugin _ _)).2
  refine ⟨hfound.2 (.inScope hscope (by decide)), fun h => ?_, hread ?_ default, ?_⟩
  · have hslash := hlost.1 h
    rw [Rule.addressable_iff_of_ne (by rw [ns_scopePlugin]; decide), if_pos hscope] at hslash
    exact hslash (by decide)
  · rintro m' hm' name' hname'
    obtain rfl := List.mem_singleton.1 hm'
    obtain rfl : name' = "recommended" := List.mem_singleton.1 hname'
    exact ⟨fun h => absurd h.slash_mem (by decide), fun h => absurd h.slash_mem (by decide)⟩
  · obtain ⟨m', hm', -, name', d', hd', -, hother⟩ := hother ⟨namedPlugin, List.mem_singleton.2 rfl,
      "recommended", List.mem_singleton.2 rfl, .inl nested_scopePlugin⟩
    obtain rfl := List.mem_singleton.1 hm'
    exact ⟨name', d', hd', hother default⟩

/-- A rule of a scope with a slash in its name is not found by its text, and a preset with a slash in
its name gives way to one of a namespace nested in its own. -/
theorem not_finds_registered :
    (¬ ∀ (before after : List Manifest) (m : Manifest), (Table.keys m.rules).Nodup →
      ∀ name r, (name, r) ∈ m.rules → (∀ m' ∈ after, m'.ns = m.ns → name ∉ Table.keys m'.rules) →
        (ofManifests (before ++ m :: after)).get? (m.descriptor name r).id =
          some (m.descriptor name r)) ∧
    ¬ ∀ (before after : List Manifest) (m : Manifest), (Table.keys m.configs).Nodup →
      ∀ name d, (name, d) ∈ m.configs →
        (∀ m' ∈ after, m'.ns = m.ns → name ∉ Table.keys m'.configs) →
        ∀ files, (ofManifests (before ++ m :: after)).presetSource.read files
          (m.presetReference name) = .ok d := by
  constructor
  · intro h
    have hfound := h [] [namedPlugin] scopePlugin nodup_scopePlugin.1 "app/no-img" {}
      (by simp [scopePlugin]) (notMem_of_namedPlugin _ _)
    have hnone : (ofManifests [scopePlugin, namedPlugin]).get?
        (scopePlugin.descriptor "app/no-img" {}).id = none := by rfl
    exact absurd (hnone.symm.trans hfound) (by simp)
  · intro h
    have hread := h [] [namedPlugin] scopePlugin nodup_scopePlugin.2 "next/recommended" {}
      (by simp [scopePlugin]) (notMem_of_namedPlugin _ _) default
    have hother : (ofManifests [scopePlugin, namedPlugin]).presetSource.read default
        (scopePlugin.presetReference "next/recommended") = .ok { parser := some "espree" } := by rfl
    have hparser := congrArg Document.parser (Except.ok.inj (hother.symm.trans hread))
    exact absurd hparser (by simp)

end Registry

end LintConfig
