import LintConfig.Plugin.Manifest
import LintConfig.Proofs.Decode
import LintConfig.Proofs.Setting

/-!
# Documents and manifests read back

What was read from any node is read back from its written form, value for value and key for key:
settings at every depth, rule entries, override blocks, documents, and manifests with their
presets.  The written form leaves out what is empty, and a field that is left out is read as empty,
so nothing is lost (`ofJson_toJson`).
-/

namespace LintConfig

open Decode Record

/-! ### Settings -/

namespace Setting

theorem itemsOf?_ofItems {ss : List Setting} (h : ∀ s ∈ ss, ofNode? (.ofJson s.toJson) = some s) :
    itemsOf? (Node.ofItems (itemsJson ss)) = some ss := by
  induction ss with
  | nil => rfl
  | cons s ss ih =>
    rw [itemsJson, Node.ofItems, itemsOf?, h s List.mem_cons_self,
      ih fun t ht => h t (List.mem_cons_of_mem s ht)]
    rfl

theorem entriesOf?_ofMembers {es : List (String × Setting)}
    (h : ∀ e ∈ es, ofNode? (.ofJson e.2.toJson) = some e.2) :
    entriesOf? (Node.ofMembers (entriesJson es)) = some es := by
  induction es with
  | nil => rfl
  | cons e es ih =>
    rw [entriesJson, Node.ofMembers, entriesOf?, h e List.mem_cons_self,
      ih fun f hf => h f (List.mem_cons_of_mem e hf)]
    rfl

theorem ofNode?_toJson_ofAtom? {a : Atom} {s : Setting} (h : ofAtom? a = some s) :
    ofNode? (.ofJson s.toJson) = some s := by
  cases a <;> cases h <;> rfl

mutual

theorem ofNode?_toJson : ∀ (n : Node) (s : Setting), ofNode? n = some s →
    ofNode? (.ofJson s.toJson) = some s
  | .null, s, h => by cases h
  | .bool b, s, h => by cases h; rfl
  | .num n, s, h => by cases h; rfl
  | .str t, s, h => by cases h; rfl
  | .scalar c, s, h => by
    obtain ⟨a, -, ha⟩ := Option.bind_eq_some_iff.1 h
    exact ofNode?_toJson_ofAtom? ha
  | .seq items, s, h => by
    obtain ⟨ss, hss, rfl⟩ := Option.map_eq_some_iff.1 h
    exact congrArg (Option.map Setting.list)
      (itemsOf?_ofItems (ofNode?_toJson_items items ss hss))
  | .map entries, s, h => by
    obtain ⟨es, hes, rfl⟩ := Option.map_eq_some_iff.1 h
    have hrecover : ∀ e ∈ Table.ofEntries es, ofNode? (.ofJson e.2.toJson) = some e.2 := fun e he =>
      ofNode?_toJson_entries entries es hes e (Table.mem_of_mem_ofEntries he)
    rw [toJson, Node.ofJson, ofNode?, entriesOf?_ofMembers hrecover, Option.map_some,
      Table.ofEntries_eq_self (Table.nodup_keys_ofEntries es)]
  | .tagged n, s, h => by cases h
  | .unreadable, s, h => by cases h

theorem ofNode?_toJson_items : ∀ (ns : List Node) (ss : List Setting), itemsOf? ns = some ss →
    ∀ s ∈ ss, ofNode? (.ofJson s.toJson) = some s
  | [], ss, h => by
    cases h
    simp
  | n :: ns, ss, h => by
    obtain ⟨s, hs, h⟩ := Option.bind_eq_some_iff.1 h
    obtain ⟨rest, hrest, h⟩ := Option.bind_eq_some_iff.1 h
    cases h
    intro t ht
    rcases List.mem_cons.1 ht with rfl | ht
    · exact ofNode?_toJson n t hs
    · exact ofNode?_toJson_items ns rest hrest t ht

theorem ofNode?_toJson_entries : ∀ (es : List (Node × Node)) (l : List (String × Setting)),
    entriesOf? es = some l → ∀ e ∈ l, ofNode? (.ofJson e.2.toJson) = some e.2
  | [], l, h => by
    cases h
    simp
  | (k, v) :: es, l, h => by
    obtain ⟨key, -, h⟩ := Option.bind_eq_some_iff.1 h
    obtain ⟨s, hs, h⟩ := Option.bind_eq_some_iff.1 h
    obtain ⟨rest, hrest, h⟩ := Option.bind_eq_some_iff.1 h
    cases h
    intro e he
    rcases List.mem_cons.1 he with rfl | he
    · exact ofNode?_toJson v s hs
    · exact ofNode?_toJson_entries es rest hrest e he

end

theorem roundTrips : RoundTrips setting toJson := by
  intro n s h
  unfold setting at h
  split at h
  next t ht =>
    obtain rfl := Except.ok.inj h
    rw [Recovers, setting, ofNode?_toJson n t ht]
  next => cases h

end Setting

theorem Settings.roundTrips : RoundTrips Settings.decode Settings.toJson := by
  intro n t h
  have hrecovers := Setting.roundTrips.table n t h
  rwa [Recovers, Settings.toJson, Setting.entriesJson_eq_mapValues]

/-! ### Lists of texts and rule entries -/

theorem recovers_strings (ss : List String) : Recovers (list string) .strings ss :=
  recovers_list fun s _ => recovers_string s

theorem OneOrMany.recovers (o : OneOrMany) : Recovers OneOrMany.decode OneOrMany.toJson o := by
  cases o with
  | one s => rfl
  | many ss =>
    have htexts (ss : List String) : Setting.itemsOf? (Node.ofItems (ss.map .str)) =
        some (ss.map Setting.str) ∧ (ss.map Setting.str).mapM Setting.str? = some ss := by
      induction ss with
      | nil => exact ⟨rfl, rfl⟩
      | cons s ss ih =>
        rw [List.map_cons, List.map_cons, Node.ofItems, Setting.itemsOf?, ih.1, List.mapM_cons, ih.2]
        exact ⟨rfl, rfl⟩
    obtain ⟨hitems, hmap⟩ := htexts ss
    rw [Recovers, toJson, Json.strings, Node.ofJson, decode, Setting.ofNode?, hitems]
    simp only [Option.map_some, hmap]

theorem OneOrMany.toJson_ne_null (o : OneOrMany) : o.toJson ≠ .null := by
  cases o <;> simp [toJson, Json.strings]

theorem OneOrMany.eq_of_isEmpty {o : OneOrMany} (h : o.isEmpty = true) : o = .many [] := by
  cases o with
  | one s => cases h
  | many ss => rw [List.isEmpty_iff.1 h]

/-- An entry with options is written like the setting that it was read from. -/
theorem RuleEntry.roundTrips : RoundTrips RuleEntry.decode RuleEntry.toJson := by
  intro n e h
  unfold RuleEntry.decode at h
  split at h
  next s hs =>
    have hsetting : decode (.ofJson s.toJson) = .ok e := by
      rw [decode, Setting.ofNode?_toJson n s hs]
      exact h
    cases s with
    | num n =>
      obtain rfl := Except.ok.inj h
      exact hsetting
    | str word =>
      obtain rfl := Except.ok.inj h
      exact hsetting
    | list items =>
      cases items with
      | nil => cases h
      | cons s rest =>
        cases s with
        | num n =>
          obtain rfl := Except.ok.inj h
          cases rest with
          | nil => rfl
          | cons => exact hsetting
        | str word =>
          obtain rfl := Except.ok.inj h
          cases rest with
          | nil => rfl
          | cons => exact hsetting
        | bool b => cases h
        | list items => cases h
        | map entries => cases h
    | bool b => cases h
    | map entries => cases h
  next => cases h

theorem RuleMap.roundTrips : RoundTrips RuleMap.decode RuleMap.toJson := RuleEntry.roundTrips.table

theorem roundTrips_environment : RoundTrips (table boolean) Written.environment :=
  (RoundTrips.of_recovers recovers_boolean).table

/-! ### Override blocks -/

namespace OverrideBlock

/-- The tables of a block are read back; its other fields always are. -/
structure Recoverable (b : OverrideBlock) : Prop where
  rules : Recovers RuleMap.decode RuleMap.toJson b.rules
  settings : Recovers Settings.decode Settings.toJson b.settings
  env : Recovers (table boolean) Written.environment b.env
  globals : Recovers Settings.decode Settings.toJson b.globals
  parserOptions : Recovers Settings.decode Settings.toJson b.parserOptions

theorem Recoverable.blank : Recoverable {} := ⟨rfl, rfl, rfl, rfl, rfl⟩

theorem Recoverable.read {name : String} {n : Node} {b c : OverrideBlock} (h : b.Recoverable)
    (hread : record.read name n b = .ok c) : c.Recoverable := by
  -- one case for each field, in the order of the record, and one for any other name
  simp only [record] at hread
  split at hread
  case h_10 => exact Except.ok.inj hread ▸ h
  all_goals obtain ⟨v, hv, rfl⟩ := exists_of_read hread
  · exact { h with }
  · exact { h with }
  · exact { h with }
  · exact { h with rules := RuleMap.roundTrips n v hv }
  · exact { h with settings := Settings.roundTrips n v hv }
  · exact { h with env := roundTrips_environment n v hv }
  · exact { h with globals := Settings.roundTrips n v hv }
  · exact { h with }
  · exact { h with parserOptions := Settings.roundTrips n v hv }

theorem Recoverable.recovers {b : OverrideBlock} (h : b.Recoverable) (shape : Shape) :
    Recovers (record.decode shape) toJson b := by
  have hfills := (Fills.nil record)
    |>.always "files" (fun _ => rfl) b.files.recovers
    |>.ifPresent "excludedFiles" (fun _ => rfl) OneOrMany.recovers OneOrMany.toJson_ne_null
      b.excludedFiles rfl
    |>.unlessEmpty "plugins" (fun _ => rfl) (recovers_strings b.plugins) rfl
    |>.unlessEmpty "rules" (fun _ => rfl) h.rules rfl
    |>.unlessEmpty "settings" (fun _ => rfl) h.settings rfl
    |>.unlessEmpty "env" (fun _ => rfl) h.env rfl
    |>.unlessEmpty "globals" (fun _ => rfl) h.globals rfl
    |>.ifPresent "parser" (fun _ => rfl) recovers_string (fun _ => by simp) b.parser rfl
    |>.unlessEmpty "parserOptions" (fun _ => rfl) h.parserOptions rfl
  exact decode_ofMembers (by decide) hfills (by simp [record, Table.keys]) shape

theorem roundTrips (shape : Shape) : RoundTrips (record.decode shape) toJson :=
  Record.roundTrips Recoverable.blank Recoverable.read fun h => h.recovers shape

end OverrideBlock

/-! ### Documents -/

namespace Document

variable {shape : Shape}

/-- The tables and the overrides of a document are read back; its other fields always are. -/
structure Recoverable (shape : Shape) (d : Document) : Prop where
  rules : Recovers RuleMap.decode RuleMap.toJson d.rules
  settings : Recovers Settings.decode Settings.toJson d.settings
  env : Recovers (table boolean) Written.environment d.env
  globals : Recovers Settings.decode Settings.toJson d.globals
  parserOptions : Recovers Settings.decode Settings.toJson d.parserOptions
  overrides : Recovers (list (OverrideBlock.record.decode shape))
    (fun bs => .arr (bs.map OverrideBlock.toJson)) d.overrides

theorem Recoverable.blank : Recoverable shape {} := ⟨rfl, rfl, rfl, rfl, rfl, rfl⟩

theorem Recoverable.read {name : String} {n : Node} {d e : Document} (h : d.Recoverable shape)
    (hread : (record shape).read name n d = .ok e) : e.Recoverable shape := by
  simp only [record] at hread
  split at hread
  case h_11 => exact Except.ok.inj hread ▸ h
  all_goals obtain ⟨v, hv, rfl⟩ := exists_of_read hread
  · exact { h with }
  · exact { h with }
  · exact { h with rules := RuleMap.roundTrips n v hv }
  · exact { h with settings := Settings.roundTrips n v hv }
  · exact { h with env := roundTrips_environment n v hv }
  · exact { h with globals := Settings.roundTrips n v hv }
  · exact { h with }
  · exact { h with parserOptions := Settings.roundTrips n v hv }
  · exact { h with }
  · exact { h with overrides := (OverrideBlock.roundTrips shape).list n v hv }

theorem Recoverable.recovers {d : Document} (h : d.Recoverable shape) :
    Recovers (Document.decode shape) toJson d := by
  have hbases : Fills (record shape) ["extends"]
      (if d.bases.isEmpty then [] else [("extends", d.bases.toJson)]) {} { bases := d.bases } := by
    split_ifs with hempty
    · have hnone : d.bases = .many [] := OneOrMany.eq_of_isEmpty hempty
      rw [hnone]
      exact (Fills.nil (record shape)).skip "extends"
    · exact (Fills.nil (record shape)).always "extends" (fun _ => rfl) d.bases.recovers
  have hfills := hbases
    |>.unlessEmpty "plugins" (fun _ => rfl) (recovers_strings d.plugins) rfl
    |>.unlessEmpty "rules" (fun _ => rfl) h.rules rfl
    |>.unlessEmpty "settings" (fun _ => rfl) h.settings rfl
    |>.unlessEmpty "env" (fun _ => rfl) h.env rfl
    |>.unlessEmpty "globals" (fun _ => rfl) h.globals rfl
    |>.ifPresent "parser" (fun _ => rfl) recovers_string (fun _ => by simp) d.parser rfl
    |>.unlessEmpty "parserOptions" (fun _ => rfl) h.parserOptions rfl
    |>.unlessEmpty "ignorePatterns" (fun _ => rfl) (recovers_strings d.ignorePatterns) rfl
    |>.unlessEmpty "overrides" (fun _ => rfl) h.overrides rfl
  exact decode_ofMembers (by simp [record]) hfills (by simp [record]) shape

theorem roundTrips (shape : Shape) : RoundTrips (Document.decode shape) toJson :=
  Record.roundTrips Recoverable.blank Recoverable.read Recoverable.recovers

end Document

/-! ### Manifests -/

namespace OptionSchema

variable {shape : Shape}

/-- The bounds of a schema are in range. -/
structure Recoverable (s : OptionSchema) : Prop where
  minItems : Recovers natural .nat s.minItems
  maxItems : ∀ n, s.maxItems = some n → Recovers natural .nat n

theorem Recoverable.blank : Recoverable {} := ⟨rfl, by simp⟩

theorem Recoverable.read {name : String} {n : Node} {s t : OptionSchema} (h : s.Recoverable)
    (hread : (record shape).read name n s = .ok t) : t.Recoverable := by
  simp only [record] at hread
  split at hread
  case h_4 => exact Except.ok.inj hread ▸ h
  all_goals obtain ⟨v, hv, rfl⟩ := exists_of_read hread
  · exact { h with minItems := roundTrips_natural n v hv }
  · refine { h with maxItems := fun most hmost => ?_ }
    obtain rfl : v = some most := hmost
    obtain ⟨n, hn⟩ := exists_of_optional hv
    exact roundTrips_natural n most hn
  · exact { h with }

theorem toJson_eq_elim (s : OptionSchema) : s.toJson = .obj [("minItems", .nat s.minItems),
    ("maxItems", s.maxItems.elim .null .nat), ("items", .strings (s.items.map OptionShape.word))] := by
  unfold toJson
  cases s.maxItems <;> rfl

theorem Recoverable.recovers {s : OptionSchema} (h : s.Recoverable) :
    Recovers (OptionSchema.decode shape) toJson s := by
  have hmost : Recovers (optional natural) (fun m => m.elim .null .nat) s.maxItems := by
    cases hs : s.maxItems with
    | none => rfl
    | some n => exact optional_eq (h.maxItems n hs) (by simp [Json.nat])
  have hitems : Recovers (list (variant shape (OptionShape.all.map OptionShape.word)
      OptionShape.ofWord?)) (fun items => .strings (items.map OptionShape.word)) s.items := by
    have hword (v : OptionShape) : OptionShape.ofWord? v.word = some v := by cases v <;> decide
    have hlist := recovers_list fun v (_ : v ∈ s.items) =>
      recovers_variant shape (OptionShape.all.map OptionShape.word) hword v
    rw [Recovers, Json.strings, List.map_map]
    exact hlist
  have hfills := (Fills.nil (record shape))
    |>.always "minItems" (fun _ => rfl) h.minItems
    |>.always "maxItems" (fun _ => rfl) hmost
    |>.always "items" (fun _ => rfl) hitems
  rw [Recovers, toJson_eq_elim]
  exact decode_ofMembers (by simp [record]) hfills (by simp [record]) shape

theorem roundTrips (shape : Shape) : RoundTrips (OptionSchema.decode shape) toJson :=
  Record.roundTrips Recoverable.blank Recoverable.read Recoverable.recovers

end OptionSchema

namespace ManifestRule

variable {shape : Shape}

/-- The schema and the default options of a declared rule are read back; its severity always is. -/
structure Recoverable (shape : Shape) (r : ManifestRule) : Prop where
  optionSchema : Recovers (OptionSchema.decode shape) OptionSchema.toJson r.optionSchema
  defaultOptions : Recovers (list setting) (fun ss => .arr (Setting.itemsJson ss)) r.defaultOptions

theorem Recoverable.blank : Recoverable shape {} := ⟨by rfl, by rfl⟩

theorem Recoverable.read {name : String} {n : Node} {r s : ManifestRule} (h : r.Recoverable shape)
    (hread : (record shape).read name n r = .ok s) : s.Recoverable shape := by
  simp only [record] at hread
  split at hread
  case h_4 => exact Except.ok.inj hread ▸ h
  all_goals obtain ⟨v, hv, rfl⟩ := exists_of_read hread
  · exact { h with }
  · exact { h with optionSchema := OptionSchema.roundTrips shape n v hv }
  · have hlist := Setting.roundTrips.list n v hv
    simp only [← Setting.itemsJson_eq_map] at hlist
    exact { h with defaultOptions := hlist }

theorem Recoverable.recovers {r : ManifestRule} (h : r.Recoverable shape) :
    Recovers ((record shape).decode shape) toJson r := by
  have hword (v : Severity) : Severity.ofWord? v.word = some v := by cases v <;> decide
  have hseverity : Recovers (Severity.decode shape) Severity.toJson r.defaultSeverity :=
    recovers_variant shape _ hword r.defaultSeverity
  have hfills := (Fills.nil (record shape))
    |>.always "defaultSeverity" (fun _ => rfl) hseverity
    |>.always "optionSchema" (fun _ => rfl) h.optionSchema
    |>.unlessEmpty "defaultOptions" (fun _ => rfl) h.defaultOptions rfl
  exact decode_ofMembers (by simp [record]) hfills (by simp [record]) shape

theorem roundTrips (shape : Shape) : RoundTrips ((record shape).decode shape) toJson :=
  Record.roundTrips Recoverable.blank Recoverable.read Recoverable.recovers

end ManifestRule

namespace Manifest

variable {shape : Shape}

/-- The declared rules and the presets of a manifest are read back; its name always is. -/
structure Recoverable (shape : Shape) (m : Manifest) : Prop where
  rules : Recovers (table ((ManifestRule.record shape).decode shape))
    (fun t => .obj (Table.mapValues ManifestRule.toJson t)) m.rules
  configs : Recovers (table (Document.decode shape))
    (fun t => .obj (Table.mapValues Document.toJson t)) m.configs

theorem Recoverable.blank : Recoverable shape {} := ⟨rfl, rfl⟩

theorem Recoverable.read {name : String} {n : Node} {m k : Manifest} (h : m.Recoverable shape)
    (hread : (record shape).read name n m = .ok k) : k.Recoverable shape := by
  simp only [record] at hread
  split at hread
  case h_4 => exact Except.ok.inj hread ▸ h
  all_goals obtain ⟨v, hv, rfl⟩ := exists_of_read hread
  · exact { h with }
  · exact { h with rules := (ManifestRule.roundTrips shape).table n v hv }
  · exact { h with configs := (Document.roundTrips shape).table n v hv }

theorem Recoverable.recovers {m : Manifest} (h : m.Recoverable shape) :
    Recovers (Manifest.decode shape) toJson m := by
  have hfills := (Fills.nil (record shape))
    |>.always "namespace" (fun _ => rfl) (recovers_string m.plugin)
    |>.always "rules" (fun _ => rfl) h.rules
    |>.unlessEmpty "configs" (fun _ => rfl) h.configs rfl
  exact decode_ofMembers (by simp [record]) hfills (by simp [record]) shape

theorem roundTrips (shape : Shape) : RoundTrips (Manifest.decode shape) toJson :=
  Record.roundTrips Recoverable.blank Recoverable.read Recoverable.recovers

end Manifest

/-- A document or a manifest that was read from a JSON value is read again, as it is, from its
written form. -/
theorem ofJson_toJson :
    (∀ (j : Json) (d : Document), Document.ofJson j = .ok d → Document.ofJson d.toJson = .ok d) ∧
    (∀ (j : Json) (m : Manifest), Manifest.ofJson j = .ok m → Manifest.ofJson m.toJson = .ok m) :=
  ⟨fun j => Document.roundTrips .liberal (.ofJson j),
    fun j => Manifest.roundTrips .liberal (.ofJson j)⟩

/-- A document with a repeated key, entries in both forms, and a field that it does not know. -/
def mixedDocument : Json :=
  .obj [("extends", .str ""),
    ("rules", .obj [("quotes", .arr [.str "warn"]), ("semi", .num (.int 2)),
      ("quotes", .arr [.num (.float (.ofInt 1)), .obj [("b", .arr []), ("a", .bool true)]])]),
    ("unknown", .null), ("parser", .null), ("plugins", .arr []),
    ("overrides", .arr [.obj [("files", .str "*.ts"), ("excludedFiles", .arr [])],
      .arr [.arr [.str "a", .str "b"]]])]

/-- A manifest with a bound that is absent and a preset. -/
def mixedManifest : Json :=
  .arr [.str "react", .obj [("jsx", .obj [("optionSchema", .obj [("maxItems", .null),
    ("items", .arr [.obj [("any", .null)], .str "object"])]), ("defaultOptions", .arr [])])],
    .obj [("recommended", mixedDocument)]]

theorem ofJson_toJson_mixed :
    (∃ d, Document.ofJson mixedDocument = .ok d ∧ Document.ofJson d.toJson = .ok d ∧
      Table.keys d.rules = ["quotes", "semi"] ∧ d.overrides.length = 2) ∧
    (∃ m, Manifest.ofJson mixedManifest = .ok m ∧ Manifest.ofJson m.toJson = .ok m ∧
      Table.keys m.configs = ["recommended"]) := by
  obtain ⟨hdocument, hmanifest⟩ := ofJson_toJson
  exact ⟨⟨_, by rfl, hdocument mixedDocument _ (by rfl), by rfl, by rfl⟩,
    ⟨_, by rfl, hmanifest mixedManifest _ (by rfl), by rfl⟩⟩

end LintConfig
