import LintConfig.Proofs.Layer.Precedence
import LintConfig.Proofs.Setting
import LintConfig.Proofs.Severity

/-!
# Documents that are written alike

The canonical text of a document does not show the order of its keys, nor more of its numbers than
the nearest double.  Nothing else is lost: documents with one text contribute layers that are alike,
and chains of such documents give every path a configuration with one text
(`Engine.compute_alike`).
-/

namespace LintConfig

open Table (Alike values)

/-- The canonical text of an entry. -/
def RuleEntry.canonical (e : RuleEntry) : List Char := e.toJson.canonicalChars

/-- The canonical text of a rule as it is run. -/
def ResolvedRule.canonical (r : ResolvedRule) : List Char := r.toJson.canonicalChars

theorem RuleMap.canonical_toJson_iff {rules rules' : RuleMap} :
    (RuleMap.toJson rules).canonicalChars = (RuleMap.toJson rules').canonicalChars ↔
      Alike RuleEntry.canonical rules rules' := by
  rw [RuleMap.toJson, RuleMap.toJson, Json.canonical_obj_iff, Alike.mapValues_iff]
  rfl

theorem Settings.canonical_toJson_iff {es es' : Settings} :
    (Settings.toJson es).canonicalChars = (Settings.toJson es').canonicalChars ↔
      Alike Setting.canonical es es' :=
  Setting.canonical_map_iff

/-! ### Written fields -/

namespace Written

theorem values_unlessEmpty {α : Type} (name : String) (items : List α) (json : Json) (k : String) :
    values (unlessEmpty name items json) k =
      if name = k then (if items.isEmpty then [] else [json]) else [] := by
  unfold unlessEmpty
  cases items.isEmpty <;> simp [Table.values_cons, Table.values_nil]

theorem values_ifPresent {α : Type} (name : String) (value : Option α) (json : α → Json)
    (k : String) : values (ifPresent name value json) k =
      if name = k then value.toList.map json else [] := by
  cases value <;> simp [ifPresent, Table.values_cons, Table.values_nil]

/-- A field that is left out where it is empty still shows its content. -/
theorem canonical_of_unlessEmpty {α : Type} {json : List α → Json} {items items' : List α}
    (h : (if items = [] then [] else [json items]).map Json.canonicalChars =
      (if items' = [] then [] else [json items']).map Json.canonicalChars) :
    (json items).canonicalChars = (json items').canonicalChars := by
  cases items <;> cases items' <;> simp_all

/-- A field that is left out where it is absent shows its content. -/
theorem map_of_ifPresent {α : Type} {json : α → Json} {value value' : Option α}
    (h : value.toList.map (Json.canonicalChars ∘ json) =
      value'.toList.map (Json.canonicalChars ∘ json)) :
    value.map (Json.canonicalChars ∘ json) = value'.map (Json.canonicalChars ∘ json) := by
  cases value <;> cases value' <;> simp_all

theorem canonical_environment_iff {t u : Table Bool} :
    (environment t).canonicalChars = (environment u).canonicalChars ↔ Alike id t u := by
  have hinj : Function.Injective (Json.canonicalChars ∘ Json.bool) :=
    fun _ _ h => Json.canonical_bool_iff.1 h
  rw [environment, environment, Json.canonical_obj_iff, Alike.mapValues_iff]
  refine forall_congr' fun k => ?_
  rw [hinj.list_map.eq_iff, List.map_id, List.map_id]

end Written

/-! ### Alike layers -/

/-- Layers that differ only in the order of keys and in what doubles do not show of numbers. -/
structure Layer.Alike (l l' : Layer) : Prop where
  plugins : l.plugins = l'.plugins
  rules : Table.Alike RuleEntry.canonical l.rules l'.rules
  settings : Table.Alike Setting.canonical l.settings l'.settings
  env : Table.Alike id l.env l'.env
  globals : Table.Alike Setting.canonical l.globals l'.globals
  parser : l.parser = l'.parser
  parserOptions : Table.Alike Setting.canonical l.parserOptions l'.parserOptions

namespace Layer

theorem Alike.refl (l : Layer) : l.Alike l where
  plugins := rfl
  rules := .refl _ _
  settings := .refl _ _
  env := .refl _ _
  globals := .refl _ _
  parser := rfl
  parserOptions := .refl _ _

theorem Alike.merge {b b' u u' : Layer} (deep : Names) (hb : b.Alike b') (hu : u.Alike u') :
    (merge deep b u).Alike (merge deep b' u') where
  plugins := by simp only [Layer.merge, hb.plugins, hu.plugins]
  rules := hb.rules.overlay hu.rules
  settings := Settings.overlay_alike Setting.shows_canonical deep hb.settings hu.settings
  env := hb.env.overlay hu.env
  globals := Settings.overlay_alike Setting.shows_canonical [] hb.globals hu.globals
  parser := by simp only [Layer.merge, hb.parser, hu.parser]
  parserOptions := Settings.overlay_alike Setting.shows_canonical [] hb.parserOptions hu.parserOptions

theorem Alike.mergeAll {deep : Names} {ls ls' : List Layer} (h : List.Forall₂ Layer.Alike ls ls') :
    ∀ {b b' : Layer}, b.Alike b' → (mergeAll deep b ls).Alike (mergeAll deep b' ls') := by
  induction h with
  | nil => exact fun hb => hb
  | cons hl _ ih => exact fun hb => ih (hb.merge deep hl)

/-! ### Written layers -/

/-- The members that write a layer, with plugins in the order of a list. -/
def members (l : Layer) (ps : List String) : List (String × Json) :=
  Written.unlessEmpty "plugins" ps (.strings ps) ++
    (Written.unlessEmpty "rules" l.rules (RuleMap.toJson l.rules) ++
    (Written.unlessEmpty "settings" l.settings (Settings.toJson l.settings) ++
    (Written.unlessEmpty "env" l.env (Written.environment l.env) ++
    (Written.unlessEmpty "globals" l.globals (Settings.toJson l.globals) ++
    (Written.ifPresent "parser" l.parser .str ++
    Written.unlessEmpty "parserOptions" l.parserOptions (Settings.toJson l.parserOptions))))))

/-- The names of the members that write a layer. -/
def memberNames : List String :=
  ["plugins", "rules", "settings", "env", "globals", "parser", "parserOptions"]

/-- Layers are alike if their members have one text. -/
theorem alike_of_members {l l' : Layer} {ps ps' : List String} (hplugins : l.plugins = Names.ofList ps)
    (hplugins' : l'.plugins = Names.ofList ps') (h : ∀ k ∈ memberNames,
      (values (l.members ps) k).map Json.canonicalChars =
        (values (l'.members ps') k).map Json.canonicalChars) : l.Alike l' := by
  have hstr : Function.Injective (Json.canonicalChars ∘ Json.str) :=
    fun _ _ h => Json.canonical_str_iff.1 h
  simp only [members, Table.values_append, Written.values_unlessEmpty, Written.values_ifPresent,
    memberNames, List.forall_mem_cons, ↓reduceIte, List.isEmpty_iff, String.reduceEq,
    List.append_nil, List.nil_append, List.map_map, List.not_mem_nil, IsEmpty.forall_iff,
    implies_true, and_true] at h
  obtain ⟨hps, hrules, hsettings, henv, hglobals, hparser, hparserOptions⟩ := h
  constructor
  case plugins =>
    rw [hplugins, hplugins', Json.canonical_strings_iff.1 (Written.canonical_of_unlessEmpty hps)]
  case rules => exact RuleMap.canonical_toJson_iff.1 (Written.canonical_of_unlessEmpty hrules)
  case settings =>
    exact Settings.canonical_toJson_iff.1 (Written.canonical_of_unlessEmpty hsettings)
  case env => exact Written.canonical_environment_iff.1 (Written.canonical_of_unlessEmpty henv)
  case globals => exact Settings.canonical_toJson_iff.1 (Written.canonical_of_unlessEmpty hglobals)
  case parser => exact Option.map_injective hstr (Written.map_of_ifPresent hparser)
  case parserOptions =>
    exact Settings.canonical_toJson_iff.1 (Written.canonical_of_unlessEmpty hparserOptions)

end Layer

/-! ### Documents and overrides -/

theorem Layer.values_members_of_notMem {l : Layer} {ps : List String} {k : String}
    (hk : k ∉ memberNames) : values (l.members ps) k = [] := by
  have hne (name : String) (hname : name ∈ memberNames) : name ≠ k := by
    rintro rfl
    exact hk hname
  simp [members, Table.values_append, Written.values_unlessEmpty, Written.values_ifPresent,
    hne "plugins" (by decide), hne "rules" (by decide), hne "settings" (by decide),
    hne "env" (by decide), hne "globals" (by decide), hne "parser" (by decide),
    hne "parserOptions" (by decide)]

theorem OneOrMany.canonical_toJson_iff {a b : OneOrMany} :
    a.toJson.canonicalChars = b.toJson.canonicalChars ↔ a = b := by
  refine ⟨fun h => ?_, fun h => by rw [h]⟩
  cases a <;> cases b
  · rw [Json.canonical_str_iff.1 h]
  · cases Json.kind_eq h
  · cases Json.kind_eq h
  · rw [Json.canonical_strings_iff.1 h]

namespace OverrideBlock

/-- The members that an override is written with. -/
theorem toJson_eq (b : OverrideBlock) : b.toJson = .obj (("files", b.files.toJson) ::
    (Written.ifPresent "excludedFiles" b.excludedFiles OneOrMany.toJson ++
      (Layer.ofOverride b).members b.plugins)) := by
  simp only [toJson, Layer.members, Layer.ofOverride, List.append_assoc]

/-- Overrides with one text apply to the same paths and contribute alike. -/
theorem alike {b b' : OverrideBlock} (h : b.toJson.canonicalChars = b'.toJson.canonicalChars) :
    b.files = b'.files ∧ b.excludedFiles = b'.excludedFiles ∧
      (Layer.ofOverride b).Alike (.ofOverride b') := by
  rw [toJson_eq, toJson_eq, Json.canonical_obj_iff] at h
  have hinj : Function.Injective (Json.canonicalChars ∘ OneOrMany.toJson) :=
    fun _ _ h => OneOrMany.canonical_toJson_iff.1 h
  refine ⟨?_, ?_, Layer.alike_of_members rfl rfl fun k hk => ?_⟩
  · have hfiles := h "files"
    simp only [Table.values_cons, Table.values_append, Written.values_ifPresent, if_true,
      String.reduceEq, if_false, List.nil_append, List.map_cons, List.cons.injEq,
      Layer.values_members_of_notMem (by decide : "files" ∉ Layer.memberNames)] at hfiles
    exact OneOrMany.canonical_toJson_iff.1 hfiles.1
  · have hexcluded := h "excludedFiles"
    simp only [Table.values_cons, Table.values_append, Written.values_ifPresent, if_true,
      String.reduceEq, if_false, List.append_nil, List.map_map,
      Layer.values_members_of_notMem (by decide : "excludedFiles" ∉ Layer.memberNames)] at hexcluded
    exact Option.map_injective hinj (Written.map_of_ifPresent hexcluded)
  · have hfiles : "files" ≠ k := by rintro rfl; exact absurd hk (by decide)
    have hexcluded : "excludedFiles" ≠ k := by rintro rfl; exact absurd hk (by decide)
    simpa [Table.values_cons, Table.values_append, Written.values_ifPresent, hfiles, hexcluded]
      using h k

end OverrideBlock

namespace Document

/-- The members that a document is written with. -/
theorem toJson_eq (d : Document) : d.toJson = .obj
    ((if d.bases.isEmpty then [] else [("extends", d.bases.toJson)]) ++
      ((Layer.ofDocument d).members d.plugins ++
        (Written.unlessEmpty "ignorePatterns" d.ignorePatterns (.strings d.ignorePatterns) ++
          Written.unlessEmpty "overrides" d.overrides
            (.arr (d.overrides.map OverrideBlock.toJson))))) := by
  simp only [toJson, Layer.members, Layer.ofDocument, List.append_assoc]

/-- Documents with one text contribute alike, and so do their overrides. -/
theorem alike {d d' : Document} (h : d.toJson.canonicalChars = d'.toJson.canonicalChars) :
    (Layer.ofDocument d).Alike (.ofDocument d') ∧
      d.overrides.map (Json.canonicalChars ∘ OverrideBlock.toJson) =
        d'.overrides.map (Json.canonicalChars ∘ OverrideBlock.toJson) := by
  rw [toJson_eq, toJson_eq, Json.canonical_obj_iff] at h
  have hbases (d : Document) {k : String} (hk : "extends" ≠ k) :
      values (if d.bases.isEmpty then [] else [("extends", d.bases.toJson)]) k = [] := by
    split_ifs <;> simp [Table.values_cons, Table.values_nil, hk]
  constructor
  · refine Layer.alike_of_members rfl rfl fun k hk => ?_
    have hextends : "extends" ≠ k := by rintro rfl; exact absurd hk (by decide)
    have hignored : "ignorePatterns" ≠ k := by rintro rfl; exact absurd hk (by decide)
    have hoverrides : "overrides" ≠ k := by rintro rfl; exact absurd hk (by decide)
    simpa [Table.values_append, Written.values_unlessEmpty, hbases _ hextends, hignored,
      hoverrides] using h k
  · have hoverrides := h "overrides"
    simp only [Table.values_append, Written.values_unlessEmpty, if_true, String.reduceEq, if_false,
      List.nil_append, hbases _ (by decide : "extends" ≠ "overrides"), List.isEmpty_iff,
      Layer.values_members_of_notMem (by decide : "overrides" ∉ Layer.memberNames)] at hoverrides
    have harr := @Written.canonical_of_unlessEmpty _
      (fun bs => .arr (bs.map OverrideBlock.toJson)) _ _ hoverrides
    rwa [Json.canonical_arr_iff, List.map_map, List.map_map] at harr

end Document

/-- Overrides that apply to the same paths and contribute alike. -/
structure Override.Alike (o o' : Override) : Prop where
  files : o.files = o'.files
  excluded : o.excluded = o'.excluded
  layer : o.layer.Alike o'.layer

namespace Override

theorem Alike.applies_eq {o o' : Override} (h : o.Alike o') (path : String) :
    o.applies path = o'.applies path := by
  unfold applies appliesTo
  rw [h.files, h.excluded]
  dsimp only
  cases o'.files.malformed.head? with
  | some m => split_ifs <;> rfl
  | none => cases o'.excluded.malformed.head? <;> split_ifs <;> rfl

theorem ofBlocks_alike {bs bs' : List OverrideBlock}
    (h : bs.map (Json.canonicalChars ∘ OverrideBlock.toJson) =
      bs'.map (Json.canonicalChars ∘ OverrideBlock.toJson)) (origin origin' : String) (n n' : Nat) :
    List.Forall₂ Override.Alike (ofBlocks origin n bs) (ofBlocks origin' n' bs') := by
  induction bs generalizing bs' n n' with
  | nil =>
    obtain rfl : [] = bs' := by simpa [eq_comm] using h
    exact .nil
  | cons b bs ih =>
    cases bs' with
    | nil => simp at h
    | cons b' bs' =>
      rw [List.map_cons, List.map_cons, List.cons.injEq] at h
      obtain ⟨hfiles, hexcluded, hlayer⟩ := OverrideBlock.alike h.1
      refine .cons ⟨?_, ?_, hlayer⟩ (ih h.2 (n + 1) (n' + 1))
      · simp only [ofBlock, hfiles]
      · simp only [ofBlock, hexcluded]

end Override

/-! ### Chains -/

/-- The canonical text of a fragment's document. -/
def Fragment.canonical (f : Fragment) : List Char := f.document.toJson.canonicalChars

/-- Fragments of documents with one text contribute alike, and so do their overrides. -/
theorem Fragment.alike {f f' : Fragment} (h : f.canonical = f'.canonical) :
    (Layer.ofDocument f.document).Alike (.ofDocument f'.document) ∧
      List.Forall₂ Override.Alike f.overrides f'.overrides := by
  obtain ⟨hlayer, hoverrides⟩ := Document.alike h
  exact ⟨hlayer, Override.ofBlocks_alike hoverrides f.id f'.id 0 0⟩

theorem map_eq_map_iff_forall₂ {α β γ : Type} {f : α → γ} {g : β → γ} {as : List α} {bs : List β} :
    as.map f = bs.map g ↔ List.Forall₂ (fun a b => f a = g b) as bs := by
  rw [← List.forall₂_eq_eq_eq, List.forall₂_map_left_iff, List.forall₂_map_right_iff]

namespace Chain

variable {c c' : Chain}

/-- Chains of documents with one text give a path layers that are alike. -/
theorem layersFor_alike
    (h : c.fragments.map Fragment.canonical = c'.fragments.map Fragment.canonical)
    (path : String) : List.Forall₂ Layer.Alike (c.layersFor path) (c'.layersFor path) := by
  have hfragments := (map_eq_map_iff_forall₂.1 h).imp fun f f' hf => Fragment.alike hf
  have hdocuments : List.Forall₂ Layer.Alike (c.fragments.map fun f => .ofDocument f.document)
      (c'.fragments.map fun f => .ofDocument f.document) := by
    rw [List.forall₂_map_left_iff, List.forall₂_map_right_iff]
    exact hfragments.imp fun _ _ hf => hf.1
  have hoverrides : List.Forall₂ Override.Alike (c.fragments.flatMap Fragment.overrides)
      (c'.fragments.flatMap Fragment.overrides) := by
    refine List.rel_flatten ?_
    rw [List.forall₂_map_left_iff, List.forall₂_map_right_iff]
    exact hfragments.imp fun _ _ hf => hf.2
  have hselected := List.rel_filter (p := fun o => o.applies path) (q := fun o => o.applies path)
    (fun o o' ho => iff_of_eq (congrArg (· = true) (Override.Alike.applies_eq ho path))) hoverrides
  refine List.rel_append hdocuments ?_
  rw [List.forall₂_map_left_iff, List.forall₂_map_right_iff]
  exact hselected.imp fun _ _ ho => ho.layer

end Chain

/-! ### Rules -/

namespace ResolvedRule

theorem canonical_eq {r r' : ResolvedRule} (hseverity : r.severity = r'.severity)
    (hoptions : r.options.map Setting.canonical = r'.options.map Setting.canonical) :
    r.canonical = r'.canonical := by
  have hempty : r.options = [] ↔ r'.options = [] := by
    rw [← List.map_eq_nil_iff (f := Setting.canonical), hoptions, List.map_eq_nil_iff]
  have harr : (Json.arr (Setting.itemsJson r.options)).canonicalChars =
      (Json.arr (Setting.itemsJson r'.options)).canonicalChars := by
    rw [Json.canonical_arr_iff, Setting.itemsJson_eq_map, Setting.itemsJson_eq_map, List.map_map,
      List.map_map]
    exact hoptions
  unfold canonical toJson
  rw [Json.canonical_obj_iff, hseverity]
  intro k
  rw [Table.values_cons, Table.values_cons, Written.values_unlessEmpty, Written.values_unlessEmpty]
  simp only [List.isEmpty_iff, hempty]
  split_ifs <;> simp [harr]

end ResolvedRule

/-- Entries that are written alike are run alike. -/
theorem RuleEntry.resolve_alike {registry : Registry} {strict : Bool} {enabled : Names}
    {id : String} {e e' : RuleEntry} (h : e.canonical = e'.canonical) {r r' : ResolvedRule}
    (hr : e.resolve registry strict enabled id = .ok r)
    (hr' : e'.resolve registry strict enabled id = .ok r') : r.canonical = r'.canonical := by
  obtain ⟨hseverity, d, hlookup, hoptions⟩ := resolve_eq_ok hr
  obtain ⟨hseverity', d', hlookup', hoptions'⟩ := resolve_eq_ok hr'
  obtain rfl : d = d' := Except.ok.inj (hlookup.symm.trans hlookup')
  unfold RuleEntry.canonical toJson at h
  -- a bare severity is no list, so either both entries have options or neither has
  have hkind (s : RawSeverity) (items : List Json) : s.toJson.kind ≠ (Json.arr items).kind := by
    cases s <;> simp [RawSeverity.toJson, Json.kind]
  cases ho : e.options with
  | none =>
    cases ho' : e'.options with
    | none =>
      rw [ho, ho'] at h
      refine ResolvedRule.canonical_eq (Severity.eq_of_canonical_eq hseverity hseverity' h) ?_
      rw [hoptions, hoptions', ho, ho']
    | some options' =>
      rw [ho, ho'] at h
      exact absurd (Json.kind_eq h) (hkind _ _)
  | some options =>
    cases ho' : e'.options with
    | none =>
      rw [ho, ho'] at h
      exact absurd (Json.kind_eq h).symm (hkind _ _)
    | some options' =>
      rw [ho, ho', Json.canonical_arr_iff, List.map_cons, List.map_cons, List.cons.injEq,
        Setting.itemsJson_eq_map, Setting.itemsJson_eq_map, List.map_map, List.map_map] at h
      refine ResolvedRule.canonical_eq (Severity.eq_of_canonical_eq hseverity hseverity' h.1) ?_
      rw [hoptions, hoptions', ho, ho']
      exact h.2

namespace RuleMap

variable {registry : Registry} {strict : Bool} {enabled : Names} {rules rules' : RuleMap}
  {resolved resolved' : Table ResolvedRule}

/-- Rule maps that are alike are run alike. -/
theorem resolve_alike (hrules : Alike RuleEntry.canonical rules rules')
    (h : RuleMap.resolve registry strict enabled rules = .ok resolved)
    (h' : RuleMap.resolve registry strict enabled rules' = .ok resolved') :
    Alike ResolvedRule.canonical resolved resolved' := by
  intro k
  have hvalues := (resolve_eq_ok h).values k
  have hvalues' := (resolve_eq_ok h').values k
  have hsame := map_eq_map_iff_forall₂.1 (hrules k)
  generalize values rules k = es, values rules' k = es', values resolved k = rs,
    values resolved' k = rs' at *
  induction hsame generalizing rs rs' with
  | nil =>
    cases hvalues
    cases hvalues'
    rfl
  | cons he _ ih =>
    cases hvalues with
    | cons hr hrest =>
      cases hvalues' with
      | cons hr' hrest' =>
        rw [List.map_cons, List.map_cons, RuleEntry.resolve_alike he hr hr', ih _ _ hrest hrest']

end RuleMap

/-! ### Configurations -/

/-- A configuration with its fingerprint set aside. -/
def Resolved.withoutFingerprint (r : Resolved) : Resolved := { r with fingerprint := ⟨""⟩ }

/-- Configurations with one canonical text, their fingerprints aside: these differ only in the order
of keys and in what doubles do not show of numbers. -/
def Resolved.Alike (r r' : Resolved) : Prop :=
  r.withoutFingerprint.toJson.canonical = r'.withoutFingerprint.toJson.canonical

theorem Resolved.Alike.env {r r' : Resolved} (h : r.Alike r') : Table.Alike id r.env r'.env := by
  have hmembers := String.ofList_injective h
  unfold withoutFingerprint toJson at hmembers
  rw [Json.canonical_obj_iff] at hmembers
  have henv := hmembers "env"
  simp only [Table.values_append, Table.values_cons, Table.values_nil, Written.values_ifPresent,
    String.reduceEq, if_true, if_false, List.append_nil, List.map_cons, List.map_nil,
    List.cons.injEq, and_true] at henv
  exact Written.canonical_environment_iff.1 henv

/-- Chains of documents with one text give every path configurations with one text. -/
theorem Engine.compute_alike {e : Engine} {deep : Names} {c c' : Chain} {b b' : Base}
    (hb : Base.ofChain deep c = .ok b) (hb' : Base.ofChain deep c' = .ok b')
    (h : c.fragments.map Fragment.canonical = c'.fragments.map Fragment.canonical) {path : String}
    {r r' : Resolved} (hr : e.compute b path = .ok r) (hr' : e.compute b' path = .ok r') : r.Alike r' := by
  obtain ⟨candidate, rules, happly, hrules, rfl⟩ := compute_eq_ok_iff.1 hr
  obtain ⟨candidate', rules', happly', hrules', rfl⟩ := compute_eq_ok_iff.1 hr'
  have halike : candidate.layer.Alike candidate'.layer := by
    rw [Base.apply_ofChain hb happly, Base.apply_ofChain hb' happly']
    exact Layer.Alike.mergeAll (Chain.layersFor_alike h path) (.refl _)
  have hresolved : Alike ResolvedRule.canonical rules rules' := by
    unfold Layer.resolveRules at hrules hrules'
    rw [← halike.plugins] at hrules'
    exact RuleMap.resolve_alike halike.rules hrules hrules'
  have hrulesJson : (Resolved.rulesJson rules).canonicalChars =
      (Resolved.rulesJson rules').canonicalChars :=
    Json.canonical_obj_iff.2 (Alike.mapValues_iff.2 hresolved)
  have henv : (Written.environment candidate.layer.env).canonicalChars =
      (Written.environment candidate'.layer.env).canonicalChars :=
    Written.canonical_environment_iff.2 halike.env
  refine congrArg String.ofList ?_
  unfold Resolved.withoutFingerprint Resolved.toJson
  rw [Json.canonicalChars, Json.canonicalChars, Json.canonicalMembers_eq_map,
    Json.canonicalMembers_eq_map]
  simp only [List.map_append, List.map_cons, List.map_nil, hrulesJson, henv, halike.plugins,
    halike.parser, Settings.canonical_toJson_iff.2 halike.settings,
    Settings.canonical_toJson_iff.2 halike.globals,
    Settings.canonical_toJson_iff.2 halike.parserOptions]

end LintConfig
