import LintConfig.Proofs.Setting.Absorption

/-!
# What stands where in merged settings

Merging maps at every depth is said by paths of keys: where the upper setting has a value, that
value counts, merged into what the base has there (`Setting.at?_merge_of_some`); where it has none,
the base shows through as far as the path stays in maps of the upper setting
(`Setting.exists_endsAt_merge`).  Merging the same setting again changes nothing, and neither does
overlaying the same settings again (`Setting.merge_laws`).
-/

namespace LintConfig

open Table (keys keys_cons mem_keys_of_mem)

namespace Setting

variable {a b v : Setting} {path : List String}

/-! ### Paths of keys -/

/-- The value at a path of keys. -/
def at? : Setting → List String → Option Setting
  | s, [] => some s
  | s, k :: path => (Table.get? s.entriesD k).bind fun v => v.at? path

theorem at?_nil (s : Setting) : s.at? [] = some s := by
  rw [at?]

theorem at?_cons (s : Setting) (k : String) (path : List String) :
    s.at? (k :: path) = (Table.get? s.entriesD k).bind fun v => v.at? path := by
  rw [at?]

theorem Keyed.entries {entries : Settings} (h : (Setting.map entries).Keyed) : entries.Keyed := by
  cases h with
  | leaf hleaf => exact absurd rfl hleaf
  | map hnodup hvalues => exact ⟨hnodup, hvalues⟩

theorem Keyed.at? {s : Setting} (h : s.Keyed) (hv : s.at? path = some v) : v.Keyed := by
  induction path generalizing s with
  | nil =>
    rw [at?_nil] at hv
    exact Option.some.inj hv ▸ h
  | cons k path ih =>
    rw [at?_cons] at hv
    obtain ⟨w, hw, hpath⟩ := Option.bind_eq_some_iff.1 hv
    cases h with
    | leaf hleaf =>
      rw [entriesD_of_kind_ne hleaf] at hw
      cases hw
    | map _ hvalues => exact ih (hvalues _ (Table.mem_of_get? hw)) hpath

theorem at?_cons_of_kind_ne (h : v.kind ≠ .map) (k : String) (path : List String) :
    v.at? (k :: path) = none := by
  rw [at?_cons, entriesD_of_kind_ne h]
  rfl

/-- `front` is the longest beginning of a path at which a setting has a value, and `v` is that
value. -/
structure EndsAt (s : Setting) (path front : List String) (v : Setting) : Prop where
  beginning : front <+: path
  value : s.at? front = some v
  longest : ∀ other, other <+: path → (s.at? other).isSome → other <+: front

/-- A path ends at once if nothing stands under its first key. -/
theorem endsAt_nil {s : Setting} {k : String} (h : Table.get? s.entriesD k = none)
    (path : List String) : s.EndsAt (k :: path) [] s where
  beginning := List.nil_prefix
  value := s.at?_nil
  longest := by
    intro other hother hsome
    cases other with
    | nil => exact List.nil_prefix
    | cons j other =>
      obtain ⟨rfl, -⟩ := List.cons_prefix_cons.1 hother
      simp [at?_cons, h] at hsome

theorem EndsAt.cons {s s' : Setting} {k : String} {front : List String}
    (h : s'.EndsAt path front v) (hk : Table.get? s.entriesD k = some s') :
    s.EndsAt (k :: path) (k :: front) v where
  beginning := List.cons_prefix_cons.2 ⟨rfl, h.beginning⟩
  value := by
    rw [at?_cons, hk]
    exact h.value
  longest := by
    intro other hother hsome
    cases other with
    | nil => exact List.nil_prefix
    | cons j other =>
      obtain ⟨rfl, hprefix⟩ := List.cons_prefix_cons.1 hother
      rw [at?_cons, hk] at hsome
      exact List.cons_prefix_cons.2 ⟨rfl, h.longest other hprefix hsome⟩

/-! ### What stands at a path of a merged setting -/

/-- What stands at a path of a merged map: one key is followed in the upper map, if it has the key,
and in the base otherwise. -/
theorem at?_merge_cons {upper : Settings} (h : (keys upper).Nodup) (a : Setting) (k : String)
    (path : List String) : (merge a (.map upper)).at? (k :: path) =
      match Table.get? upper k with
      | some v => (mergeOver (Table.get? a.entriesD k) v).at? path
      | none => a.at? (k :: path) := by
  rw [merge_map_eq h, at?_cons, entriesD, get?_mergeEntries h]
  cases Table.get? upper k <;> simp [at?_cons]

/-- Where the upper setting has a value, that value is merged into what the base has there. -/
theorem at?_merge_of_some (hb : b.Keyed) (h : b.at? path = some v) :
    (merge a b).at? path = some (mergeOver (a.at? path) v) := by
  induction path generalizing a b with
  | nil =>
    rw [at?_nil] at h ⊢
    rw [Option.some.inj h, at?_nil]
    rfl
  | cons k path ih =>
    cases hb with
    | leaf hleaf => simp [at?_cons_of_kind_ne hleaf] at h
    | @map upper hnodup hvalues =>
      rw [at?_cons, entriesD] at h
      obtain ⟨w, hw, hpath⟩ := Option.bind_eq_some_iff.1 h
      have hkeyed : w.Keyed := hvalues _ (Table.mem_of_get? hw)
      rw [at?_merge_cons hnodup, hw, at?_cons]
      cases Table.get? a.entriesD k with
      | none => exact hpath
      | some s => exact ih hkeyed hpath

/-- Where the upper setting has no value, the base shows through if the path ends in a map of the
upper setting. -/
theorem exists_endsAt_merge (hb : b.Keyed) (h : b.at? path = none) :
    ∃ front v, b.EndsAt path front v ∧
      (merge a b).at? path = if v.kind = .map then a.at? path else none := by
  induction path generalizing a b with
  | nil => simp [at?_nil] at h
  | cons k path ih =>
    cases hb with
    | leaf hleaf =>
      have hnone : Table.get? b.entriesD k = none := by
        rw [entriesD_of_kind_ne hleaf]
        rfl
      refine ⟨[], b, endsAt_nil hnone path, ?_⟩
      rw [merge_of_kind_ne hleaf, if_neg hleaf, h]
    | @map upper hnodup hvalues =>
      rw [at?_merge_cons hnodup]
      cases hw : Table.get? upper k with
      | none => exact ⟨[], .map upper, endsAt_nil (by rwa [entriesD]) path, by simp [kind]⟩
      | some w =>
        have hkeyed : w.Keyed := hvalues _ (Table.mem_of_get? hw)
        have hpath : w.at? path = none := by
          rw [at?_cons, entriesD, hw] at h
          exact h
        rw [at?_cons]
        cases Table.get? a.entriesD k with
        | none =>
          obtain ⟨front, v, hends, -⟩ := ih (a := a) hkeyed hpath
          exact ⟨k :: front, v, hends.cons hw, by simp [mergeOver, hpath]⟩
        | some s =>
          obtain ⟨front, v, hends, hat⟩ := ih (a := s) hkeyed hpath
          exact ⟨k :: front, v, hends.cons hw, hat⟩

/-! ### Merging again -/

/-- A setting that is merged again is merged already, the order of keys included. -/
theorem merge_merge (hb : b.Keyed) (a : Setting) : merge (merge a b) b = merge a b := by
  induction hb generalizing a with
  | leaf h => rw [merge_of_kind_ne h, merge_of_kind_ne h]
  | @map upper hnodup hvalues ih =>
    have hentries (entries : Settings) :
        mergeEntries (mergeEntries entries upper) upper = mergeEntries entries upper := by
      have hothers : (mergeEntries entries upper).filter (fun e => e.1 ∉ keys upper) =
          entries.filter fun e => e.1 ∉ keys upper := by
        have hnone : (upper.map fun e => (e.1, mergeOver (Table.get? entries e.1) e.2)).filter
            (fun e => e.1 ∉ keys upper) = [] := by
          refine List.filter_eq_nil_iff.2 fun e he => ?_
          obtain ⟨e', he', rfl⟩ := List.mem_map.1 he
          simpa using mem_keys_of_mem he'
        rw [mergeEntries_eq hnodup, List.filter_append, hnone, List.append_nil, List.filter_filter]
        simp only [Bool.and_self]
      have hagain : ∀ e ∈ upper, mergeOver (Table.get? (mergeEntries entries upper) e.1) e.2 =
          mergeOver (Table.get? entries e.1) e.2 := by
        intro e he
        rw [get?_mergeEntries hnodup, Table.get?_of_mem hnodup he]
        cases Table.get? entries e.1 with
        | none => simpa [mergeOver, merge_bool] using ih e he (.bool false)
        | some s => exact ih e he s
      rw [mergeEntries_eq hnodup, hothers, mergeEntries_eq hnodup]
      refine congrArg _ (List.map_congr_left fun e he => ?_)
      rw [← mergeEntries_eq hnodup, hagain e he]
    rw [merge_map_eq hnodup, merge_map_eq hnodup, entriesD, hentries]

theorem mergeOver_mergeOver (hv : v.Keyed) (s? : Option Setting) :
    mergeOver (some (mergeOver s? v)) v = mergeOver s? v := by
  cases s? with
  | none => simpa [mergeOver, merge_bool] using merge_merge hv (.bool false)
  | some s => exact merge_merge hv s

end Setting

/-! ### Overlaying again -/

namespace Settings

open Setting (mergeOver)

variable {deep : List String} {upper : Settings}

/-- A value laid onto what stands under its key. -/
def layOver (deep : List String) (k : String) (s? : Option Setting) (v : Setting) : Setting :=
  if k ∈ deep then mergeOver s? v else v

theorem overlayOne_eq (deep : List String) (t : Settings) (k : String) (v : Setting) :
    overlayOne deep t k v = Table.put t k (layOver deep k (Table.get? t k) v) := by
  unfold overlayOne layOver
  cases Table.get? t k <;> simp [mergeOver]

theorem overlay_cons (deep : List String) (t : Settings) (e : String × Setting) (upper : Settings) :
    overlay deep t (e :: upper) =
      overlay deep (Table.put t e.1 (layOver deep e.1 (Table.get? t e.1) e.2)) upper := by
  rw [overlay, List.foldl_cons, overlayOne_eq]
  rfl

/-- Keys keep their places, and new keys follow in their order. -/
theorem keys_overlay (h : (keys upper).Nodup) (deep : List String) (base : Settings) :
    keys (overlay deep base upper) = keys base ++ (keys upper).filter fun k => k ∉ keys base := by
  induction upper generalizing base with
  | nil => simp [overlay, keys]
  | cons e upper ih =>
    rw [keys_cons, List.nodup_cons] at h
    obtain ⟨hk, hnodup⟩ := h
    rw [overlay_cons, ih hnodup, Table.keys_put, keys_cons]
    split_ifs with hmem
    · simp [hmem]
    · have hothers : ∀ k ∈ keys upper, (k ∉ keys base ++ [e.1]) = (k ∉ keys base) := by
        intro k hmem'
        have hne : k ≠ e.1 := ne_of_mem_of_not_mem hmem' hk
        simp [hne]
      have hfilter : (keys upper).filter (fun k => k ∉ keys base ++ [e.1]) =
          (keys upper).filter fun k => k ∉ keys base :=
        List.filter_congr fun k hmem' => by simp only [hothers k hmem']
      rw [hfilter]
      simp [hmem]

/-- Under each key of the upper settings stands its value, laid onto what the base has there. -/
theorem get?_overlay_of_mem (h : (keys upper).Nodup) (deep : List String) (base : Settings)
    {e : String × Setting} (he : e ∈ upper) : Table.get? (overlay deep base upper) e.1 =
      some (layOver deep e.1 (Table.get? base e.1) e.2) := by
  have hvalue : Table.values upper e.1 = [e.2] := by
    have hget := Table.get?_of_mem h he
    rw [← Table.head?_values] at hget
    obtain hnil | ⟨v, -, hone⟩ := Table.values_eq_nil_or_singleton h e.1
    · simp [hnil] at hget
    · rw [hone] at hget ⊢
      rw [Option.some.inj hget]
  rw [← Table.head?_values, overlay, Table.values_foldl (values_overlayOne deep), hvalue,
    ← Table.head?_values base]
  unfold layInto layOver mergeOver
  cases hbase : (Table.values base e.1).head? <;> simp [hbase]

/-- Settings that have each value already, laid on, do not change. -/
theorem overlay_eq_self {t : Settings} (h : ∀ e ∈ upper,
    Table.get? t e.1 = some (layOver deep e.1 (Table.get? t e.1) e.2)) :
    overlay deep t upper = t := by
  induction upper with
  | nil => rfl
  | cons e upper ih =>
    rw [overlay_cons, Table.put_eq_self (h e List.mem_cons_self)]
    exact ih fun e' he' => h e' (List.mem_cons_of_mem e he')

theorem layOver_layOver {v : Setting} (hv : v.Keyed) (k : String) (s? : Option Setting) :
    layOver deep k (some (layOver deep k s? v)) v = layOver deep k s? v := by
  unfold layOver
  split_ifs
  · exact Setting.mergeOver_mergeOver hv s?
  · rfl

/-- Settings that are laid on again are laid on already, the order of keys included. -/
theorem overlay_overlay (h : Keyed upper) (deep : List String) (base : Settings) :
    overlay deep (overlay deep base upper) upper = overlay deep base upper := by
  refine overlay_eq_self fun e he => ?_
  rw [get?_overlay_of_mem h.1 deep base he, layOver_layOver (h.2 e he)]

end Settings

/-- What a merged setting has at a path of keys.  Where the upper setting has a value that is no
map, the merged one has that value.  Where the upper setting has a map, the merged one has a map:
that of the base merged with it, with the keys that are only in the base first, if the base has a map
there, and otherwise the same one.  Where the upper setting has nothing, the merged one has what the
base has if the path leads as far as into a map of the upper setting, and nothing if it leads into
another value.  Merging the upper setting again changes nothing.  Nor does overlaying settings again,
which keeps the keys of the base in their places and adds the others in their order. -/
theorem Setting.merge_laws (a : Setting) {b : Setting} (hb : b.Keyed) :
    (∀ path v, b.at? path = some v → v.kind ≠ .map → (merge a b).at? path = some v) ∧
    (∀ path upper, b.at? path = some (.map upper) →
      (∀ entries, a.at? path = some (.map entries) → ∃ merged,
        (merge a b).at? path = some (.map merged) ∧
          merge (.map entries) (.map upper) = .map merged ∧
          keys merged = (keys entries).filter (fun k => k ∉ keys upper) ++ keys upper) ∧
      ((∀ entries, a.at? path ≠ some (.map entries)) →
        (merge a b).at? path = some (.map upper))) ∧
    (∀ path, b.at? path = none → ∃ front v, b.EndsAt path front v ∧
      (merge a b).at? path = if v.kind = .map then a.at? path else none) ∧
    merge (merge a b) b = merge a b ∧
    ∀ (deep : List String) (base upper : Settings), upper.Keyed →
      Settings.overlay deep (Settings.overlay deep base upper) upper =
          Settings.overlay deep base upper ∧
        keys (Settings.overlay deep base upper) =
          keys base ++ (keys upper).filter fun k => k ∉ keys base := by
  refine ⟨fun path v hpath hleaf => ?_,
    fun path upper hpath => ⟨fun entries ha => ?_, fun ha => ?_⟩,
    fun path => exists_endsAt_merge hb, merge_merge hb a, fun deep base upper hupper => ?_⟩
  · rw [at?_merge_of_some hb hpath, mergeOver_of_kind_ne hleaf]
  · have hnodup : (keys upper).Nodup := (hb.at? hpath).entries.1
    refine ⟨mergeEntries entries upper, ?_, rfl, keys_mergeEntries hnodup entries⟩
    rw [at?_merge_of_some hb hpath, ha]
    rfl
  · rw [at?_merge_of_some hb hpath]
    cases hat : a.at? path with
    | none => rfl
    | some s =>
      have hs : s.kind ≠ .map := by
        intro hs
        cases s <;> cases hs
        exact ha _ hat
      rw [mergeOver, merge_map_of_kind_ne hs]
  · exact ⟨Settings.overlay_overlay hupper deep base, Settings.keys_overlay hupper.1 deep base⟩

/-- Resolver settings, and others that are merged into them: a map meets a map, a text a map and a
map a truth value. -/
def resolverSettings : Settings × Settings :=
  ([("node", .map [("paths", .str "src"), ("ext", .str ".js")]), ("strict", .bool true),
      ("cache", .map [("size", .str "8")])],
    [("strict", .map [("level", .str "all")]), ("node", .map [("ext", .map [])]),
      ("cache", .bool false), ("alias", .str "@")])

theorem Setting.merge_laws_resolver :
    let a : Setting := .map resolverSettings.1
    let b : Setting := .map resolverSettings.2
    b.Keyed ∧ b.at? ["cache"] = some (.bool false) ∧ (Setting.bool false).kind ≠ .map ∧
      (merge a b).at? ["cache"] = some (.bool false) ∧
      (∃ merged, (merge a b).at? ["node"] = some (.map merged) ∧ keys merged = ["paths", "ext"]) ∧
      b.at? ["node", "paths"] = none ∧ (∃ front v, b.EndsAt ["node", "paths"] front v ∧
        (merge a b).at? ["node", "paths"] = if v.kind = .map then some (.str "src") else none) ∧
      merge (merge a b) b = merge a b ∧ resolverSettings.2.Keyed ∧
      keys (Settings.overlay ["node"] resolverSettings.1 resolverSettings.2) =
        ["node", "strict", "cache", "alias"] := by
  intro a b
  have hb : b.Keyed := keyed_of_ofNode? (.ofJson b.toJson) rfl
  have hupper : resolverSettings.2.Keyed := Keyed.entries hb
  obtain ⟨hleaf, hmap, hnone, hagain, hoverlay⟩ := merge_laws a hb
  have hnode : ∃ merged, (merge a b).at? ["node"] = some (.map merged) ∧
      keys merged = ["paths", "ext"] := by
    obtain ⟨merged, hat, -, hkeys⟩ := (hmap ["node"] [("ext", .map [])] rfl).1 _ rfl
    exact ⟨merged, hat, hkeys⟩
  exact ⟨hb, rfl, by decide, hleaf ["cache"] _ rfl (by decide), hnode, rfl,
    hnone ["node", "paths"] rfl, hagain, hupper, (hoverlay ["node"] _ _ hupper).2⟩

end LintConfig
