import LintConfig.Proofs.Json.Canonical
import LintConfig.Setting

/-!
# Settings up to the order of keys

Two settings look alike if what a function shows of them is the same: their canonical texts, for
one.  Where the function hides the order of keys and nothing else of a map (`Setting.Shows`),
merging at every depth and overlaying keep settings alike (`Shows.mergesAlike`,
`Settings.overlay_alike`): the result under a key depends on what stands under that key, and not on
where.  In a merged map the entries that only the base has come first (`mergeEntries_eq`).
-/

namespace LintConfig

open Table (Alike values keys keys_cons mem_keys_of_mem)

namespace Setting

/-- The canonical text of the written form. -/
def canonical (s : Setting) : List Char := s.toJson.canonicalChars

theorem itemsJson_eq_map (ss : List Setting) : itemsJson ss = ss.map toJson := by
  induction ss with
  | nil => rfl
  | cons s ss ih => rw [itemsJson, ih, List.map_cons]

theorem entriesJson_eq_mapValues (es : Settings) : entriesJson es = Table.mapValues toJson es := by
  induction es with
  | nil => rfl
  | cons e es ih => rw [entriesJson, ih, Table.mapValues, Table.mapValues, List.map_cons]

theorem canonical_map_iff {es es' : Settings} :
    canonical (.map es) = canonical (.map es') ↔ Alike canonical es es' := by
  rw [canonical, canonical, toJson, toJson, Json.canonical_obj_iff, entriesJson_eq_mapValues,
    entriesJson_eq_mapValues, Alike.mapValues_iff]
  rfl

/-- The kind of the written form tells the kind of a setting. -/
theorem kind_eq {s s' : Setting} (h : canonical s = canonical s') : s.kind = s'.kind := by
  have hkind := Json.kind_eq h
  cases s <;> cases s' <;> first | rfl | cases hkind

/-- A function that tells the kinds of settings apart, and shows of a map what it shows of the values
under each key. -/
structure Shows {β : Type} (text : Setting → β) : Prop where
  kind_eq : ∀ {s s' : Setting}, text s = text s' → s.kind = s'.kind
  map_iff : ∀ {es es' : Settings}, text (.map es) = text (.map es') ↔ Alike text es es'

theorem shows_canonical : Shows canonical := ⟨kind_eq, canonical_map_iff⟩

/-! ### Merging at every depth -/

/-- What stands under a key after a value was merged into what stood there. -/
def mergeInto (ws : List Setting) (v : Setting) : List Setting :=
  [match ws.head? with
    | some s => merge s v
    | none => v]

theorem values_mergeEntries (entries upper : Settings) (k : String) :
    values (mergeEntries entries upper) k = (values upper k).foldl mergeInto (values entries k) := by
  induction upper generalizing entries with
  | nil => rw [mergeEntries]; rfl
  | cons e upper ih =>
    obtain ⟨k', v⟩ := e
    rw [mergeEntries, ih, Table.values_append, Table.values_erase, Table.values_cons,
      Table.values_cons, Table.values_nil]
    by_cases h : k' = k
    · subst h
      cases hget : Table.get? entries k' <;> simp [mergeInto, Table.head?_values, hget]
    · simp [h]

/-- A value that is no map replaces what it is merged into. -/
theorem merge_of_kind_ne {v : Setting} (h : v.kind ≠ .map) (s : Setting) : merge s v = v := by
  cases v <;> first | rfl | exact absurd rfl h

/-- What is no map is given up when a map is merged into it. -/
theorem merge_map_of_kind_ne {s : Setting} (h : s.kind ≠ .map) (upper : Settings) :
    merge s (.map upper) = .map upper := by
  cases s <;> first | rfl | exact absurd rfl h

/-! ### Merged maps -/

/-- The entries of a map; any other setting is as good as a map without entries to merge into. -/
def entriesD : Setting → Settings
  | .map es => es
  | _ => []

theorem entriesD_of_kind_ne {s : Setting} (h : s.kind ≠ .map) : s.entriesD = [] := by
  cases s with
  | map es => exact absurd rfl h
  | _ => rfl

/-- A value merged into what stands in its place, if anything does. -/
def mergeOver (s? : Option Setting) (v : Setting) : Setting :=
  match s? with
  | some s => merge s v
  | none => v

theorem mergeOver_of_kind_ne {v : Setting} (h : v.kind ≠ .map) (s? : Option Setting) :
    mergeOver s? v = v := by
  cases s? with
  | none => rfl
  | some s => exact merge_of_kind_ne h s

/-- The entries of the base under other keys come first, and then all of the upper entries. -/
theorem mergeEntries_eq {upper : Settings} (h : (keys upper).Nodup) (entries : Settings) :
    mergeEntries entries upper = entries.filter (fun e => e.1 ∉ keys upper) ++
      upper.map fun e => (e.1, mergeOver (Table.get? entries e.1) e.2) := by
  induction upper generalizing entries with
  | nil => simp [mergeEntries, keys]
  | cons e upper ih =>
    obtain ⟨k, v⟩ := e
    rw [keys_cons, List.nodup_cons] at h
    obtain ⟨hk, hnodup⟩ := h
    let merged := (k, mergeOver (Table.get? entries k) v)
    have hstep : mergeEntries entries ((k, v) :: upper) =
        mergeEntries (Table.erase entries k ++ [merged]) upper := by
      rw [mergeEntries]
      rfl
    have hothers : (Table.erase entries k ++ [merged]).filter (fun e => e.1 ∉ keys upper) =
        entries.filter (fun e => e.1 ∉ keys ((k, v) :: upper)) ++ [merged] := by
      have hsplit (e : String × Setting) : decide (e.1 ∉ keys ((k, v) :: upper)) =
          (decide (e.1 ∉ keys upper) && e.1 != k) := by
        by_cases he : e.1 = k <;> simp [keys_cons, he]
      have hone : [merged].filter (fun e => e.1 ∉ keys upper) = [merged] := by
        simp [merged, hk]
      rw [List.filter_append, hone, Table.erase, List.filter_filter]
      simp only [hsplit]
    have hupper : upper.map (fun e =>
          (e.1, mergeOver (Table.get? (Table.erase entries k ++ [merged]) e.1) e.2)) =
        upper.map fun e => (e.1, mergeOver (Table.get? entries e.1) e.2) := by
      refine List.map_congr_left fun e he => ?_
      have hne : e.1 ≠ k := ne_of_mem_of_not_mem (mem_keys_of_mem he) hk
      have hget : Table.get? (Table.erase entries k ++ [merged]) e.1 = Table.get? entries e.1 := by
        simp [Table.get?_append, Table.get?_erase, Table.get?, merged, hne, Ne.symm hne]
      rw [hget]
    rw [hstep, ih hnodup, hothers, hupper]
    simp [merged]

theorem keys_mergeEntries {upper : Settings} (h : (keys upper).Nodup) (entries : Settings) :
    keys (mergeEntries entries upper) =
      (keys entries).filter (fun k => k ∉ keys upper) ++ keys upper := by
  rw [mergeEntries_eq h]
  simp [keys, List.filter_map, Function.comp_def]

theorem get?_mergeEntries {upper : Settings} (h : (keys upper).Nodup) (entries : Settings)
    (k : String) : Table.get? (mergeEntries entries upper) k =
      match Table.get? upper k with
      | some v => some (mergeOver (Table.get? entries k) v)
      | none => Table.get? entries k := by
  rw [← Table.head?_values, values_mergeEntries, ← Table.head?_values upper k]
  obtain hnil | ⟨v, -, hone⟩ := Table.values_eq_nil_or_singleton h k
  · rw [hnil]
    exact Table.head?_values entries k
  · rw [hone]
    cases hget : Table.get? entries k <;> simp [mergeInto, mergeOver, Table.head?_values, hget]

/-- A setting that is no map is as good as a map without entries to merge a map into. -/
theorem merge_map_eq {upper : Settings} (h : (keys upper).Nodup) (a : Setting) :
    merge a (.map upper) = .map (mergeEntries a.entriesD upper) := by
  by_cases ha : a.kind = .map
  · cases a <;> cases ha
    rfl
  · rw [merge_map_of_kind_ne ha, entriesD_of_kind_ne ha, mergeEntries_eq h]
    simp [Table.get?, mergeOver]

/-! ### Merging alike -/

section Alike

variable {β : Type} {text : Setting → β}

/-- A value that is merged into settings that look alike gives settings that look alike. -/
def MergesAlike (text : Setting → β) (v : Setting) : Prop :=
  ∀ s s' v', text s = text s' → text v = text v' → text (merge s v) = text (merge s' v')

theorem mergeInto_alike {v v' : Setting} (hv : MergesAlike text v) (h : text v = text v')
    {ws ws' : List Setting} (hws : ws.map text = ws'.map text) :
    (mergeInto ws v).map text = (mergeInto ws' v').map text := by
  cases ws <;> cases ws' <;> simp only [List.map_nil, List.map_cons, reduceCtorEq,
    List.cons.injEq] at hws
  · simp [mergeInto, h]
  · simp [mergeInto, hv _ _ _ hws.1 h]

/-- A map is merged alike if each of its values is. -/
theorem Shows.mergesAlike_map (htext : Shows text) {upper : Settings}
    (h : ∀ e ∈ upper, MergesAlike text e.2) : MergesAlike text (.map upper) := by
  intro s s' v' hs hv
  cases v' <;> cases htext.kind_eq hv
  next upper' =>
    have hupper := htext.map_iff.1 hv
    by_cases hkind : s.kind = .map
    · have hkind' : s'.kind = .map := (htext.kind_eq hs) ▸ hkind
      cases s <;> cases hkind
      cases s' <;> cases hkind'
      next entries entries' =>
        rw [merge, merge, htext.map_iff]
        intro k
        rw [values_mergeEntries, values_mergeEntries]
        refine Alike.foldl_map_eq (hupper k) (fun v hv v' ws ws' hsame hws => ?_) _ _
          (htext.map_iff.1 hs k)
        exact mergeInto_alike (h _ (Table.mem_of_mem_values hv)) hsame hws
    · have hkind' : s'.kind ≠ .map := (htext.kind_eq hs) ▸ hkind
      rw [merge_map_of_kind_ne hkind, merge_map_of_kind_ne hkind', hv]

theorem Shows.mergesAlike_of_kind_ne (htext : Shows text) {v : Setting} (h : v.kind ≠ .map) :
    MergesAlike text v := by
  intro s s' v' _ hv
  rw [merge_of_kind_ne h, merge_of_kind_ne (htext.kind_eq hv ▸ h), hv]

mutual

theorem Shows.mergesAlike (htext : Shows text) : ∀ v : Setting, MergesAlike text v
  | .map upper => htext.mergesAlike_map (htext.mergesAlike_entries upper)
  | .bool _ => htext.mergesAlike_of_kind_ne (by simp [kind])
  | .num _ => htext.mergesAlike_of_kind_ne (by simp [kind])
  | .str _ => htext.mergesAlike_of_kind_ne (by simp [kind])
  | .list _ => htext.mergesAlike_of_kind_ne (by simp [kind])

theorem Shows.mergesAlike_entries (htext : Shows text) :
    ∀ upper : List (String × Setting), ∀ e ∈ upper, MergesAlike text e.2
  | [], e, h => by simp at h
  | (k, v) :: upper, e, h => by
    rcases List.mem_cons.1 h with rfl | h
    · exact htext.mergesAlike v
    · exact htext.mergesAlike_entries upper e h

end

end Alike

end Setting

/-! ### Overlaying -/

namespace Settings

/-- What stands under a key after a value was laid onto what stood there. -/
def layInto (deep : List String) (k : String) (ws : List Setting) (v : Setting) : List Setting :=
  (match ws.head? with
    | some s => if deep.contains k then s.merge v else v
    | none => v) :: ws.tail

theorem values_overlayOne (deep : List String) (t : Settings) (k : String) (v : Setting)
    (k' : String) : values (overlayOne deep t k v) k' =
      if k = k' then layInto deep k (values t k) v else values t k' := by
  unfold overlayOne layInto
  rw [Table.head?_values]
  cases Table.get? t k <;> rw [Table.values_put]

/-- Laying alike settings onto alike settings gives alike settings. -/
theorem overlay_alike {β : Type} {text : Setting → β} (htext : Setting.Shows text)
    (deep : List String) {t t' u u' : Settings} (h : Alike text t t') (h' : Alike text u u') :
    Alike text (overlay deep t u) (overlay deep t' u') := by
  refine Alike.foldl (values_overlayOne deep) ?_ h h'
  intro k v _ v' ws ws' hv hws
  cases ws <;> cases ws' <;> simp only [List.map_nil, List.map_cons, reduceCtorEq,
    List.cons.injEq] at hws
  · simp [layInto, hv]
  · by_cases hdeep : k ∈ deep
    · simp [layInto, hdeep, hws.2, htext.mergesAlike v _ _ _ hws.1 hv]
    · simp [layInto, hdeep, hws.2, hv]

end Settings

end LintConfig
