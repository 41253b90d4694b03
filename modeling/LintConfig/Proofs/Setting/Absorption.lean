import LintConfig.Document.Decode
import LintConfig.Proofs.Decode
import LintConfig.Proofs.Setting.Sorted
import LintConfig.Proofs.Table.Absorption

/-!
# Settings that are laid on twice

Merging a setting at every depth is absorbed, the order of keys aside, if no map in it repeats a
key: a setting that is merged later writes the same values into the same places, whatever stands
there by then.  What is read from a text has no such map (`keyed_of_ofNode?`).
-/

namespace LintConfig

open Table (Alike values)

namespace Setting

/-- No map repeats a key, as deep as merging goes. -/
inductive Keyed : Setting → Prop
  | leaf {s : Setting} (h : s.kind ≠ .map) : Keyed s
  | map {es : Settings} (hnodup : (Table.keys es).Nodup) (h : ∀ e ∈ es, Keyed e.2) :
      Keyed (.map es)

mutual

/-- A setting that is read repeats no key. -/
theorem keyed_of_ofNode? : ∀ (n : Node) {s : Setting}, ofNode? n = some s → s.Keyed
  | .map entries, s, h => by
    obtain ⟨es, hes, rfl⟩ := Option.map_eq_some_iff.1 h
    refine .map (Table.nodup_keys_ofEntries es) fun e he => ?_
    exact keyed_of_entriesOf? entries hes e (Table.mem_of_mem_ofEntries he)
  | .seq items, s, h => by
    obtain ⟨ss, -, rfl⟩ := Option.map_eq_some_iff.1 h
    exact .leaf (by simp [kind])
  | .scalar t, s, h => by
    obtain ⟨a, -, ha⟩ := Option.bind_eq_some_iff.1 h
    cases a <;> cases ha <;> exact .leaf (by simp [kind])
  | .bool b, s, h => by cases h; exact .leaf (by simp [kind])
  | .num n, s, h => by cases h; exact .leaf (by simp [kind])
  | .str t, s, h => by cases h; exact .leaf (by simp [kind])
  | .null, s, h => by cases h
  | .tagged n, s, h => by cases h
  | .unreadable, s, h => by cases h

theorem keyed_of_entriesOf? : ∀ (ns : List (Node × Node)) {es : Settings}, entriesOf? ns = some es →
    ∀ e ∈ es, e.2.Keyed
  | [], es, h => by cases h; simp
  | (k, v) :: ns, es, h => by
    simp only [entriesOf?, Option.bind_eq_bind, Option.bind_eq_some_iff] at h
    obtain ⟨key, -, s, hs, rest, hrest, h⟩ := h
    obtain rfl := Option.some.inj h
    intro e he
    rcases List.mem_cons.1 he with rfl | he
    · exact keyed_of_ofNode? v hs
    · exact keyed_of_entriesOf? ns hrest e he

end

/-! ### Merging -/

section Merging

variable {β : Type} {text : Setting → β}

/-- A value that is merged where nothing stands might as well be merged into what is no map. -/
theorem merge_bool (b : Bool) (v : Setting) : merge (.bool b) v = v := by
  cases v <;> simp [merge]

theorem mergeInto_eq (ws : List Setting) (v : Setting) :
    mergeInto ws v = [merge (ws.headD (.bool false)) v] := by
  cases ws <;> simp [mergeInto, merge_bool]

theorem layInto_eq (deep : List String) (k : String) (ws : List Setting) (v : Setting) :
    Settings.layInto deep k ws v =
      (if k ∈ deep then merge (ws.headD (.bool false)) v else v) :: ws.tail := by
  cases ws <;> simp [Settings.layInto, merge_bool]

theorem absorbed_of_kind_ne {v : Setting} (h : v.kind ≠ .map) :
    Absorbed (fun s s' => text s = text s') merge Keyed v where
  again s := by rw [merge_of_kind_ne h, merge_of_kind_ne h]
  skip s x _ := by rw [merge_of_kind_ne h, merge_of_kind_ne h]

theorem mergeEntries_eq_foldl (es upper : Settings) : mergeEntries es upper =
    upper.foldl (fun acc e => mergeEntries acc [(e.1, e.2)]) es := by
  induction upper generalizing es with
  | nil => rfl
  | cons e upper ih => rw [List.foldl_cons, ← ih]; rfl

theorem values_mergeEntry (es : Settings) (k : String) (v : Setting) (k' : String) :
    values (mergeEntries es [(k, v)]) k' =
      if k = k' then mergeInto (values es k) v else values es k' := by
  rw [values_mergeEntries, Table.values_cons, Table.values_nil]
  by_cases h : k = k'
  · simp [h]
  · simp [h]

/-- A map without a repeated key is absorbed if each of its values is. -/
theorem Shows.absorbed_map (htext : Shows text) {es : Settings} (hnodup : (Table.keys es).Nodup)
    (h : ∀ e ∈ es, Absorbed (fun s s' => text s = text s') merge Keyed e.2) :
    Absorbed (fun s s' => text s = text s') merge Keyed (.map es) := by
  have hentries : Absorbed (Alike text) mergeEntries
      (fun x => (Table.keys x).Nodup ∧ ∀ e ∈ x, e.2.Keyed) es := by
    have hvalues (e) (he : e ∈ es) : Absorbed (AlikeValues text) mergeInto Keyed e.2 := by
      have hslot := (h e he).slot (.bool false) (fun _ => []) fun _ _ => rfl
      rwa [← funext₂ mergeInto_eq] at hslot
    have hkeyed := Absorbed.keyed values_mergeEntry hnodup hvalues
    rwa [← funext₂ mergeEntries_eq_foldl] at hkeyed
  have hcongr {s s' : Setting} (v : Setting) (hs : text s = text s') :
      text (merge s v) = text (merge s' v) := htext.mergesAlike v s s' v hs rfl
  constructor
  · intro s
    have hs : text (merge s (.map es)) = text (merge (.map s.entriesD) (.map es)) :=
      congrArg text (merge_map_eq hnodup s)
    calc text (merge (merge s (.map es)) (.map es))
        = text (merge (merge (.map s.entriesD) (.map es)) (.map es)) := hcongr _ hs
      _ = text (merge (.map s.entriesD) (.map es)) := htext.map_iff.2 (hentries.again s.entriesD)
      _ = text (merge s (.map es)) := hs.symm
  · intro s x hx
    cases hx with
    | leaf hx => rw [merge_of_kind_ne hx, merge_of_kind_ne hx]
    | @map xs hnodup' hxs =>
      have hskip := hentries.skip s.entriesD xs ⟨hnodup', hxs⟩
      calc text (merge (merge (merge s (.map es)) (.map xs)) (.map es))
          = text (merge (merge (merge (.map s.entriesD) (.map es)) (.map xs)) (.map es)) :=
            hcongr _ (hcongr _ (congrArg text (merge_map_eq hnodup s)))
        _ = text (merge (merge (.map s.entriesD) (.map xs)) (.map es)) := htext.map_iff.2 hskip
        _ = text (merge (merge s (.map xs)) (.map es)) :=
            (hcongr _ (congrArg text (merge_map_eq hnodup' s))).symm

/-- Merging is absorbed, as far as a function shows that hides the order of keys. -/
theorem Shows.absorbed (htext : Shows text) {v : Setting} (h : v.Keyed) :
    Absorbed (fun s s' => text s = text s') merge Keyed v := by
  induction h with
  | leaf h => exact absorbed_of_kind_ne h
  | map hnodup _ ih => exact htext.absorbed_map hnodup ih

end Merging

end Setting

/-! ### Overlaying -/

namespace Settings

/-- No map in the settings repeats a key, nor do the settings themselves. -/
def Keyed (t : Settings) : Prop := (Table.keys t).Nodup ∧ ∀ e ∈ t, e.2.Keyed

theorem keyed_of_decode {n : Node} {t : Settings} (h : Settings.decode n = .ok t) : Keyed t := by
  obtain ⟨hnodup, hvalues⟩ := Decode.exists_of_table h
  refine ⟨hnodup, fun e he => ?_⟩
  obtain ⟨n, hn⟩ := hvalues e he
  unfold Decode.setting at hn
  split at hn
  · exact Setting.keyed_of_ofNode? n (Except.ok.inj hn ▸ ‹_›)
  · cases hn

theorem keyed_nil : Keyed [] := ⟨List.nodup_nil, by simp⟩

/-- Settings that are laid on again might as well be left out before. -/
theorem absorbs_overlay {β : Type} {text : Setting → β} (htext : Setting.Shows text)
    (deep : List String) : Absorbs (Alike text) (overlay deep) Keyed where
  equivalence := (Table.absorbs_overlay text).equivalence
  congr u h := overlay_alike htext deep h (.refl text u)
  absorbed := by
    intro u hu
    refine Absorbed.keyed (values_overlayOne deep) hu.1 fun e he => ?_
    have hone : Absorbed (fun s s' => text s = text s')
        (fun s v => if e.1 ∈ deep then s.merge v else v) Setting.Keyed e.2 := by
      by_cases hdeep : e.1 ∈ deep
      · simpa [hdeep] using htext.absorbed (hu.2 e he)
      · simp only [hdeep, if_false]
        exact ⟨fun _ => rfl, fun _ _ _ => rfl⟩
    have hslot := hone.slot (.bool false) List.tail fun _ _ => rfl
    rwa [← funext₂ (Setting.layInto_eq deep e.1)] at hslot

end Settings

/-! ### Documents -/

/-- No settings in a document repeat a key. -/
structure Document.Keyed (d : Document) : Prop where
  settings : d.settings.Keyed
  overrides : ∀ b ∈ d.overrides, b.settings.Keyed

namespace Document

theorem Keyed.normalize {d : Document} (h : d.Keyed) : d.normalize.Keyed where
  settings := h.settings
  overrides b hb := by
    obtain ⟨c, hc, rfl⟩ := List.mem_map.1 hb
    exact h.overrides c hc

open Decode

theorem keyed_of_decode_override {shape : Shape} {n : Node} {b : OverrideBlock}
    (h : OverrideBlock.record.decode shape n = .ok b) : b.settings.Keyed := by
  refine Record.holds_of_decode (P := fun b : OverrideBlock => b.settings.Keyed)
    Settings.keyed_nil (fun name n a b ha hread => ?_) h
  simp only [OverrideBlock.record] at hread
  split at hread
  case h_10 => exact Except.ok.inj hread ▸ ha
  all_goals obtain ⟨v, hv, rfl⟩ := exists_of_read hread
  case h_5 => exact Settings.keyed_of_decode hv
  all_goals exact ha

/-- A document that is read repeats no key. -/
theorem keyed_of_decode {shape : Shape} {n : Node} {d : Document}
    (h : Document.decode shape n = .ok d) : d.Keyed := by
  refine Record.holds_of_decode (P := Keyed)
    ⟨Settings.keyed_nil, by simp [record]⟩ (fun name n a b ha hread => ?_) h
  simp only [record] at hread
  split at hread
  case h_11 => exact Except.ok.inj hread ▸ ha
  all_goals obtain ⟨v, hv, rfl⟩ := exists_of_read hread
  case h_4 => exact { ha with settings := Settings.keyed_of_decode hv }
  case h_10 =>
    refine { ha with overrides := fun b hb => ?_ }
    obtain ⟨n, hn⟩ := exists_of_list hv b hb
    exact keyed_of_decode_override hn
  all_goals exact { ha with }

end Document

end LintConfig
