import LintConfig.Proofs.Layer.Precedence
import LintConfig.Proofs.Setting.Absorption
import Mathlib.Data.List.Sort

/-!
# Layers that come again

Every field of a layer is merged in a way that absorbs what comes again later, the order of keys
aside (`Layer.Reordered`).  So of layers that come from elements with keys, such as the fragments of
a chain, those of the last element with each key are enough (`Layer.reordered_keepLast`).
-/

namespace LintConfig

open Table (Alike values)

/-- Layers that differ in the order of keys only, at every depth. -/
structure Layer.Reordered (l l' : Layer) : Prop where
  plugins : l.plugins = l'.plugins
  rules : Alike id l.rules l'.rules
  settings : Alike Setting.sorted l.settings l'.settings
  env : Alike id l.env l'.env
  globals : Alike id l.globals l'.globals
  parser : l.parser = l'.parser
  parserOptions : Alike id l.parserOptions l'.parserOptions

theorem Layer.Reordered.refl (l : Layer) : l.Reordered l where
  plugins := rfl
  rules := .refl _ _
  settings := .refl _ _
  env := .refl _ _
  globals := .refl _ _
  parser := rfl
  parserOptions := .refl _ _

namespace Settings

/-- Without deep keys settings are laid on like any table. -/
theorem overlay_nil (base upper : Settings) : overlay [] base upper = Table.overlay base upper := by
  have hone (t : Settings) (k : String) (v : Setting) : overlayOne [] t k v = Table.put t k v := by
    unfold overlayOne
    cases Table.get? t k <;> simp
  unfold overlay Table.overlay
  simp only [hone]

end Settings

theorem absorbs_or {α : Type} :
    Absorbs (· = ·) (fun (b u : Option α) => u.or b) fun _ => True where
  equivalence := eq_equivalence
  congr := by
    rintro s _ d rfl
    rfl
  absorbed {d} _ := by
    constructor
    · intro s
      cases d <;> rfl
    · intro s x _
      cases d <;> rfl

theorem Names.sorted_union {a : Names} (h : a.Pairwise (· < ·)) (b : Names) :
    (union a b).Pairwise (· < ·) := by
  unfold union
  induction b generalizing a with
  | nil => exact h
  | cons n b ih => exact ih (sorted_insert h n)

namespace Layer

variable {α κ : Type} [DecidableEq κ] {deep : Names} {b b' : Layer}

theorem sorted_plugins_mergeAll (h : b.plugins.Pairwise (· < ·)) (layers : List Layer) :
    (mergeAll deep b layers).plugins.Pairwise (· < ·) := by
  unfold mergeAll
  induction layers generalizing b with
  | nil => exact h
  | cons l layers ih => exact ih (Names.sorted_union h l.plugins)

section

variable {key : α → κ} {as : List α} (has : ∀ a ∈ as, ∀ b ∈ as, key a = key b → a = b)
  (g : α → List Layer)

include has

/-- What leaving out does to a field that is merged on its own. -/
theorem field_keepLast {τ : Type} {same : τ → τ → Prop} {lay : τ → τ → τ} {P : τ → Prop}
    (h : Absorbs same lay P) (field : Layer → τ)
    (hfield : ∀ b u, field (merge deep b u) = lay (field b) (field u))
    (hb : same (field b) (field b')) (hP : ∀ a ∈ as, ∀ l ∈ g a, P (field l)) :
    same (field (mergeAll deep b (as.flatMap g)))
      (field (mergeAll deep b' ((keepLast key as).flatMap g))) := by
  have hP' : ∀ a ∈ as, ∀ v ∈ (g a).map field, P v := by
    intro a ha v hv
    obtain ⟨l, hl, rfl⟩ := List.mem_map.1 hv
    exact hP a ha l hl
  rw [mergeAll_field _ _ _ field lay hfield, mergeAll_field _ _ _ field lay hfield,
    List.map_flatMap, List.map_flatMap]
  exact h.equivalence.trans (h.foldl_keepLast _ has hP' _) (h.foldl_congr _ hb)

/-- Layers of elements with one key might as well be left out but for the last element, the order
of keys aside. -/
theorem reordered_keepLast (hb : b.Reordered b') (hplugins : b.plugins.Pairwise (· < ·))
    (hg : ∀ a ∈ as, ∀ l ∈ g a, Settings.Keyed l.settings) :
    (mergeAll deep b (as.flatMap g)).Reordered
      (mergeAll deep b' ((keepLast key as).flatMap g)) where
  plugins := by
    refine (sorted_plugins_mergeAll hplugins _).eq_of_mem_iff
      (sorted_plugins_mergeAll (hb.plugins ▸ hplugins) _) fun x => ?_
    simp only [mem_plugins_mergeAll, hb.plugins, List.mem_flatMap, mem_keepLast_iff has]
  rules := field_keepLast has g (Table.absorbs_overlay id) rules (fun _ _ => rfl) hb.rules
    fun _ _ _ _ => trivial
  settings := field_keepLast has g (Settings.absorbs_overlay Setting.shows_sorted deep) settings
    (fun _ _ => rfl) hb.settings hg
  env := field_keepLast has g (Table.absorbs_overlay id) env (fun _ _ => rfl) hb.env
    fun _ _ _ _ => trivial
  globals := field_keepLast has g (Table.absorbs_overlay id) globals
    (fun _ _ => Settings.overlay_nil _ _) hb.globals fun _ _ _ _ => trivial
  parser := field_keepLast has g absorbs_or parser (fun _ _ => rfl) hb.parser
    fun _ _ _ _ => trivial
  parserOptions := field_keepLast has g (Table.absorbs_overlay id) parserOptions
    (fun _ _ => Settings.overlay_nil _ _) hb.parserOptions fun _ _ _ _ => trivial

end

end Layer

end LintConfig
