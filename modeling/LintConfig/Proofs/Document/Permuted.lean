import LintConfig.Fragment
import LintConfig.Proofs.Decode.Permuted
import LintConfig.Proofs.Layer.Alike

/-!
# Permuted documents

Documents are permuted if they differ in the order of the keys of their tables only, at any depth.
What is read from values with keys in another order are permuted documents (`Document.respects`),
they stay permuted in normal form, and they are written with one canonical text
(`Document.Permuted.canonical_eq`).
-/

namespace LintConfig

open Decode Decode.Record
open Json (Permuted canonicalChars canonicalMembers)

/-- Blocks that differ in the order of the keys of their tables only. -/
structure OverrideBlock.Permuted (b b' : OverrideBlock) : Prop where
  files : b.files = b'.files
  excludedFiles : b.excludedFiles = b'.excludedFiles
  plugins : b.plugins = b'.plugins
  rules : Rewritten RuleMap.toJson b.rules b'.rules
  settings : Rewritten Settings.toJson b.settings b'.settings
  env : Rewritten Written.environment b.env b'.env
  globals : Rewritten Settings.toJson b.globals b'.globals
  parser : b.parser = b'.parser
  parserOptions : Rewritten Settings.toJson b.parserOptions b'.parserOptions

/-- Documents that differ in the order of the keys of their tables only, overrides included. -/
structure Document.Permuted (d d' : Document) : Prop where
  bases : d.bases = d'.bases
  plugins : d.plugins = d'.plugins
  rules : Rewritten RuleMap.toJson d.rules d'.rules
  settings : Rewritten Settings.toJson d.settings d'.settings
  env : Rewritten Written.environment d.env d'.env
  globals : Rewritten Settings.toJson d.globals d'.globals
  parser : d.parser = d'.parser
  parserOptions : Rewritten Settings.toJson d.parserOptions d'.parserOptions
  ignorePatterns : d.ignorePatterns = d'.ignorePatterns
  overrides : List.Forall₂ OverrideBlock.Permuted d.overrides d'.overrides

/-! ### Reading -/

theorem rewritten_nil {α : Type} {write : List α → Json} (h : write [] = .obj []) :
    Rewritten write [] [] := by
  rw [Rewritten, h]
  exact .obj .nil .nil List.nodup_nil

namespace OverrideBlock

theorem permuted_blank : Permuted {} {} where
  files := rfl
  excludedFiles := rfl
  plugins := rfl
  rules := rewritten_nil rfl
  settings := rewritten_nil rfl
  env := rewritten_nil rfl
  globals := rewritten_nil rfl
  parser := rfl
  parserOptions := rewritten_nil rfl

theorem commutes : ∀ name ∈ record.fields, ∀ name' ∈ record.fields, name ≠ name' →
    Commutes record name name' := by
  intro name hname name' hname' hne
  simp only [record, List.mem_cons, List.not_mem_nil, or_false] at hname hname'
  rcases hname with rfl | rfl | rfl | rfl | rfl | rfl | rfl | rfl | rfl <;>
    rcases hname' with rfl | rfl | rfl | rfl | rfl | rfl | rfl | rfl | rfl <;>
    first
    | exact absurd rfl hne
    | exact .of_set (fun _ _ => rfl) (fun _ _ => rfl) fun _ _ _ => rfl

theorem respects (shape : Shape) : Respects (record.decode shape) Permuted := by
  refine Record.respects permuted_blank (fun name hname => ?_) commutes shape
  simp only [record, List.mem_cons, List.not_mem_nil, or_false] at hname
  rcases hname with rfl | rfl | rfl | rfl | rfl | rfl | rfl | rfl | rfl
  · exact .of_respects OneOrMany.respects (fun _ _ => rfl) fun _ _ _ _ h hv => { h with files := hv }
  · exact .of_respects OneOrMany.respects.optional (fun _ _ => rfl)
      fun _ _ _ _ h hv => { h with excludedFiles := hv }
  · exact .of_respects respects_string.list_eq (fun _ _ => rfl)
      fun _ _ _ _ h hv => { h with plugins := hv }
  · exact .of_respects RuleMap.respects (fun _ _ => rfl) fun _ _ _ _ h hv => { h with rules := hv }
  · exact .of_respects Settings.respects (fun _ _ => rfl)
      fun _ _ _ _ h hv => { h with settings := hv }
  · exact .of_respects respects_environment (fun _ _ => rfl)
      fun _ _ _ _ h hv => { h with env := hv }
  · exact .of_respects Settings.respects (fun _ _ => rfl)
      fun _ _ _ _ h hv => { h with globals := hv }
  · exact .of_respects respects_string.optional (fun _ _ => rfl)
      fun _ _ _ _ h hv => { h with parser := hv }
  · exact .of_respects Settings.respects (fun _ _ => rfl)
      fun _ _ _ _ h hv => { h with parserOptions := hv }

end OverrideBlock

namespace Document

variable {shape : Shape} {d d' : Document}

theorem permuted_blank : Permuted {} {} where
  bases := rfl
  plugins := rfl
  rules := rewritten_nil rfl
  settings := rewritten_nil rfl
  env := rewritten_nil rfl
  globals := rewritten_nil rfl
  parser := rfl
  parserOptions := rewritten_nil rfl
  ignorePatterns := rfl
  overrides := .nil

theorem commutes : ∀ name ∈ (record shape).fields, ∀ name' ∈ (record shape).fields, name ≠ name' →
    Commutes (record shape) name name' := by
  intro name hname name' hname' hne
  simp only [record, List.mem_cons, List.not_mem_nil, or_false] at hname hname'
  rcases hname with rfl | rfl | rfl | rfl | rfl | rfl | rfl | rfl | rfl | rfl <;>
    rcases hname' with rfl | rfl | rfl | rfl | rfl | rfl | rfl | rfl | rfl | rfl <;>
    first
    | exact absurd rfl hne
    | exact .of_set (fun _ _ => rfl) (fun _ _ => rfl) fun _ _ _ => rfl

/-- A document is read with its keys in the other order, at any depth. -/
theorem respects (shape : Shape) : Respects (Document.decode shape) Permuted := by
  refine Record.respects permuted_blank (fun name hname => ?_) commutes shape
  simp only [record, List.mem_cons, List.not_mem_nil, or_false] at hname
  rcases hname with rfl | rfl | rfl | rfl | rfl | rfl | rfl | rfl | rfl | rfl
  · exact .of_respects OneOrMany.respects (fun _ _ => rfl) fun _ _ _ _ h hv => { h with bases := hv }
  · exact .of_respects respects_string.list_eq (fun _ _ => rfl)
      fun _ _ _ _ h hv => { h with plugins := hv }
  · exact .of_respects RuleMap.respects (fun _ _ => rfl) fun _ _ _ _ h hv => { h with rules := hv }
  · exact .of_respects Settings.respects (fun _ _ => rfl)
      fun _ _ _ _ h hv => { h with settings := hv }
  · exact .of_respects respects_environment (fun _ _ => rfl)
      fun _ _ _ _ h hv => { h with env := hv }
  · exact .of_respects Settings.respects (fun _ _ => rfl)
      fun _ _ _ _ h hv => { h with globals := hv }
  · exact .of_respects respects_string.optional (fun _ _ => rfl)
      fun _ _ _ _ h hv => { h with parser := hv }
  · exact .of_respects Settings.respects (fun _ _ => rfl)
      fun _ _ _ _ h hv => { h with parserOptions := hv }
  · exact .of_respects respects_string.list_eq (fun _ _ => rfl)
      fun _ _ _ _ h hv => { h with ignorePatterns := hv }
  · exact .of_respects (OverrideBlock.respects shape).list (fun _ _ => rfl)
      fun _ _ _ _ h hv => { h with overrides := hv }

theorem Permuted.normalize (h : d.Permuted d') : d.normalize.Permuted d'.normalize := by
  refine { h with plugins := congrArg Rule.normalizePlugins h.plugins, overrides := ?_ }
  change List.Forall₂ _ (d.overrides.map _) (d'.overrides.map _)
  rw [List.forall₂_map_left_iff, List.forall₂_map_right_iff]
  exact h.overrides.imp fun _ _ hb =>
    { hb with plugins := congrArg Rule.normalizePlugins hb.plugins }

end Document

/-! ### Writing -/

namespace Json

theorem canonicalMembers_append (ms ms' : List (String × Json)) :
    canonicalMembers (ms ++ ms') = canonicalMembers ms ++ canonicalMembers ms' := by
  simp only [canonicalMembers_eq_map, List.map_append]

theorem canonicalChars_obj_congr {ms ms' : List (String × Json)}
    (h : canonicalMembers ms = canonicalMembers ms') :
    canonicalChars (.obj ms) = canonicalChars (.obj ms') := by
  rw [canonicalChars, canonicalChars, h]

theorem Permuted.length_eq {ms ms' : List (String × Json)} (h : Permuted (.obj ms) (.obj ms')) :
    ms.length = ms'.length := by
  cases h with
  | obj hms hperm _ => rw [(permutedMembers_iff.1 hms).length_eq, hperm.length_eq]

end Json

/-- A field with as many items and the same canonical text is written alike, or left out as well. -/
theorem Written.canonicalMembers_unlessEmpty_congr {α : Type} {items items' : List α}
    {json json' : Json} (hlength : items.length = items'.length)
    (h : canonicalChars json = canonicalChars json') (name : String) :
    canonicalMembers (unlessEmpty name items json) =
      canonicalMembers (unlessEmpty name items' json') := by
  have hempty : items.isEmpty = items'.isEmpty := by
    rw [Bool.eq_iff_iff, List.isEmpty_iff_length_eq_zero, List.isEmpty_iff_length_eq_zero, hlength]
  unfold unlessEmpty
  rw [hempty]
  split_ifs
  · rfl
  · simp only [canonicalMembers, h]

theorem Decode.Rewritten.canonicalMembers_eq {α : Type} {json : Table α → Json} {write : α → Json}
    {t u : Table α} (h : Rewritten json t u) (hjson : ∀ t, json t = .obj (Table.mapValues write t))
    (name : String) : canonicalMembers (Written.unlessEmpty name t (json t)) =
      canonicalMembers (Written.unlessEmpty name u (json u)) := by
  refine Written.canonicalMembers_unlessEmpty_congr ?_ h.canonicalChars_eq name
  rw [Rewritten, hjson, hjson] at h
  simpa [Table.mapValues] using h.length_eq

theorem OverrideBlock.Permuted.canonical_eq {b b' : OverrideBlock} (h : b.Permuted b') :
    canonicalChars b.toJson = canonicalChars b'.toJson := by
  have hrules := h.rules.canonicalMembers_eq (fun _ => rfl) "rules"
  have hsettings := h.settings.canonicalMembers_eq Settings.toJson_eq "settings"
  have henv := h.env.canonicalMembers_eq (fun _ => rfl) "env"
  have hglobals := h.globals.canonicalMembers_eq Settings.toJson_eq "globals"
  have hparserOptions := h.parserOptions.canonicalMembers_eq Settings.toJson_eq "parserOptions"
  refine Json.canonicalChars_obj_congr ?_
  simp only [canonicalMembers, Json.canonicalMembers_append, h.files, h.excludedFiles, h.plugins,
    h.parser, hrules, hsettings, henv, hglobals, hparserOptions]

/-- Permuted documents are written with one canonical text. -/
theorem Document.Permuted.canonical_eq {d d' : Document} (h : d.Permuted d') :
    canonicalChars d.toJson = canonicalChars d'.toJson := by
  have hrules := h.rules.canonicalMembers_eq (fun _ => rfl) "rules"
  have hsettings := h.settings.canonicalMembers_eq Settings.toJson_eq "settings"
  have henv := h.env.canonicalMembers_eq (fun _ => rfl) "env"
  have hglobals := h.globals.canonicalMembers_eq Settings.toJson_eq "globals"
  have hparserOptions := h.parserOptions.canonicalMembers_eq Settings.toJson_eq "parserOptions"
  have hoverrides : canonicalMembers (Written.unlessEmpty "overrides" d.overrides
        (.arr (d.overrides.map OverrideBlock.toJson))) =
      canonicalMembers (Written.unlessEmpty "overrides" d'.overrides
        (.arr (d'.overrides.map OverrideBlock.toJson))) := by
    refine Written.canonicalMembers_unlessEmpty_congr h.overrides.length_eq ?_ "overrides"
    rw [Json.canonical_arr_iff, List.map_map, List.map_map, map_eq_map_iff_forall₂]
    exact h.overrides.imp fun _ _ hb => hb.canonical_eq
  refine Json.canonicalChars_obj_congr ?_
  simp only [Json.canonicalMembers_append, h.bases, h.plugins, h.parser, h.ignorePatterns, hrules,
    hsettings, henv, hglobals, hparserOptions, hoverrides]

end LintConfig
