import LintConfig.Engine.Options
import LintConfig.Plugin.Manifest
import LintConfig.Proofs.Decode.Settled

/-!
# Documents with integers for whole doubles

What is read from a node as a document or a manifest is read from its settled value with integers
for whole doubles, in the settings, in the rule entries and in the default options.  Engine options
have no doubles and are read alike.
-/

namespace LintConfig

open Decode Decode.Record
open Json (Settled)

/-! ### Integers for whole doubles -/

/-- Makes an integer of a whole double. -/
def RawSeverity.wholeNumbers : RawSeverity → RawSeverity
  | .code x => .code (Json.wholeNumber x)
  | .word s => .word s

/-- Makes integers of whole doubles in the severity and in the options. -/
def RuleEntry.wholeNumbers (e : RuleEntry) : RuleEntry where
  severity := e.severity.wholeNumbers
  options := e.options.map (List.map Setting.wholeNumbers)

/-- Makes integers of whole doubles in every entry. -/
def RuleMap.wholeNumbers (rules : RuleMap) : RuleMap := Table.mapValues RuleEntry.wholeNumbers rules

/-- Makes integers of whole doubles in every value. -/
def Settings.wholeNumbers (s : Settings) : Settings := Table.mapValues Setting.wholeNumbers s

/-- Makes integers of whole doubles wherever the block has numbers. -/
def OverrideBlock.wholeNumbers (b : OverrideBlock) : OverrideBlock :=
  { b with
    rules := RuleMap.wholeNumbers b.rules
    settings := Settings.wholeNumbers b.settings
    globals := Settings.wholeNumbers b.globals
    parserOptions := Settings.wholeNumbers b.parserOptions }

/-- Makes integers of whole doubles wherever the document has numbers. -/
def Document.wholeNumbers (d : Document) : Document :=
  { d with
    rules := RuleMap.wholeNumbers d.rules
    settings := Settings.wholeNumbers d.settings
    globals := Settings.wholeNumbers d.globals
    parserOptions := Settings.wholeNumbers d.parserOptions
    overrides := d.overrides.map OverrideBlock.wholeNumbers }

/-- Makes integers of whole doubles in the default options. -/
def ManifestRule.wholeNumbers (r : ManifestRule) : ManifestRule :=
  { r with defaultOptions := r.defaultOptions.map Setting.wholeNumbers }

/-- Makes integers of whole doubles in the rules and in the presets. -/
def Manifest.wholeNumbers (m : Manifest) : Manifest :=
  { m with
    rules := Table.mapValues ManifestRule.wholeNumbers m.rules
    configs := Table.mapValues Document.wholeNumbers m.configs }

/-! ### Reading -/

theorem Settings.keeps : Keeps Settings.decode Settings.wholeNumbers := keeps_setting.table

theorem OneOrMany.keeps : Keeps OneOrMany.decode id := by
  have htexts (ss : List Setting) :
      (ss.map Setting.wholeNumbers).mapM Setting.str? = ss.mapM Setting.str? := by
    induction ss with
    | nil => rfl
    | cons s ss ih =>
      have hs : s.wholeNumbers.str? = s.str? := by cases s <;> rfl
      rw [List.map_cons, List.mapM_cons, List.mapM_cons, hs, ih]
  refine keeps_of_ofNode? ?_ ?_
  · intro n o hn h
    rw [OneOrMany.decode, hn] at h
    cases h
  · intro n n' s o hn hn' h
    rw [OneOrMany.decode, hn] at h
    rw [OneOrMany.decode, hn']
    cases s with
    | str s => exact h
    | list ss =>
      dsimp only [Setting.wholeNumbers]
      rw [Setting.wholeItems_eq_map, htexts]
      exact h
    | _ => cases h

theorem RuleEntry.ofSetting_wholeNumbers {s : Setting} {e : RuleEntry} (h : ofSetting s = .ok e) :
    ofSetting s.wholeNumbers = .ok e.wholeNumbers := by
  cases s with
  | num x =>
    cases h
    rfl
  | str word =>
    cases h
    rfl
  | list items =>
    rw [Setting.wholeNumbers, Setting.wholeItems_eq_map]
    -- without options none are made, and with some none are lost
    cases items with
    | nil => cases h
    | cons s rest =>
      cases s with
      | num x => cases rest <;> cases h <;> rfl
      | str word => cases rest <;> cases h <;> rfl
      | _ => cases h
  | _ => cases h

theorem RuleEntry.keeps : Keeps RuleEntry.decode RuleEntry.wholeNumbers := by
  refine keeps_of_ofNode? ?_ ?_
  · intro n e hn h
    rw [RuleEntry.decode, hn] at h
    cases h
  · intro n n' s e hn hn' h
    rw [RuleEntry.decode, hn] at h
    rw [RuleEntry.decode, hn']
    exact ofSetting_wholeNumbers h

theorem RuleMap.keeps : Keeps RuleMap.decode RuleMap.wholeNumbers := RuleEntry.keeps.table

theorem keeps_strings : Keeps (list string) id := by simpa using keeps_string.list

theorem keeps_environment : Keeps (table boolean) id := by simpa using keeps_boolean.table

theorem keeps_optionalString : Keeps (optional string) id := by simpa using keeps_string.optional

theorem OverrideBlock.keeps (shape : Shape) :
    Keeps (OverrideBlock.record.decode shape) OverrideBlock.wholeNumbers := by
  refine Record.keeps rfl (fun name hname => ?_) shape
  have hexcluded : Keeps (optional OneOrMany.decode) id := by simpa using OneOrMany.keeps.optional
  simp only [record, List.mem_cons, List.not_mem_nil, or_false] at hname
  rcases hname with rfl | rfl | rfl | rfl | rfl | rfl | rfl | rfl | rfl
  · exact .of_keeps OneOrMany.keeps (fun _ _ => rfl) fun _ _ => rfl
  · exact .of_keeps hexcluded (fun _ _ => rfl) fun _ _ => rfl
  · exact .of_keeps keeps_strings (fun _ _ => rfl) fun _ _ => rfl
  · exact .of_keeps RuleMap.keeps (fun _ _ => rfl) fun _ _ => rfl
  · exact .of_keeps Settings.keeps (fun _ _ => rfl) fun _ _ => rfl
  · exact .of_keeps keeps_environment (fun _ _ => rfl) fun _ _ => rfl
  · exact .of_keeps Settings.keeps (fun _ _ => rfl) fun _ _ => rfl
  · exact .of_keeps keeps_optionalString (fun _ _ => rfl) fun _ _ => rfl
  · exact .of_keeps Settings.keeps (fun _ _ => rfl) fun _ _ => rfl

theorem Document.keeps (shape : Shape) : Keeps (Document.decode shape) Document.wholeNumbers := by
  refine Record.keeps rfl (fun name hname => ?_) shape
  simp only [record, List.mem_cons, List.not_mem_nil, or_false] at hname
  rcases hname with rfl | rfl | rfl | rfl | rfl | rfl | rfl | rfl | rfl | rfl
  · exact .of_keeps OneOrMany.keeps (fun _ _ => rfl) fun _ _ => rfl
  · exact .of_keeps keeps_strings (fun _ _ => rfl) fun _ _ => rfl
  · exact .of_keeps RuleMap.keeps (fun _ _ => rfl) fun _ _ => rfl
  · exact .of_keeps Settings.keeps (fun _ _ => rfl) fun _ _ => rfl
  · exact .of_keeps keeps_environment (fun _ _ => rfl) fun _ _ => rfl
  · exact .of_keeps Settings.keeps (fun _ _ => rfl) fun _ _ => rfl
  · exact .of_keeps keeps_optionalString (fun _ _ => rfl) fun _ _ => rfl
  · exact .of_keeps Settings.keeps (fun _ _ => rfl) fun _ _ => rfl
  · exact .of_keeps keeps_strings (fun _ _ => rfl) fun _ _ => rfl
  · exact .of_keeps (OverrideBlock.keeps shape).list (fun _ _ => rfl) fun _ _ => rfl

theorem OptionSchema.keeps (shape : Shape) : Keeps (OptionSchema.decode shape) id := by
  refine Record.keeps rfl (fun name hname => ?_) shape
  have hmost : Keeps (optional natural) id := by simpa using keeps_natural.optional
  have hitems : Keeps (list (variant shape (OptionShape.all.map OptionShape.word)
      OptionShape.ofWord?)) id := by
    simpa using (keeps_variant shape _ OptionShape.ofWord?).list
  simp only [record, List.mem_cons, List.not_mem_nil, or_false] at hname
  rcases hname with rfl | rfl | rfl
  · exact .of_keeps keeps_natural (fun _ _ => rfl) fun _ _ => rfl
  · exact .of_keeps hmost (fun _ _ => rfl) fun _ _ => rfl
  · exact .of_keeps hitems (fun _ _ => rfl) fun _ _ => rfl

theorem ManifestRule.keeps (shape : Shape) :
    Keeps ((ManifestRule.record shape).decode shape) ManifestRule.wholeNumbers := by
  refine Record.keeps rfl (fun name hname => ?_) shape
  have hseverity : Keeps (Severity.decode shape) id := keeps_variant shape _ _
  simp only [record, List.mem_cons, List.not_mem_nil, or_false] at hname
  rcases hname with rfl | rfl | rfl
  · exact .of_keeps hseverity (fun _ _ => rfl) fun _ _ => rfl
  · exact .of_keeps (OptionSchema.keeps shape) (fun _ _ => rfl) fun _ _ => rfl
  · exact .of_keeps keeps_setting.list (fun _ _ => rfl) fun _ _ => rfl

theorem Manifest.keeps (shape : Shape) : Keeps (Manifest.decode shape) Manifest.wholeNumbers := by
  refine Record.keeps rfl (fun name hname => ?_) shape
  simp only [record, List.mem_cons, List.not_mem_nil, or_false] at hname
  rcases hname with rfl | rfl | rfl
  · exact .of_keeps keeps_string (fun _ _ => rfl) fun _ _ => rfl
  · exact .of_keeps (ManifestRule.keeps shape).table (fun _ _ => rfl) fun _ _ => rfl
  · exact .of_keeps (Document.keeps shape).table (fun _ _ => rfl) fun _ _ => rfl

theorem EngineOptions.keeps (shape : Shape) : Keeps (EngineOptions.decode shape) id := by
  refine Record.keeps rfl (fun name hname => ?_) shape
  have hroot : Keeps (optional path) id := by simpa using keeps_path.optional
  simp only [record, List.mem_cons, List.not_mem_nil, or_false] at hname
  rcases hname with rfl | rfl | rfl | rfl
  · exact .of_keeps keeps_natural (fun _ _ => rfl) fun _ _ => rfl
  · exact .of_keeps keeps_strings (fun _ _ => rfl) fun _ _ => rfl
  · exact .of_keeps keeps_boolean (fun _ _ => rfl) fun _ _ => rfl
  · exact .of_keeps hroot (fun _ _ => rfl) fun _ _ => rfl

end LintConfig
