import LintConfig.Document.Decode
import LintConfig.Rule.Options

/-!
# Plugin manifests

A manifest names a plugin, declares its rules with default severity, option schema and default
options, and may bring presets: documents that other documents extend by name.
-/

namespace LintConfig

open Decode

/-- What a manifest declares of a rule. -/
structure ManifestRule where
  defaultSeverity : Severity := .off
  optionSchema : OptionSchema := {}
  defaultOptions : List Setting := []
deriving Inhabited

/-- A plugin's name, rules and presets. -/
structure Manifest where
  plugin : String := ""
  rules : Table ManifestRule := []
  configs : Table Document := []
deriving Inhabited

/-! ### Written forms -/

/-- The written form; without default options the field is left out. -/
def ManifestRule.toJson (r : ManifestRule) : Json :=
  .obj ([("defaultSeverity", r.defaultSeverity.toJson), ("optionSchema", r.optionSchema.toJson)] ++
    Written.unlessEmpty "defaultOptions" r.defaultOptions
      (.arr (Setting.itemsJson r.defaultOptions)))

/-- The written form; without presets the field is left out. -/
def Manifest.toJson (m : Manifest) : Json :=
  .obj ([("namespace", .str m.plugin),
      ("rules", .obj (Table.mapValues ManifestRule.toJson m.rules))] ++
    Written.unlessEmpty "configs" m.configs (.obj (Table.mapValues Document.toJson m.configs)))

/-! ### Reading -/

/-- How an option schema is read. -/
def OptionSchema.record (shape : Shape) : Record OptionSchema where
  name := .optionSchema
  fields := ["minItems", "maxItems", "items"]
  skipsUnknown := true
  required := []
  blank := {}
  read
    | "minItems", n, s => return { s with minItems := ← natural n }
    | "maxItems", n, s => return { s with maxItems := ← optional natural n }
    | "items", n, s =>
      return { s with
        items := ← list (variant shape (OptionShape.all.map OptionShape.word)
          OptionShape.ofWord?) n }
    | _, _, s => return s

/-- Reads an option schema. -/
def OptionSchema.decode (shape : Shape) : Decoder OptionSchema :=
  (OptionSchema.record shape).decode shape

/-- Reads a severity by its word. -/
def Severity.decode (shape : Shape) : Decoder Severity :=
  variant shape (Severity.all.map Severity.word) Severity.ofWord?

/-- How the declaration of a rule is read. -/
def ManifestRule.record (shape : Shape) : Record ManifestRule where
  name := .manifestRule
  fields := ["defaultSeverity", "optionSchema", "defaultOptions"]
  skipsUnknown := true
  required := []
  blank := {}
  read
    | "defaultSeverity", n, r => return { r with defaultSeverity := ← Severity.decode shape n }
    | "optionSchema", n, r => return { r with optionSchema := ← OptionSchema.decode shape n }
    | "defaultOptions", n, r => return { r with defaultOptions := ← list setting n }
    | _, _, r => return r

/-- How a manifest is read. -/
def Manifest.record (shape : Shape) : Record Manifest where
  name := .manifest
  fields := ["namespace", "rules", "configs"]
  skipsUnknown := true
  required := []
  blank := {}
  read
    | "namespace", n, m => return { m with plugin := ← string n }
    | "rules", n, m =>
      return { m with rules := ← table ((ManifestRule.record shape).decode shape) n }
    | "configs", n, m => return { m with configs := ← table (Document.decode shape) n }
    | _, _, m => return m

/-- Reads a manifest. -/
def Manifest.decode (shape : Shape) : Decoder Manifest := (Manifest.record shape).decode shape

/-- Reads a manifest from a JSON value. -/
def Manifest.ofJson (j : Json) : Result Manifest := Manifest.decode .liberal (.ofJson j)

end LintConfig
