import LintConfig.Engine.Options
import LintConfig.Plugin.Manifest

/-!
# Schemas

JSON Schemas of the three kinds of files: configuration documents, plugin manifests and engine
options.  A schema is a JSON value; what several of them share is defined once, in the order of
the types that a document is made of.
-/

namespace LintConfig.Schema

/-- A kind of file that there is a schema of. -/
inductive Kind where
  | config
  | manifest
  | options
deriving DecidableEq, Repr

namespace Kind

/-- Every kind, in order. -/
def all : List Kind := [.config, .manifest, .options]

/-- The word for a kind. -/
def word : Kind → String
  | .config => "config"
  | .manifest => "manifest"
  | .options => "options"

/-- The kind of a word. -/
def ofWord? (s : String) : Option Kind := all.find? fun k => k.word == s

/-- The name of the file that holds the schema of a kind. -/
def fileName (k : Kind) : String := k.word ++ ".json"

/-- The title of a schema. -/
def title : Kind → String
  | .config => "Cascade Configuration Fragment"
  | .manifest => "Cascade Plugin Manifest"
  | .options => "Cascade Engine Options"

end Kind

/-! ### Building blocks -/

/-- The members of an object. -/
abbrev Members := List (String × Json)

/-- The members that every schema starts with; `text` describes the type. -/
def heading (title text : String) : Members :=
  [("$schema", .str "http://json-schema.org/draft-07/schema#"), ("title", .str title),
    ("description", .str text)]

/-- The member that describes a schema. -/
def described (text : String) : Members := [("description", .str text)]

/-- A reference to a shared definition. -/
def reference (name : String) : Members := [("$ref", .str ("#/$defs/" ++ name))]

/-- A type by its name. -/
def typed (name : String) : Members := [("type", .str name)]

/-- A type that may also be null. -/
def nullable (name : String) : Members := [("type", .strings [name, "null"])]

/-- An array of items. -/
def arrayOf (items : Members) : Members := typed "array" ++ [("items", .obj items)]

/-- An object with values of one type under any keys. -/
def mapOf (values : Members) : Members :=
  typed "object" ++ [("additionalProperties", .obj values)]

/-- One of several types. -/
def anyOf (alternatives : List Members) : Members := [("anyOf", .arr (alternatives.map .obj))]

/-- An object with given properties. -/
def objectOf (properties : List (String × Members)) : Members :=
  typed "object" ++ [("properties", .obj (Table.mapValues .obj properties))]

/-- A natural number. -/
def naturalFrom (types : Members) : Members :=
  types ++ [("format", .str "uint"), ("minimum", .nat 0)]

/-- The default of a property. -/
def defaulted (j : Json) : Members := [("default", j)]

/-! ### Shared definitions -/

/-- A text or a list of texts. -/
def oneOrMany : Members :=
  described
      "A string or a list of strings (`\"extends\": \"base\"` or `\"extends\": [\"a\", \"b\"]`)" ++
    anyOf [typed "string", arrayOf (typed "string")]

/-- A rule entry. -/
def ruleEntry : Members := anyOf [reference "RawSeverity", arrayOf (reference "SettingValue")]

/-- A severity as written. -/
def rawSeverity : Members :=
  described "Severity exactly as written in a document, validated later" ++
    anyOf [typed "number", typed "string"]

/-- A setting. -/
def settingValue : Members :=
  described "A single setting value" ++
    anyOf [typed "boolean", typed "number", typed "string", arrayOf (reference "SettingValue"),
      mapOf (reference "SettingValue")]

/-- The properties that documents and override blocks share, from the rules on. -/
def layerProperties : List (String × Members) :=
  [("rules", mapOf (reference "RuleEntry")), ("settings", mapOf (reference "SettingValue")),
    ("env", mapOf (typed "boolean")), ("globals", mapOf (reference "SettingValue")),
    ("parser", nullable "string"), ("parserOptions", mapOf (reference "SettingValue"))]

/-- An override block. -/
def overrideBlock : Members :=
  described ("A path-scoped overlay\n\nOverrides are pure overlay data: they cannot `extends` " ++
      "anything, and any\nunknown field is rejected.") ++
    objectOf ([("files",
          described "Glob patterns selecting the files this override applies to" ++
            reference "OneOrMany"),
        ("excludedFiles",
          described "Glob patterns vetoing files that `files` selected" ++
            anyOf [reference "OneOrMany", typed "null"]),
        ("plugins",
          described "Additional plugin namespaces enabled for matching files" ++
            arrayOf (typed "string"))] ++ layerProperties) ++
    [("additionalProperties", .bool false), ("required", .strings ["files"])]

/-- What describes a document. -/
def documentText : String := "A configuration document as written"

/-- The properties of a document. -/
def documentProperties : List (String × Members) :=
  [("extends",
      described "Inherited fragments, applied left to right before this document" ++
        reference "OneOrMany"),
    ("plugins",
      described "Plugin namespaces whose rules this document may configure" ++
        arrayOf (typed "string"))] ++ layerProperties ++
  [("ignorePatterns",
      described "Paths the analysis pipeline should skip entirely" ++ arrayOf (typed "string")),
    ("overrides", arrayOf (reference "OverrideBlock"))]

/-- A severity by its word. -/
def severity : Members :=
  let word (text : String) (s : Severity) : Members :=
    described text ++ typed "string" ++ [("const", s.toJson)]
  described "Canonical rule severity" ++
    [("oneOf", .arr ([word "Disable the rule" .off, word "Warning (doesn't fail the run)" .warn,
      word "Error (fails the run)" .error].map .obj))]

/-- An option schema. -/
def optionSchema : Members :=
  described "Arity/shape of a rule's options; values themselves are not checked here" ++
    objectOf [("minItems", naturalFrom (typed "integer") ++ defaulted (.nat 0)),
      ("maxItems",
        described "`None` means unbounded" ++ naturalFrom (nullable "integer") ++ defaulted .null),
      ("items",
        described "Per-position shapes; positions past the end accept anything" ++
          arrayOf (reference "OptionShape") ++ defaulted (.arr []))]

/-- The shape of an option. -/
def optionShape : Members :=
  described "Expected shape of one positional rule option" ++ typed "string" ++
    [("enum", .strings (OptionShape.all.map OptionShape.word))]

/-- What a manifest declares of a rule. -/
def manifestRule : Members :=
  described "Per-rule section of a plugin manifest" ++
    objectOf [("defaultSeverity", reference "Severity" ++ defaulted Severity.off.toJson),
      ("optionSchema", reference "OptionSchema" ++ defaulted (OptionSchema.toJson {})),
      ("defaultOptions", arrayOf (reference "SettingValue"))]

/-- Shared definitions under their names. -/
def definitions (ds : List (String × Members)) : Members :=
  [("$defs", .obj (Table.mapValues .obj ds))]

/-! ### The schemas -/

/-- The schema of configuration documents. -/
def config : Members :=
  heading Kind.config.title documentText ++ objectOf documentProperties ++
    definitions [("OneOrMany", oneOrMany), ("RuleEntry", ruleEntry), ("RawSeverity", rawSeverity),
      ("SettingValue", settingValue), ("OverrideBlock", overrideBlock)]

/-- The schema of plugin manifests. -/
def manifest : Members :=
  heading Kind.manifest.title "A plugin manifest as shipped by a plugin" ++
    objectOf [("namespace",
        described "Plugin name; normalized on registration" ++ typed "string" ++
          defaulted (.str "")),
      ("rules", mapOf (reference "ManifestRule") ++ defaulted (.obj [])),
      ("configs", mapOf (reference "FragmentDocument"))] ++
    definitions [("ManifestRule", manifestRule), ("Severity", severity),
      ("OptionSchema", optionSchema), ("OptionShape", optionShape),
      ("SettingValue", settingValue),
      ("FragmentDocument", described documentText ++ objectOf documentProperties),
      ("OneOrMany", oneOrMany), ("RuleEntry", ruleEntry), ("RawSeverity", rawSeverity),
      ("OverrideBlock", overrideBlock)]

/-- The schema of engine options. -/
def options : Members :=
  heading Kind.options.title ("Engine configuration\n\n```json\n\x7b \"cacheCapacity\": 10000, " ++
      "\"deepMergeSettings\": [\"import/resolver\"], \"strictPlugins\": true \x7d\n```") ++
    objectOf [("cacheCapacity",
        described "Maximum number of cached per-path resolutions" ++
          naturalFrom (typed "integer") ++ defaulted (.nat Cache.defaultCapacity)),
      ("deepMergeSettings",
        described "Settings keys whose nested maps deep-merge instead of being replaced" ++
          arrayOf (typed "string") ++ defaulted (.arr [])),
      ("strictPlugins",
        described "Require a plugin rule's namespace to be enabled through `plugins`" ++
          typed "boolean" ++ defaulted (.bool true)),
      ("rootDir",
        described "Absolute paths under this directory are matched relative to it" ++
          nullable "string")]

/-- The schema of a kind of files. -/
def ofKind : Kind → Json
  | .config => .obj config
  | .manifest => .obj manifest
  | .options => .obj options

end LintConfig.Schema
