import LintConfig.Rule.Entry
import LintConfig.Rule.Name

/-!
# Documents

A document configures rules, settings, environments, globals and a parser.  It may extend other
documents, list paths to ignore, and carry overrides: overlays for the paths that match their
patterns.  This module has the types and their written forms; `Document.Decode` reads them.
-/

namespace LintConfig

/-- A text or a list of texts. -/
inductive OneOrMany where
  | one (s : String)
  | many (ss : List String)
deriving DecidableEq, Repr

namespace OneOrMany

/-- The texts. -/
def toList : OneOrMany → List String
  | .one s => [s]
  | .many ss => ss

/-- Whether it is a list without texts. -/
def isEmpty : OneOrMany → Bool
  | .one _ => false
  | .many ss => ss.isEmpty

/-- The written form. -/
def toJson : OneOrMany → Json
  | .one s => .str s
  | .many ss => .strings ss

instance : Inhabited OneOrMany := ⟨.many []⟩

end OneOrMany

/-- An overlay for the paths that match `files` and not `excludedFiles`. -/
structure OverrideBlock where
  files : OneOrMany := .many []
  excludedFiles : Option OneOrMany := none
  plugins : List String := []
  rules : RuleMap := []
  settings : Settings := []
  env : Table Bool := []
  globals : Settings := []
  parser : Option String := none
  parserOptions : Settings := []
deriving Inhabited

/-- A configuration document. -/
structure Document where
  bases : OneOrMany := .many []
  plugins : List String := []
  rules : RuleMap := []
  settings : Settings := []
  env : Table Bool := []
  globals : Settings := []
  parser : Option String := none
  parserOptions : Settings := []
  ignorePatterns : List String := []
  overrides : List OverrideBlock := []
deriving Inhabited

/-! ### Written forms -/

namespace Written

/-- A member that is left out where it is empty. -/
def unlessEmpty {α : Type} (name : String) (items : List α) (json : Json) : List (String × Json) :=
  if items.isEmpty then [] else [(name, json)]

/-- A member that is left out where it is absent. -/
def ifPresent {α : Type} (name : String) (value : Option α) (json : α → Json) :
    List (String × Json) :=
  match value with
  | none => []
  | some a => [(name, json a)]

/-- The written form of an environment. -/
def environment (e : Table Bool) : Json := .obj (Table.mapValues .bool e)

end Written

open Written

/-- The written form: empty fields are left out, except `files`. -/
def OverrideBlock.toJson (b : OverrideBlock) : Json :=
  .obj (("files", b.files.toJson) ::
    (ifPresent "excludedFiles" b.excludedFiles OneOrMany.toJson ++
      unlessEmpty "plugins" b.plugins (.strings b.plugins) ++
      unlessEmpty "rules" b.rules (RuleMap.toJson b.rules) ++
      unlessEmpty "settings" b.settings (Settings.toJson b.settings) ++
      unlessEmpty "env" b.env (environment b.env) ++
      unlessEmpty "globals" b.globals (Settings.toJson b.globals) ++
      ifPresent "parser" b.parser .str ++
      unlessEmpty "parserOptions" b.parserOptions (Settings.toJson b.parserOptions)))

namespace Document

/-- The references that the document extends, in order. -/
def references (d : Document) : List String := d.bases.toList

/-- The written form: empty fields are left out. -/
def toJson (d : Document) : Json :=
  .obj ((if d.bases.isEmpty then [] else [("extends", d.bases.toJson)]) ++
    unlessEmpty "plugins" d.plugins (.strings d.plugins) ++
    unlessEmpty "rules" d.rules (RuleMap.toJson d.rules) ++
    unlessEmpty "settings" d.settings (Settings.toJson d.settings) ++
    unlessEmpty "env" d.env (environment d.env) ++
    unlessEmpty "globals" d.globals (Settings.toJson d.globals) ++
    ifPresent "parser" d.parser .str ++
    unlessEmpty "parserOptions" d.parserOptions (Settings.toJson d.parserOptions) ++
    unlessEmpty "ignorePatterns" d.ignorePatterns (.strings d.ignorePatterns) ++
    unlessEmpty "overrides" d.overrides (.arr (d.overrides.map OverrideBlock.toJson)))

/-- The document with plugins named by their namespaces, everywhere. -/
def normalize (d : Document) : Document :=
  let normalBlock (b : OverrideBlock) : OverrideBlock :=
    { b with plugins := Rule.normalizePlugins b.plugins }
  { d with
    plugins := Rule.normalizePlugins d.plugins
    overrides := d.overrides.map normalBlock }

end Document

end LintConfig
