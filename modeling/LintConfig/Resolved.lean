import LintConfig.Document
import LintConfig.Fingerprint

/-!
# Resolved configurations

What a path is configured with in the end: every rule that the configuration mentions with its
severity and options, rules that are off included, and the rest of the merged layer.
-/

namespace LintConfig

/-- A rule as it is run. -/
structure ResolvedRule where
  severity : Severity
  options : List Setting
deriving Inhabited

/-- The written form; without options the field is left out. -/
def ResolvedRule.toJson (r : ResolvedRule) : Json :=
  .obj (("severity", r.severity.toJson) ::
    Written.unlessEmpty "options" r.options (.arr (Setting.itemsJson r.options)))

/-- Whether a rule runs. -/
def ResolvedRule.isEnabled (r : ResolvedRule) : Bool := r.severity.isEnabled

/-- The configuration of a path. -/
structure Resolved where
  path : String
  /-- The fingerprint of the base that it was computed from. -/
  fingerprint : Fingerprint
  plugins : Names
  rules : Table ResolvedRule
  settings : Settings
  env : Table Bool
  globals : Settings
  parser : Option String
  parserOptions : Settings
deriving Inhabited

namespace Resolved

/-- The written form of the rules. -/
def rulesJson (rules : Table ResolvedRule) : Json :=
  .obj (Table.mapValues ResolvedRule.toJson rules)

/-- The written form; a parser that is not set is left out. -/
def toJson (r : Resolved) : Json :=
  .obj ([("path", .str r.path), ("fingerprint", .str r.fingerprint.hex),
      ("plugins", .strings r.plugins), ("rules", rulesJson r.rules),
      ("settings", Settings.toJson r.settings), ("env", Written.environment r.env),
      ("globals", Settings.toJson r.globals)] ++
    Written.ifPresent "parser" r.parser .str ++
    [("parserOptions", Settings.toJson r.parserOptions)])

/-- A rule, if the configuration mentions it. -/
def rule? (r : Resolved) (id : String) : Option ResolvedRule := Table.get? r.rules id

/-- The rules that run, in order. -/
def enabledRules (r : Resolved) : List String :=
  (r.rules.filter fun e => e.2.isEnabled).map Prod.fst

/-- Whether an environment is switched on. -/
def envEnabled (r : Resolved) (name : String) : Bool := (Table.get? r.env name).getD false

end Resolved

end LintConfig
