import LintConfig.Decode.Basic
import LintConfig.Severity

/-!
# Rule entries

An entry of a `rules` map is a bare severity, or a list of a severity and options.  Without
options the rule's default options are meant, so a list of a severity alone is the bare severity.
-/

namespace LintConfig

/-- A severity as written, and the options if any are given. -/
structure RuleEntry where
  severity : RawSeverity
  options : Option (List Setting)
deriving Inhabited

/-- Ordered rule entries. -/
abbrev RuleMap := Table RuleEntry

namespace RuleEntry

/-- The written form. -/
def toJson (e : RuleEntry) : Json :=
  match e.options with
  | none => e.severity.toJson
  | some options => .arr (e.severity.toJson :: Setting.itemsJson options)

/-- The entry that a list stands for. -/
def ofList : List Setting → Decode.Result RuleEntry
  | [] => .error .emptyRuleEntry
  | s :: rest =>
    let options := if rest.isEmpty then none else some rest
    match s with
    | .str word => .ok ⟨.word word, options⟩
    | .num n => .ok ⟨.code n, options⟩
    | other => .error (.noSeverity other.kind)

/-- The entry that a setting stands for. -/
def ofSetting : Setting → Decode.Result RuleEntry
  | .num n => .ok ⟨.code n, none⟩
  | .str word => .ok ⟨.word word, none⟩
  | .list items => ofList items
  | _ => .error (.noAlternative .ruleEntry)

/-- Reads an entry. -/
def decode : Decode.Decoder RuleEntry := fun n =>
  match Setting.ofNode? n with
  | some s => ofSetting s
  | none => .error (.noAlternative .ruleEntry)

end RuleEntry

/-- Reads a severity as written. -/
def RawSeverity.decode : Decode.Decoder RawSeverity := fun n =>
  match Setting.ofNode? n with
  | some (.num n) => .ok (.code n)
  | some (.str w) => .ok (.word w)
  | _ => .error (.noAlternative .rawSeverity)

/-- The written form of a rule map. -/
def RuleMap.toJson (rules : RuleMap) : Json := .obj (Table.mapValues RuleEntry.toJson rules)

end LintConfig
