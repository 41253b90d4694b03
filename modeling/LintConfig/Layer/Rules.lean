import LintConfig.Layer
import LintConfig.Plugin.Registry
import LintConfig.Resolved

/-!
# Rules of a layer

Turns rule entries as written into rules as they are run.  An entry is refused if its severity is
none, if its rule is unknown, or if its options do not fit the rule's schema, in this order; an
entry without options gets the default options of its rule.  `Layer.resolveRules` stops at the
first entry that is refused, and `Layer.problems` collects the errors of all of them.
-/

namespace LintConfig

/-- The rule that an entry stands for. -/
def RuleEntry.resolve (registry : Registry) (strict : Bool) (enabled : Names) (id : String)
    (e : RuleEntry) : Except Error ResolvedRule :=
  match Severity.ofRaw? e.severity with
  | none => .error (.invalidSeverity id e.severity.text)
  | some severity => do
    let d ← registry.lookup id enabled strict
    match e.options with
    | none => return ⟨severity, d.defaultOptions⟩
    | some options =>
      match d.schema.check options with
      | some fault => .error (.invalidRuleOptions id fault.message)
      | none => return ⟨severity, options⟩

/-- The rules that entries stand for; the first error counts. -/
def RuleMap.resolve (registry : Registry) (strict : Bool) (enabled : Names) :
    RuleMap → Except Error (Table ResolvedRule)
  | [] => .ok []
  | (id, e) :: rules => do
    let r ← e.resolve registry strict enabled id
    return (id, r) :: (← RuleMap.resolve registry strict enabled rules)

/-- The errors of entries, in order. -/
def RuleMap.problems (registry : Registry) (strict : Bool) (enabled : Names) (rules : RuleMap) :
    List Error :=
  rules.filterMap fun e => match e.2.resolve registry strict enabled e.1 with
    | .error error => some error
    | .ok _ => none

namespace Layer

/-- The rules of a layer as they are run. -/
def resolveRules (registry : Registry) (strict : Bool) (l : Layer) :
    Except Error (Table ResolvedRule) :=
  RuleMap.resolve registry strict l.plugins l.rules

/-- Every error of the rules of a layer. -/
def problems (registry : Registry) (strict : Bool) (l : Layer) : List Error :=
  RuleMap.problems registry strict l.plugins l.rules

end Layer

end LintConfig
