import LintConfig.Error
import LintConfig.Plugin.Manifest

/-!
# The registry

The registry holds the rules and presets of every registered plugin.  Rules are found by their
identity, whose beginning names the namespace; a strict lookup asks that the namespace be enabled.
Registering a namespace again adds to it, and a later rule or preset replaces an earlier one of
the same identity.
-/

namespace LintConfig

/-- What is known of a rule. -/
structure Descriptor where
  ns : String
  id : String
  defaultSeverity : Severity
  schema : OptionSchema
  defaultOptions : List Setting
deriving Inhabited

namespace Manifest

/-- The namespace of the plugin. -/
def ns (m : Manifest) : String := Rule.normalizePlugin m.plugin

/-- The descriptor of a declared rule. -/
def descriptor (m : Manifest) (name : String) (r : ManifestRule) : Descriptor :=
  ⟨m.ns, Rule.qualify m.ns name, r.defaultSeverity, r.optionSchema, r.defaultOptions⟩

/-- The descriptors of the declared rules, in order. -/
def descriptors (m : Manifest) : List Descriptor := m.rules.map fun e => m.descriptor e.1 e.2

/-- The reference by which a preset of the plugin is extended. -/
def presetReference (m : Manifest) (name : String) : String :=
  if m.ns.isEmpty then "eslint:" ++ name else "plugin:" ++ m.ns ++ "/" ++ name

/-- The presets of the plugin with their references, in order. -/
def presets (m : Manifest) : List (String × Document) :=
  m.configs.map fun e => (m.presetReference e.1, e.2)

end Manifest

/-- The rules of every namespace, by identity, and the presets by reference. -/
structure Registry where
  namespaces : Table (Table Descriptor) := []
  presets : Table Document := []
deriving Inhabited

namespace Registry

/-- Why a rule is not found. -/
inductive Fault where
  | notEnabled (ns : String)
  | noBuiltin
  | notRegistered (ns : String)
  | noSuchRule (ns : String)
deriving DecidableEq, Repr

/-- The text of a fault. -/
def Fault.message : Fault → String
  | .notEnabled ns => "plugin '" ++ ns ++ "' is not enabled"
  | .noBuiltin => "no built-in rule with this name"
  | .notRegistered ns => "plugin '" ++ ns ++ "' is not registered"
  | .noSuchRule ns => "plugin '" ++ ns ++ "' has no such rule"

/-- Adds the rules and presets of a plugin. -/
def register (r : Registry) (m : Manifest) : Registry :=
  let rules := (Table.get? r.namespaces m.ns).getD []
  let added := m.descriptors.foldl (fun acc d => Table.put acc d.id d) rules
  { namespaces := Table.put r.namespaces m.ns added
    presets := Table.overlay r.presets m.presets }

/-- The registry of a list of plugins, registered in order. -/
def ofManifests (ms : List Manifest) : Registry := ms.foldl register {}

/-- The namespaces, sorted. -/
def namespaceNames (r : Registry) : Names := Names.ofList (Table.keys r.namespaces)

/-- The references of the presets, sorted. -/
def presetNames (r : Registry) : Names := Names.ofList (Table.keys r.presets)

/-- Whether a plugin of a namespace is registered. -/
def hasNamespace (r : Registry) (ns : String) : Bool := Table.has r.namespaces ns

/-- The number of registered rules. -/
def ruleCount (r : Registry) : Nat := r.namespaces.foldr (fun e n => e.2.length + n) 0

/-- The descriptor of a rule, whether its plugin is enabled or not. -/
def get? (r : Registry) (id : String) : Option Descriptor :=
  (Table.get? r.namespaces (Rule.namespaceOf id)).bind fun rules => Table.get? rules id

/-- The descriptor of a rule for a configuration that enables some namespaces. -/
def find (r : Registry) (id : String) (enabled : Names) (strict : Bool) :
    Except Fault Descriptor :=
  let ns := Rule.namespaceOf id
  if strict && !ns.isEmpty && !enabled.contains ns then .error (.notEnabled ns)
  else match Table.get? r.namespaces ns with
    | none => .error (if ns.isEmpty then .noBuiltin else .notRegistered ns)
    | some rules => match Table.get? rules id with
      | some d => .ok d
      | none => .error (if ns.isEmpty then .noBuiltin else .noSuchRule ns)

/-- The descriptor of a rule for a configuration, or the error that the rule is unknown. -/
def lookup (r : Registry) (id : String) (enabled : Names) (strict : Bool) :
    Except Error Descriptor :=
  (r.find id enabled strict).mapError fun f => .unknownRule id f.message

end Registry

end LintConfig
