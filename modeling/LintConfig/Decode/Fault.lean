import LintConfig.Setting
import LintConfig.Text.Quoted

/-!
# Decoding faults

Why a node is not the value a document asks for at some place.  A fault says what was found and
what was wanted; `Fault.message` puts it into words.
-/

namespace LintConfig.Decode

/-- What stands at a place. -/
inductive Found where
  | null
  | bool (b : Bool)
  | num (n : Number)
  | str (s : String)
  | sequence
  | map
deriving DecidableEq, Repr

/-- The structured values of documents. -/
inductive RecordName where
  | document
  | overrideBlock
  | manifest
  | manifestRule
  | optionSchema
  | engineOptions
deriving DecidableEq, Repr

/-- What is asked for at a place. -/
inductive Wanted where
  | record (name : RecordName)
  | map
  | sequence
  | string
  | boolean
  | natural
  | path
  | variant
  | unit
deriving DecidableEq, Repr

/-- The types that are decoded by trying alternatives. -/
inductive Choice where
  | oneOrMany
  | rawSeverity
  | setting
  | ruleEntry
deriving DecidableEq, Repr

/-- Why a node is refused. -/
inductive Fault where
  | wrongType (found : Found) (wanted : Wanted)
  /-- A negative integer where a natural number is asked for. -/
  | negative (n : Int)
  | unknownField (name : String) (known : List String)
  | missingField (name : String)
  | duplicateField (name : String)
  /-- A record given as a sequence that ends before a required field. -/
  | tooShort (length : Nat) (name : RecordName) (fields : Nat)
  /-- A record given as a sequence with more items than fields. -/
  | tooLong (length : Nat)
  | unknownVariant (word : String) (known : List String)
  /-- A variant given as a map that does not have exactly one key. -/
  | notSingleKey
  /-- No alternative fits. -/
  | noAlternative (choice : Choice)
  /-- A rule entry that is an empty list. -/
  | emptyRuleEntry
  /-- A rule entry that is a list whose first element is no severity. -/
  | noSeverity (kind : SettingKind)
deriving DecidableEq, Repr

/-- The text for what was found. -/
def Found.text : Found → String
  | .null => "null"
  | .bool b => "boolean `" ++ (if b then "true" else "false") ++ "`"
  | .num (.int n) => "integer `" ++ toString n ++ "`"
  | .num (.float d) => "floating point `" ++ (Number.float d).text ++ "`"
  | .str s => "string " ++ Text.quoted s
  | .sequence => "sequence"
  | .map => "map"

/-- The text for a structured value. -/
def RecordName.text : RecordName → String
  | .document => "struct FragmentDocument"
  | .overrideBlock => "struct OverrideBlock"
  | .manifest => "struct PluginManifest"
  | .manifestRule => "struct ManifestRule"
  | .optionSchema => "struct OptionSchema"
  | .engineOptions => "struct EngineOptions"

/-- The text for what is asked for. -/
def Wanted.text : Wanted → String
  | .record name => name.text
  | .map => "a map"
  | .sequence => "a sequence"
  | .string => "a string"
  | .boolean => "a boolean"
  | .natural => "usize"
  | .path => "path string"
  | .variant => "string or map"
  | .unit => "unit"

/-- The text for a type of alternatives. -/
def Choice.text : Choice → String
  | .oneOrMany => "OneOrMany"
  | .rawSeverity => "RawSeverity"
  | .setting => "SettingValue"
  | .ruleEntry => "RuleEntryRepr"

/-- A name between backquotes. -/
def ticked (s : String) : String := "`" ++ s ++ "`"

/-- Names between backquotes with commas between them. -/
def tickedList (names : List String) : String := ", ".intercalate (names.map ticked)

/-- The text of a fault. -/
def Fault.message : Fault → String
  | .wrongType found wanted => "invalid type: " ++ found.text ++ ", expected " ++ wanted.text
  | .negative n => "invalid value: integer " ++ ticked (toString n) ++ ", expected usize"
  | .unknownField name known =>
    "unknown field " ++ ticked name ++ ", expected one of " ++ tickedList known
  | .missingField name => "missing field " ++ ticked name
  | .duplicateField name => "duplicate field " ++ ticked name
  | .tooShort length name fields =>
    "invalid length " ++ toString length ++ ", expected " ++ name.text ++ " with " ++
      toString fields ++ " elements"
  | .tooLong length =>
    "invalid length " ++ toString length ++ ", expected fewer elements in array"
  | .unknownVariant word known =>
    "unknown variant " ++ ticked word ++ ", expected one of " ++ tickedList known
  | .notSingleKey => "invalid value: map, expected map with a single key"
  | .noAlternative choice =>
    "data did not match any variant of untagged enum " ++ choice.text
  | .emptyRuleEntry => "rule entry array must start with a severity"
  | .noSeverity kind => "rule entry array must start with a severity, found " ++ kind.name

end LintConfig.Decode
