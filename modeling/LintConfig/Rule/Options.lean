import LintConfig.Setting

/-!
# Rule options

A rule declares how many options it takes and which shape each of them has.
`OptionSchema.check` finds the first way in which options do not fit.
-/

namespace LintConfig

/-- The shape of an option. -/
inductive OptionShape where
  | any
  | string
  | number
  | boolean
  | array
  | object
deriving DecidableEq, Repr

namespace OptionShape

/-- Every shape, in order. -/
def all : List OptionShape := [.any, .string, .number, .boolean, .array, .object]

/-- The word for a shape. -/
def word : OptionShape → String
  | .any => "any"
  | .string => "string"
  | .number => "number"
  | .boolean => "boolean"
  | .array => "array"
  | .object => "object"

/-- The name of a shape in messages. -/
def name : OptionShape → String
  | .any => "Any"
  | .string => "String"
  | .number => "Number"
  | .boolean => "Boolean"
  | .array => "Array"
  | .object => "Object"

/-- The shape of a word. -/
def ofWord? (s : String) : Option OptionShape := all.find? fun v => v.word == s

/-- The kind of setting that a shape asks for. -/
def kind? : OptionShape → Option SettingKind
  | .any => none
  | .string => some .string
  | .number => some .number
  | .boolean => some .bool
  | .array => some .list
  | .object => some .map

/-- Whether a setting has a shape. -/
def accepts (shape : OptionShape) (s : Setting) : Bool := shape.kind?.all (· == s.kind)

end OptionShape

/-- How many options a rule takes, and the shapes of the first of them. -/
structure OptionSchema where
  minItems : Nat := 0
  /-- Without a bound, any number. -/
  maxItems : Option Nat := none
  items : List OptionShape := []
deriving DecidableEq, Repr, Inhabited

/-- How options do not fit. -/
inductive OptionFault where
  | tooFew (least count : Nat)
  | tooMany (most count : Nat)
  | wrongShape (position : Nat) (shape : OptionShape) (kind : SettingKind)
deriving DecidableEq, Repr

/-- The text of a fault. -/
def OptionFault.message : OptionFault → String
  | .tooFew least count =>
    "expected at least " ++ toString least ++ " option(s), got " ++ toString count
  | .tooMany most count =>
    "expected at most " ++ toString most ++ " option(s), got " ++ toString count
  | .wrongShape position shape kind =>
    "option " ++ toString position ++ " should be " ++ shape.name ++ ", got " ++ kind.name

namespace OptionSchema

/-- The schema of rules that take no options. -/
def takesNone : OptionSchema := ⟨0, some 0, []⟩

/-- The first option from `position` on without its shape. -/
def firstMisfit? (position : Nat) : List OptionShape → List Setting → Option OptionFault
  | shape :: shapes, s :: ss =>
    if shape.accepts s then firstMisfit? (position + 1) shapes ss
    else some (.wrongShape position shape s.kind)
  | _, _ => none

/-- The first way in which options do not fit, if they do not. -/
def check (schema : OptionSchema) (options : List Setting) : Option OptionFault :=
  let count := options.length
  if count < schema.minItems then some (.tooFew schema.minItems count)
  else match schema.maxItems with
    | some most =>
      if most < count then some (.tooMany most count) else firstMisfit? 0 schema.items options
    | none => firstMisfit? 0 schema.items options

/-- The written form. -/
def toJson (schema : OptionSchema) : Json :=
  .obj [("minItems", .nat schema.minItems),
    ("maxItems", match schema.maxItems with
      | some n => .nat n
      | none => .null),
    ("items", .strings (schema.items.map OptionShape.word))]

end OptionSchema

end LintConfig
