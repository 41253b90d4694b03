import LintConfig.Node

/-!
# Settings

The values of `settings`, `globals`, `parserOptions` and rule options: truth values, numbers,
texts, lists and maps, and no null at any depth.  `Setting.merge` merges maps key by key at every
depth; `Settings.overlay` replaces whole values except under the keys that are to be merged.
-/

namespace LintConfig

/-- A value of a setting; the keys of a map are in order. -/
inductive Setting where
  | bool (b : Bool)
  | num (n : Number)
  | str (s : String)
  | list (items : List Setting)
  | map (entries : List (String × Setting))
deriving Inhabited

/-- Ordered settings. -/
abbrev Settings := Table Setting

/-- The kind of a setting. -/
inductive SettingKind where
  | bool
  | number
  | string
  | list
  | map
deriving DecidableEq, Repr

/-- The name of a kind in messages. -/
def SettingKind.name : SettingKind → String
  | .bool => "Bool"
  | .number => "Number"
  | .string => "String"
  | .list => "List"
  | .map => "Map"

namespace Setting

/-- The kind of a setting. -/
def kind : Setting → SettingKind
  | .bool _ => .bool
  | .num _ => .number
  | .str _ => .string
  | .list _ => .list
  | .map _ => .map

/-- The text of a text. -/
def str? : Setting → Option String
  | .str s => some s
  | _ => none

/-- The truth value of a truth value. -/
def bool? : Setting → Option Bool
  | .bool b => some b
  | _ => none

/-- The value of a signed 64-bit integer. -/
def signed? : Setting → Option Int
  | .num n => n.toSigned?
  | _ => none

/-- The entries of a map. -/
def entries? : Setting → Option Settings
  | .map entries => some entries
  | _ => none

/-! ### Writing -/

mutual

/-- The written form. -/
def toJson : Setting → Json
  | .bool b => .bool b
  | .num n => .num n
  | .str s => .str s
  | .list items => .arr (itemsJson items)
  | .map entries => .obj (entriesJson entries)

/-- The written forms of a list. -/
def itemsJson : List Setting → List Json
  | [] => []
  | s :: ss => toJson s :: itemsJson ss

/-- The written forms of the values of a map. -/
def entriesJson : List (String × Setting) → List (String × Json)
  | [] => []
  | (k, s) :: es => (k, toJson s) :: entriesJson es

end

/-! ### Reading -/

/-- The setting that an atom stands for; null is none. -/
def ofAtom? : Atom → Option Setting
  | .null => none
  | .bool b => some (.bool b)
  | .num n => some (.num n)
  | .str s => some (.str s)

mutual

/-- Reads a node as a setting; of a repeated key the last value wins at the first place. -/
def ofNode? : Node → Option Setting
  | .null => none
  | .bool b => some (.bool b)
  | .num n => some (.num n)
  | .str s => some (.str s)
  | .scalar s => s.atom?.bind ofAtom?
  | .seq items => (itemsOf? items).map .list
  | .map entries => (entriesOf? entries).map fun es => .map (Table.ofEntries es)
  | .tagged _ => none
  | .unreadable => none

/-- Reads every item of a sequence. -/
def itemsOf? : List Node → Option (List Setting)
  | [] => some []
  | n :: ns => do
    let s ← ofNode? n
    return s :: (← itemsOf? ns)

/-- Reads every entry of a map. -/
def entriesOf? : List (Node × Node) → Option (List (String × Setting))
  | [] => some []
  | (k, v) :: es => do
    let key ← k.keyAtom?
    let s ← ofNode? v
    return (key, s) :: (← entriesOf? es)

end

/-! ### Merging -/

mutual

/-- Merges maps at every depth; any other value of `upper` replaces the base.  A key of `upper`
moves to the end of the merged map. -/
def merge (base : Setting) : Setting → Setting
  | .map upper => match base with
    | .map entries => .map (mergeEntries entries upper)
    | _ => .map upper
  | .bool b => .bool b
  | .num n => .num n
  | .str s => .str s
  | .list items => .list items

/-- Merges the entries of `upper` one after the other. -/
def mergeEntries (entries : List (String × Setting)) :
    List (String × Setting) → List (String × Setting)
  | [] => entries
  | (k, v) :: upper =>
    let merged := match Table.get? entries k with
      | some s => merge s v
      | none => v
    mergeEntries (Table.erase entries k ++ [(k, merged)]) upper

end

end Setting

namespace Settings

/-- Overlays one value: merged where `key` is among the deep keys, replaced otherwise, in place. -/
def overlayOne (deep : List String) (base : Settings) (key : String) (value : Setting) : Settings :=
  match Table.get? base key with
  | some s => Table.put base key (if deep.contains key then s.merge value else value)
  | none => Table.put base key value

/-- Overlays `upper` onto `base`, key by key. -/
def overlay (deep : List String) (base upper : Settings) : Settings :=
  upper.foldl (fun acc e => overlayOne deep acc e.1 e.2) base

/-- The written form. -/
def toJson (s : Settings) : Json := .obj (Setting.entriesJson s)

end Settings

end LintConfig
