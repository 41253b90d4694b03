import LintConfig.Json
import LintConfig.Yaml.Scalar

/-!
# Nodes

What a reader of documents sees, whatever notation the text is in.  JSON values, JSON texts, YAML
texts and TOML texts all become nodes.  A node keeps what a decoder can still tell apart: repeated
keys, the spelling of YAML scalars, and parts that may be skipped but not read.
-/

namespace LintConfig

/-- A structured value as a decoder meets it. -/
inductive Node where
  | null
  | bool (b : Bool)
  | num (n : Number)
  | str (s : String)
  /-- A scalar whose value depends on the reader. -/
  | scalar (s : Yaml.Scalar)
  | seq (items : List Node)
  | map (entries : List (Node × Node))
  /-- A container with an application's own tag, which only a reader of such containers accepts. -/
  | tagged (container : Node)
  /-- A part that is well formed and may be skipped, but that no reader accepts: a number beyond
  the range of doubles, a text with half a surrogate pair, or too deep a nesting. -/
  | unreadable
deriving Inhabited

namespace Node

mutual

/-- A JSON value as a node. -/
def ofJson : Json → Node
  | .null => .null
  | .bool b => .bool b
  | .num n => .num n
  | .str s => .str s
  | .arr items => .seq (ofItems items)
  | .obj members => .map (ofMembers members)

/-- JSON values as nodes. -/
def ofItems : List Json → List Node
  | [] => []
  | j :: js => ofJson j :: ofItems js

/-- JSON members as entries. -/
def ofMembers : List (String × Json) → List (Node × Node)
  | [] => []
  | (k, v) :: ms => (.str k, ofJson v) :: ofMembers ms

end

/-- The value of an atom. -/
def ofAtom : Atom → Node
  | .null => .null
  | .bool b => .bool b
  | .num n => .num n
  | .str s => .str s

/-- A key for a reader of texts. -/
def keyText? : Node → Option String
  | .str s => some s
  | .scalar s => some s.asText
  | _ => none

/-- A key for a reader that takes any kind of value: it has to be a text. -/
def keyAtom? : Node → Option String
  | .str s => some s
  | .scalar s => match s.atom? with
    | some (.str t) => some t
    | _ => none
  | _ => none

mutual

/-- The JSON value of a node all of whose parts can be read; repeated keys are kept. -/
def json? : Node → Option Json
  | .null => some .null
  | .bool b => some (.bool b)
  | .num n => some (.num n)
  | .str s => some (.str s)
  | .scalar s => match s.atom? with
    | some .null => some .null
    | some (.bool b) => some (.bool b)
    | some (.num n) => some (.num n)
    | some (.str t) => some (.str t)
    | none => none
  | .seq items => (jsonItems? items).map .arr
  | .map entries => (jsonMembers? entries).map .obj
  | .tagged _ => none
  | .unreadable => none

/-- The JSON values of nodes all of whose parts can be read. -/
def jsonItems? : List Node → Option (List Json)
  | [] => some []
  | n :: ns => do return (← json? n) :: (← jsonItems? ns)

/-- The JSON members of entries all of whose parts can be read. -/
def jsonMembers? : List (Node × Node) → Option (List (String × Json))
  | [] => some []
  | (k, v) :: es => do return (← keyAtom? k, ← json? v) :: (← jsonMembers? es)

end

end Node

end LintConfig
