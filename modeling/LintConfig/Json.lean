import LintConfig.Number
import LintConfig.Table

/-!
# JSON values

One tree for every structured value: requests, documents in written form, and what is
fingerprinted.  An object keeps its members in order; `Json.collapse` settles repeated names, of
which the last value wins at the first place.
-/

namespace LintConfig

/-- A JSON value whose objects keep the order of their members. -/
inductive Json where
  | null
  | bool (b : Bool)
  | num (n : Number)
  | str (s : String)
  | arr (items : List Json)
  | obj (members : List (String × Json))
deriving Inhabited

namespace Json

/-- A whole number. -/
def nat (n : Nat) : Json := .num (.int n)

/-- An array of texts. -/
def strings (ss : List String) : Json := .arr (ss.map .str)

/-- A text, or null. -/
def optionalStr : Option String → Json
  | none => .null
  | some s => .str s

mutual

/-- Settles repeated names in every object: the last value wins at the first place. -/
def collapse : Json → Json
  | .arr items => .arr (collapseItems items)
  | .obj members => .obj (Table.ofEntries (collapseMembers members))
  | .null => .null
  | .bool b => .bool b
  | .num n => .num n
  | .str s => .str s

/-- Settles repeated names in every item. -/
def collapseItems : List Json → List Json
  | [] => []
  | j :: js => collapse j :: collapseItems js

/-- Settles repeated names in every value. -/
def collapseMembers : List (String × Json) → List (String × Json)
  | [] => []
  | (k, v) :: ms => (k, collapse v) :: collapseMembers ms

end

/-- The member with a given name, of an object. -/
def member? : Json → String → Option Json
  | .obj members, k => Table.get? members k
  | _, _ => none

end Json

end LintConfig
