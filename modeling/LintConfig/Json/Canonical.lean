import LintConfig.Json.Text
import LintConfig.Text.Units

/-!
# Canonical JSON

The form that is fingerprinted: no spaces, members sorted by the UTF-16 units of their names, and
numbers written as doubles, so that neither the order of keys nor the kind of a number shows.
-/

namespace LintConfig.Json

/-- A member name with the canonical text of its value. -/
abbrev Entry := String × List Char

/-- Sorts the members by name. -/
def sortEntries (entries : List Entry) : List Entry :=
  entries.mergeSort fun a b => Text.leByUnits a.1 b.1

/-- The text of a member. -/
def entryChars (e : Entry) : List Char := stringChars e.1 ++ ':' :: e.2

mutual

/-- The canonical form. -/
def canonicalChars : Json → List Char
  | .null => "null".toList
  | .bool b => if b then "true".toList else "false".toList
  | .num n => n.canonical
  | .str s => stringChars s
  | .arr items => '[' :: (commaJoin (canonicalItems items) ++ [']'])
  | .obj members =>
    braceOpen :: (commaJoin ((sortEntries (canonicalMembers members)).map entryChars) ++
      [braceClose])

/-- The canonical forms of the items. -/
def canonicalItems : List Json → List (List Char)
  | [] => []
  | j :: js => canonicalChars j :: canonicalItems js

/-- The names of the members with the canonical forms of the values. -/
def canonicalMembers : List (String × Json) → List Entry
  | [] => []
  | (k, v) :: ms => (k, canonicalChars v) :: canonicalMembers ms

end

/-- The canonical form. -/
def canonical (j : Json) : String := String.ofList (canonicalChars j)

end LintConfig.Json
