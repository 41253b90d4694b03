import LintConfig.Json
import LintConfig.Text.Quoted

/-!
# JSON as text

The compact form has no spaces; the laid-out form indents by two spaces, puts a space after each
colon, and writes empty containers as `[]` and as a pair of braces.  Both escape quotes,
backslashes and control characters, and write every other character as itself.
-/

namespace LintConfig.Json

/-- An opening brace. -/
def braceOpen : Char := '\x7b'

/-- A closing brace. -/
def braceClose : Char := '\x7d'

/-- The two lower-case hexadecimal digits of a number below 256. -/
def hexPair (n : Nat) : List Char := [Nat.digitChar (n / 16), Nat.digitChar (n % 16)]

/-- A character inside a JSON string. -/
def escapeChar (c : Char) : List Char :=
  if c = '"' then ['\\', '"']
  else if c = '\\' then ['\\', '\\']
  else if c.toNat < 0x20 then
    if c.toNat = 8 then ['\\', 'b']
    else if c.toNat = 9 then ['\\', 't']
    else if c.toNat = 10 then ['\\', 'n']
    else if c.toNat = 12 then ['\\', 'f']
    else if c.toNat = 13 then ['\\', 'r']
    else '\\' :: 'u' :: '0' :: '0' :: hexPair c.toNat
  else [c]

/-- A JSON string. -/
def stringChars (s : String) : List Char := '"' :: (s.toList.flatMap escapeChar ++ ['"'])

/-- Joins texts with commas. -/
def commaJoin : List (List Char) → List Char
  | [] => []
  | [cs] => cs
  | cs :: rest => cs ++ ',' :: commaJoin rest

mutual

/-- The compact form. -/
def compactChars : Json → List Char
  | .null => "null".toList
  | .bool b => if b then "true".toList else "false".toList
  | .num n => n.text.toList
  | .str s => stringChars s
  | .arr items => '[' :: (commaJoin (compactItems items) ++ [']'])
  | .obj members => braceOpen :: (commaJoin (compactMembers members) ++ [braceClose])

/-- The compact forms of the items. -/
def compactItems : List Json → List (List Char)
  | [] => []
  | j :: js => compactChars j :: compactItems js

/-- The compact forms of the members. -/
def compactMembers : List (String × Json) → List (List Char)
  | [] => []
  | (k, v) :: ms => (stringChars k ++ ':' :: compactChars v) :: compactMembers ms

end

/-- The compact form. -/
def compact (j : Json) : String := String.ofList (compactChars j)

/-- A line break and the indentation of a nesting level. -/
def newline (level : Nat) : List Char := '\n' :: List.replicate (2 * level) ' '

/-- Sets out the parts of a container, each on a line of its own. -/
def layoutParts (level : Nat) : List (List Char) → List Char
  | [] => []
  | [cs] => newline level ++ cs
  | cs :: rest => newline level ++ cs ++ ',' :: layoutParts level rest

mutual

/-- The laid-out form at a nesting level. -/
def prettyChars (level : Nat) : Json → List Char
  | .arr [] => ['[', ']']
  | .obj [] => [braceOpen, braceClose]
  | .arr items =>
    '[' :: (layoutParts (level + 1) (prettyItems (level + 1) items) ++ newline level ++ [']'])
  | .obj members =>
    braceOpen :: (layoutParts (level + 1) (prettyMembers (level + 1) members) ++
      newline level ++ [braceClose])
  | .null => "null".toList
  | .bool b => if b then "true".toList else "false".toList
  | .num n => n.text.toList
  | .str s => stringChars s

/-- The laid-out forms of the items. -/
def prettyItems (level : Nat) : List Json → List (List Char)
  | [] => []
  | j :: js => prettyChars level j :: prettyItems level js

/-- The laid-out forms of the members. -/
def prettyMembers (level : Nat) : List (String × Json) → List (List Char)
  | [] => []
  | (k, v) :: ms => (stringChars k ++ ':' :: ' ' :: prettyChars level v) :: prettyMembers level ms

end

/-- The laid-out form. -/
def pretty (j : Json) : String := String.ofList (prettyChars 0 j)

end LintConfig.Json
