import LintConfig.Table
import LintConfig.Yaml.Scalar

/-!
# Positions in a YAML text

A `Cursor` is the rest of a text with the line and column it starts at.  A line end is a single
character after `normalLines`.  Blanks, comments and line ends between the parts of a text are
passed by `Cursor.skip`, and `---` or `...` at the start of a line ends a document.
-/

namespace LintConfig.Yaml

/-- The rest of a text, and where it starts. -/
structure Cursor where
  rest : List Char
  line : Nat
  column : Nat

/-- Makes carriage returns and next lines line feeds; the separators of lines and of paragraphs
are line ends that stay as they are. -/
def normalLines : List Char → List Char
  | '\r' :: '\n' :: cs => '\n' :: normalLines cs
  | '\r' :: cs => '\n' :: normalLines cs
  | c :: cs => (if c.toNat = 0x85 then '\n' else c) :: normalLines cs
  | [] => []

/-- Whether a character ends a line. -/
def isBreak (c : Char) : Bool := c == '\n' || c.toNat == 0x2028 || c.toNat == 0x2029

/-- The characters that may stand in a text. -/
def isAllowed (c : Char) : Bool :=
  let n := c.toNat
  n == 0x09 || n == 0x0A || n == 0x0D || (0x20 ≤ n && n ≤ 0x7E) || n == 0x85 ||
    (0xA0 ≤ n && n ≤ 0xD7FF) || (0xE000 ≤ n && n ≤ 0xFFFD) || 0x10000 ≤ n

/-- A space or a tab. -/
def isBlank (c : Char) : Bool := c == ' ' || c == '\t'

/-- Whether a text goes on with a blank or a line end, or ends. -/
def endsWord : List Char → Bool
  | [] => true
  | c :: _ => isBlank c || isBreak c

/-- Whether a text starts with `---` or `...` as a word. -/
def isMarker : List Char → Bool
  | '-' :: '-' :: '-' :: cs => endsWord cs
  | '.' :: '.' :: '.' :: cs => endsWord cs
  | _ => false

namespace Cursor

/-- The cursor after one character. -/
def next (c : Cursor) : Cursor :=
  match c.rest with
  | [] => c
  | d :: cs => if isBreak d then ⟨cs, c.line + 1, 0⟩ else ⟨cs, c.line, c.column + 1⟩

/-- The cursor after some characters of its line. -/
def advance (c : Cursor) (n : Nat) : Cursor := ⟨c.rest.drop n, c.line, c.column + n⟩

/-- Whether the text ends here, or the document. -/
def atEnd (c : Cursor) : Bool := c.rest.isEmpty || (c.column == 0 && isMarker c.rest)

/-- Whether the text goes on with a character that is a word of its own. -/
def atWord (c : Cursor) (mark : Char) : Bool :=
  match c.rest with
  | d :: cs => d == mark && endsWord cs
  | [] => false

/-- Passes blanks, comments and line ends.  A tab at the start of a line counts as a blank only
where `tabs` allows it, and after a line end where `flow` does. -/
def skipFrom (flow : Bool) : Bool → Bool → Nat → Nat → List Char → Cursor
  | _, _, line, column, [] => ⟨[], line, column⟩
  | true, tabs, line, column, c :: cs =>
    if isBreak c then skipFrom flow false flow (line + 1) 0 cs
    else skipFrom flow true tabs line (column + 1) cs
  | false, tabs, line, column, c :: cs =>
    if isBreak c then skipFrom flow false flow (line + 1) 0 cs
    else if c = ' ' ∨ (c = '\t' ∧ tabs) then skipFrom flow false tabs line (column + 1) cs
    else if c = '#' then skipFrom flow true tabs line (column + 1) cs
    else ⟨c :: cs, line, column⟩

/-- Passes blanks, comments and line ends. -/
def skip (flow tabs : Bool) (c : Cursor) : Cursor :=
  skipFrom flow false tabs c.line c.column c.rest

/-- The characters up to the end of the line. -/
def restOfLine (c : Cursor) : List Char := c.rest.takeWhile fun d => !isBreak d

/-- Passes blanks. -/
def skipBlanks (c : Cursor) : Cursor := c.advance (c.rest.takeWhile isBlank).length

end Cursor

end LintConfig.Yaml
