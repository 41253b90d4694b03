import LintConfig.Yaml.Cursor

/-!
# Lexemes of YAML texts

The parts of a text that are read character by character: bare, quoted and block scalars, names of
anchors, and tags.  Each reader takes a cursor at the start of its part and gives the part and the
cursor after it.
-/

namespace LintConfig.Yaml

/-- What line ends inside a scalar become: a lone line feed is a space and one before others is
dropped; line ends after a separator of lines or paragraphs all stay. -/
def foldBreaks : List Char → List Char
  | ['\n'] => [' ']
  | '\n' :: breaks => breaks
  | breaks => breaks

/-- The characters that structure flow collections. -/
def isFlowMark (c : Char) : Bool :=
  c == ',' || c == '[' || c == ']' || c == '\x7b' || c == '\x7d'

/-! ### Bare scalars -/

/-- What lies between the last character of a bare scalar and the next one. -/
structure Pending where
  /-- Blanks before the first line end, latest first. -/
  blanks : List Char
  /-- Line ends, latest first. -/
  breaks : List Char

/-- Whether nothing is pending. -/
def Pending.isEmpty (p : Pending) : Bool := p.blanks.isEmpty && p.breaks.isEmpty

/-- The characters that pending ones become when the scalar goes on, latest first. -/
def Pending.joined (p : Pending) : List Char :=
  if p.breaks.isEmpty then p.blanks else (foldBreaks p.breaks.reverse).reverse

/-- The characters outside flow collections with which no bare scalar starts. -/
def isIndicator (c : Char) : Bool :=
  ['#', '&', '*', '!', '|', '>', '\'', '"', '%', '@', '\x60'].contains c

/-- Whether a bare scalar may start here. -/
def startsBare (flow : Bool) : List Char → Bool
  | [] => false
  | '-' :: c :: _ => !isBlank c && !isBreak c
  | '-' :: [] => false
  | '?' :: cs => !flow && !endsWord cs
  | ':' :: cs => !flow && !endsWord cs
  | c :: _ =>
    !isBlank c && !isBreak c && !isFlowMark c && !isIndicator c

/-- Reads a bare scalar.  `acc` is what was read, latest first; lines after the first have to be
indented by at least `indent` unless the scalar is in a flow collection, and no tab may stand before
that column. -/
def bareFrom (flow : Bool) (indent : Nat) :
    List Char → Pending → Nat → Nat → List Char → Option (List Char × Cursor)
  | acc, _, line, column, [] => some (acc.reverse, ⟨[], line, column⟩)
  | acc, pending, line, column, c :: cs =>
    if isBreak c then bareFrom flow indent acc ⟨[], c :: pending.breaks⟩ (line + 1) 0 cs
    else if isBlank c then
      if pending.breaks.isEmpty then
        bareFrom flow indent acc ⟨c :: pending.blanks, []⟩ line (column + 1) cs
      else if column < indent && c == '\t' then none
      else bareFrom flow indent acc pending line (column + 1) cs
    else
      let leaves := !pending.isEmpty &&
        ((!pending.breaks.isEmpty && !flow && column < indent) ||
          (column == 0 && isMarker (c :: cs)) || c == '#')
      let clashes := flow && c == ':' && cs.head?.any fun d => isFlowMark d || d == '?'
      if !leaves && clashes then none
      else if leaves || (c == ':' && endsWord cs) || (flow && isFlowMark c) then
        some (acc.reverse, ⟨c :: cs, line, column⟩)
      else bareFrom flow indent (c :: (pending.joined ++ acc)) ⟨[], []⟩ line (column + 1) cs

/-- Reads a bare scalar. -/
def bare? (flow : Bool) (indent : Nat) (c : Cursor) : Option (List Char × Cursor) :=
  bareFrom flow indent [] ⟨[], []⟩ c.line c.column c.rest

/-! ### Quoted scalars -/

/-- The character of an escape of one letter. -/
def escaped? : Char → Option Char
  | '0' => some '\x00'
  | 'a' => some '\x07'
  | 'b' => some '\x08'
  | 't' => some '\t'
  | '\t' => some '\t'
  | 'n' => some '\n'
  | 'v' => some '\x0b'
  | 'f' => some '\x0c'
  | 'r' => some '\r'
  | 'e' => some '\x1b'
  | ' ' => some ' '
  | '"' => some '"'
  | '/' => some '/'
  | '\\' => some '\\'
  | 'N' => some (Char.ofNat 0x85)
  | '_' => some (Char.ofNat 0xA0)
  | 'L' => some (Char.ofNat 0x2028)
  | 'P' => some (Char.ofNat 0x2029)
  | _ => none

/-- The number of hexadecimal digits of a numeric escape. -/
def escapeWidth? : Char → Option Nat
  | 'x' => some 2
  | 'u' => some 4
  | 'U' => some 8
  | _ => none

/-- The character of a code point. -/
def charOf? (n : Nat) : Option Char := if n.isValidChar then some (Char.ofNat n) else none

/-- The line ends since the last character of a quoted scalar. -/
structure QuotedBreaks where
  /-- Whether the first one was escaped; it does not count, and the others all stay. -/
  escaped : Bool
  /-- Those that count, latest first. -/
  breaks : List Char

/-- Adds a line end. -/
def QuotedBreaks.add (c : Char) : Option QuotedBreaks → QuotedBreaks
  | none => ⟨false, [c]⟩
  | some b => ⟨b.escaped, c :: b.breaks⟩

/-- The characters that line ends become when the scalar goes on, latest first. -/
def QuotedBreaks.joined (b : QuotedBreaks) : List Char :=
  if b.escaped then b.breaks else (foldBreaks b.breaks.reverse).reverse

/-- Reads a single- or double-quoted scalar after its opening quote.  `acc` is what was read and
`blanks` the blanks after it, latest first; `breaks` are the line ends since then, if any. -/
def quotedFrom (single : Bool) : Nat → List Char → List Char → Option QuotedBreaks → Cursor →
    Option (List Char × Cursor)
  | 0, _, _, _, _ => none
  | fuel + 1, acc, blanks, breaks, c =>
    if c.column = 0 ∧ isMarker c.rest then none
    else
      let flushed : List Char := match breaks with
        | none => blanks ++ acc
        | some b => b.joined ++ acc
      match c.rest with
      | [] => none
      | d :: cs =>
        if isBreak d then quotedFrom single fuel acc [] (some (QuotedBreaks.add d breaks)) c.next
        else if isBlank d then
          match breaks with
          | none => quotedFrom single fuel acc (d :: blanks) none c.next
          | some _ => quotedFrom single fuel acc [] breaks c.next
        else if single then
          match d, cs with
          | '\'', '\'' :: _ => quotedFrom single fuel ('\'' :: flushed) [] none (c.advance 2)
          | '\'', _ => some (flushed.reverse, c.next)
          | _, _ => quotedFrom single fuel (d :: flushed) [] none c.next
        else
          match d, cs with
          | '"', _ => some (flushed.reverse, c.next)
          | '\\', e :: ds =>
            if isBreak e then quotedFrom single fuel flushed [] (some ⟨true, []⟩) c.next.next
            else match escapeWidth? e with
            | some width => do
              let n ← if ds.length < width then none else natIn? 16 (ds.take width)
              let ch ← charOf? n
              quotedFrom single fuel (ch :: flushed) [] none (c.advance (2 + width))
            | none => do
              let ch ← escaped? e
              quotedFrom single fuel (ch :: flushed) [] none (c.advance 2)
          | _, _ => quotedFrom single fuel (d :: flushed) [] none c.next

/-- Reads a quoted scalar after its opening quote. -/
def quoted? (single : Bool) (c : Cursor) : Option (List Char × Cursor) :=
  quotedFrom single (c.rest.length + 1) [] [] none c

/-! ### Block scalars -/

/-- What becomes of line ends at the end of a block scalar. -/
inductive Chomp where
  | strip
  | clip
  | keep
deriving DecidableEq

/-- Reads the header of a block scalar: an indentation and a chomping mark in either order. -/
def blockHeader? (cs : List Char) : Option (Chomp × Option Nat × Nat) :=
  let chomp? : Char → Option Chomp
    | '-' => some .strip
    | '+' => some .keep
    | _ => none
  let width? (c : Char) : Option (Option Nat) :=
    if c = '0' then some none
    else if c.isDigit then some (some (c.toNat - '0'.toNat)) else none
  match cs with
  | [] => some (.clip, none, 0)
  | a :: cs =>
    match chomp? a, width? a with
    | some k, _ => match cs.head?.bind width? with
      | some none => none
      | some (some w) => some (k, some w, 2)
      | none => some (k, none, 1)
    | none, some none => none
    | none, some (some w) => match cs.head?.bind chomp? with
      | some k => some (k, some w, 2)
      | none => some (.clip, some w, 1)
    | none, none => some (.clip, none, 0)

/-- Passes the rest of a line that may hold blanks and a comment only. -/
def restOfLine? (c : Cursor) : Option Cursor :=
  let c := c.skipBlanks
  let c := match c.rest with
    | '#' :: _ => c.advance c.restOfLine.length
    | _ => c
  match c.rest with
  | [] => some c
  | d :: _ => if isBreak d then some c.next else none

/-- Passes indentation and empty lines before the content of a block scalar: the line ends passed,
latest first, the greatest column reached, and the cursor.  Without a known indentation all spaces
count as one. -/
def blockBreaks (indent : Option Nat) :
    Nat → List Char → Nat → Cursor → Option (List Char × Nat × Cursor)
  | 0, _, _, _ => none
  | fuel + 1, breaks, greatest, c =>
    let indenting := indent.all (c.column < ·)
    match c.rest with
    | [] => some (breaks, greatest, c)
    | d :: _ =>
      if isBreak d then blockBreaks indent fuel (d :: breaks) greatest c.next
      else if !indenting then some (breaks, greatest, c)
      else if d = ' ' then blockBreaks indent fuel breaks (max greatest (c.column + 1)) c.next
      else if d = '\t' then none
      else some (breaks, greatest, c)

/-- Reads the lines of a block scalar.  `lineEnd` is the end of the line read last, if it has one,
`breaks` are those of the empty lines after it, latest first, and `wasBlank` says that it started
with a blank. -/
def blockLines (literal : Bool) (indent : Nat) :
    Nat → List Char → Option Char → List Char → Bool → Cursor →
      Option (List Char × Option Char × List Char × Cursor)
  | 0, _, _, _, _, _ => none
  | fuel + 1, acc, lineEnd, breaks, wasBlank, c =>
    if c.column ≠ indent ∨ c.rest.isEmpty then some (acc, lineEnd, breaks, c)
    else do
      let blank := c.rest.head?.any isBlank
      let acc :=
        if !literal && lineEnd == some '\n' && !wasBlank && !blank then
          (if breaks.isEmpty then ' ' :: acc else acc)
        else lineEnd.toList ++ acc
      let text := c.restOfLine
      let c := c.advance text.length
      let (later, _, d) ← blockBreaks (some indent) fuel [] 0 c.next
      blockLines literal indent fuel (text.reverse ++ (breaks ++ acc)) c.rest.head? later blank d

/-- Reads a block scalar after its mark; its lines are indented by more than `parent`. -/
def block? (literal : Bool) (parent : Int) (c : Cursor) : Option (List Char × Cursor) := do
  let (chomp, width, used) ← blockHeader? c.rest
  let c ← restOfLine? (c.advance used)
  let fuel := c.rest.length + 1
  let least := max (parent + 1).toNat 1
  let known := width.map fun w => if 0 ≤ parent then parent.toNat + w else w
  let (breaks, greatest, c) ← blockBreaks known fuel [] 0 c
  let indent := known.getD (max greatest least)
  let (acc, lineEnd, breaks, c) ← blockLines literal indent (fuel + 1) [] none breaks false c
  let acc := if chomp = .strip then acc else lineEnd.toList ++ acc
  let acc := if chomp = .keep then breaks ++ acc else acc
  return (acc.reverse, c)

/-! ### Anchors and tags -/

/-- The characters of names. -/
def isNameChar (c : Char) : Bool := c.isAlphanum || c == '_' || c == '-'

/-- Reads the name of an anchor or alias after its mark. -/
def name? (c : Cursor) : Option (String × Cursor) :=
  let name := c.rest.takeWhile isNameChar
  let c := c.advance name.length
  let ended := endsWord c.rest ||
    c.rest.head?.any fun d => ['?', ':', ',', ']', '\x7d', '%', '@', '\x60'].contains d
  if name.isEmpty || !ended then none else some (String.ofList name, c)

/-- The beginning of the names of core tags. -/
def coreTag : String := "tag:yaml.org,2002:"

/-- What a tag in full asks for. -/
def tagOf (full : String) : Tag :=
  if full == coreTag ++ "null" then .null
  else if full == coreTag ++ "bool" then .bool
  else if full == coreTag ++ "int" then .int
  else if full == coreTag ++ "float" then .float
  else match full.toList with
    | '!' :: name => .own (String.ofList name)
    | _ => .text

/-- The characters of tags. -/
def isTagChar (c : Char) : Bool :=
  isNameChar c || [';', '/', '?', ':', '@', '&', '=', '+', '$', '.', '%', '!', '~', '*', '\'', '(',
    ')'].contains c

/-- Reads a tag after its first mark, given the tags' handles; a lone mark is no tag. -/
def tag? (handles : Table String) (flow : Bool) (c : Cursor) : Option (Option Tag × Cursor) := do
  let (tag, c) ← match c.rest with
    | '<' :: cs =>
      let uri := cs.takeWhile (· != '>')
      if uri.isEmpty || uri.length = cs.length then none
      else if !uri.all fun d => isTagChar d || d == ',' || d == '[' || d == ']' then none
      else some (some (tagOf (String.ofList uri)), c.advance (uri.length + 2))
    | cs =>
      let word := cs.takeWhile isNameChar
      match cs.drop word.length with
      | '!' :: cs =>
        let suffix := cs.takeWhile isTagChar
        let handle := "!" ++ String.ofList word ++ "!"
        if suffix.isEmpty then none
        else do
          let start ← Table.get? handles handle
          let length := word.length + 1 + suffix.length
          some (some (tagOf (start ++ String.ofList suffix)), c.advance length)
      | _ =>
        let suffix := cs.takeWhile isTagChar
        if suffix.isEmpty then some (none, c)
        else do
          let start ← Table.get? handles "!"
          some (some (tagOf (start ++ String.ofList suffix)), c.advance suffix.length)
  if endsWord c.rest || (flow && c.rest.head? == some ',') then return (tag, c) else none

end LintConfig.Yaml
