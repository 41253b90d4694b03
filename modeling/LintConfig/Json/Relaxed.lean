import LintConfig.Json.Strict
import LintConfig.Text.Letters

/-!
# Relaxed JSON texts

JSON with comments, trailing commas, single quotes, unquoted keys, line continuations and further
numerals.  Reading has two steps.  `Relaxed.tree?` checks the grammar and keeps numerals and
string parts as they are spelled; `Tree.json` then gives them values in text order, so that the
first spelling without a value is the one reported.  A text that breaks the grammar is reported
as such, before any spelling is looked at.
-/

namespace LintConfig.Json.Relaxed

/-- Why a relaxed text has no value. -/
inductive Fault where
  /-- The text breaks the grammar. -/
  | grammar
  /-- A decimal numeral is no 64-bit signed integer, or is none at all. -/
  | integer
  /-- A numeral with a point or an exponent is none. -/
  | number
  /-- A numeral lies beyond the range of doubles. -/
  | tooLarge
  /-- A hexadecimal spelling is none, or needs more than 32 bits. -/
  | hex
  /-- A trailing surrogate stands alone. -/
  | unexpectedTrail
  /-- A leading surrogate ends the string. -/
  | missingTrail
  /-- A leading surrogate is followed by something else. -/
  | expectedTrail
deriving DecidableEq, Repr

/-- The text of a fault; a broken grammar has none of its own. -/
def Fault.message? : Fault → Option String
  | .grammar => none
  | .integer => some "error parsing integer"
  | .number => some "error parsing number"
  | .tooLarge => some "error parsing number: too large"
  | .hex => some "error parsing hex"
  | .unexpectedTrail => some "unexpected unicode trail surrogate"
  | .missingTrail => some "missing unicode trail surrogate"
  | .expectedTrail => some "expecting unicode trail surrogate"

/-- A part of a string as it is spelled. -/
inductive Part where
  /-- A character that stands for itself. -/
  | char (c : Char)
  /-- A character after a backslash. -/
  | escape (c : Char)
  /-- The hexadecimal digits of a numeric escape. -/
  | code (digits : List Char)

/-- A value whose numerals and strings are kept as they are spelled. -/
inductive Tree where
  | null
  | bool (b : Bool)
  | numeral (text : List Char)
  | str (parts : List Part)
  | arr (items : List Tree)
  | obj (members : List (List Part × Tree))

/-! ### Spaces and comments -/

/-- The characters that end a line. -/
def isLineEnd (c : Char) : Bool :=
  c == '\n' || c == '\r' || c.toNat == 0x2028 || c.toNat == 0x2029

/-- The characters between tokens. -/
def isSpace (c : Char) : Bool :=
  let n := c.toNat
  n == 0x09 || n == 0x0B || n == 0x0C || n == 0x20 || n == 0xA0 || n == 0xFEFF || isLineEnd c ||
    n == 0x1680 || (0x2000 ≤ n && n ≤ 0x200A) || n == 0x202F || n == 0x205F || n == 0x3000

/-- Where a reader of spaces and comments is. -/
inductive Gap where
  | outside
  | line
  /-- In a block comment that began at a position, kept for the case that it is not closed. -/
  | block (opened : List Char)

/-- Drops spaces and comments.  A block comment that is not closed is not dropped. -/
def skipGap : Gap → List Char → List Char
  | .outside, '/' :: '/' :: cs => skipGap .line cs
  | .outside, '/' :: '*' :: cs => skipGap (.block ('/' :: '*' :: cs)) cs
  | .outside, c :: cs => if isSpace c then skipGap .outside cs else c :: cs
  | .line, c :: cs => if isLineEnd c then skipGap .outside cs else skipGap .line cs
  | .block _, '*' :: '/' :: cs => skipGap .outside cs
  | .block opened, _ :: cs => skipGap (.block opened) cs
  | .block opened, [] => opened
  | _, [] => []

/-- Drops spaces and comments. -/
def skip (cs : List Char) : List Char := skipGap .outside cs

/-! ### Strings and keys -/

/-- Whether a character is a hexadecimal digit. -/
def isHexDigit (c : Char) : Bool := (Yaml.digit? 16 c).isSome

/-- Reads the parts of a string up to its closing quote. -/
def parts? (quote : Char) : List Char → Option (List Part × List Char)
  | [] => none
  | '\\' :: '\r' :: '\n' :: cs => parts? quote cs
  | '\\' :: 'u' :: a :: b :: c :: d :: cs =>
    if [a, b, c, d].all isHexDigit then do
      let (ps, rest) ← parts? quote cs
      return (.code [a, b, c, d] :: ps, rest)
    else none
  | '\\' :: 'x' :: a :: b :: cs =>
    if [a, b].all isHexDigit then do
      let (ps, rest) ← parts? quote cs
      return (.code [a, b] :: ps, rest)
    else none
  | '\\' :: c :: cs =>
    if isLineEnd c then parts? quote cs
    else if c = 'x' ∨ c = 'u' ∨ ('1' ≤ c ∧ c ≤ '9') then none
    else do
      let (ps, rest) ← parts? quote cs
      return (.escape c :: ps, rest)
  | c :: cs =>
    if c = quote then some ([], cs)
    else if c = '\\' ∨ isLineEnd c then none
    else do
      let (ps, rest) ← parts? quote cs
      return (.char c :: ps, rest)

/-- Whether a character starts an unquoted key. -/
def startsKey (c : Char) : Bool := c == '$' || c == '_' || Text.isLetter c

/-- Reads the parts of an unquoted key; `first` asks for a character that may start one. -/
def keyParts : Bool → List Char → List Part × List Char
  | _, '\\' :: 'u' :: a :: b :: c :: d :: cs =>
    if [a, b, c, d].all isHexDigit then
      let (ps, rest) := keyParts false cs
      (.code [a, b, c, d] :: ps, rest)
    else ([], '\\' :: 'u' :: a :: b :: c :: d :: cs)
  | first, c :: cs =>
    if startsKey c || (!first && Text.isFollowing c) then
      let (ps, rest) := keyParts false cs
      (.char c :: ps, rest)
    else ([], c :: cs)
  | _, [] => ([], [])

/-- Reads a key, quoted or not. -/
def key? : List Char → Option (List Part × List Char)
  | '"' :: cs => parts? '"' cs
  | '\'' :: cs => parts? '\'' cs
  | cs => match keyParts true cs with
    | ([], _) => none
    | (p :: ps, rest) => some (p :: ps, rest)

/-! ### Numerals -/

/-- The optional sign at the start of a numeral. -/
def spanSign : List Char → List Char × List Char
  | '+' :: cs => (['+'], cs)
  | '-' :: cs => (['-'], cs)
  | cs => ([], cs)

/-- The exponent part at the start of a text, if there is one. -/
def spanExponent : List Char → List Char × List Char
  | c :: cs =>
    if c = 'e' ∨ c = 'E' then
      let (sign, rest) := spanSign cs
      match Numeral.spanDigits rest with
      | ([], _) => ([], c :: cs)
      | (ds, rest) => (c :: (sign ++ ds), rest)
    else ([], c :: cs)
  | [] => ([], [])

/-- The whole part of a decimal numeral: a zero, or digits without a leading zero. -/
def spanWhole : List Char → List Char × List Char
  | '0' :: cs => (['0'], cs)
  | cs => Numeral.spanDigits cs

/-- Reads a decimal numeral. -/
def decimal? (cs : List Char) : Option (List Char × List Char) :=
  match spanWhole cs with
  | ([], '.' :: cs) => match Numeral.spanDigits cs with
    | ([], _) => none
    | (ds, cs) =>
      let (e, rest) := spanExponent cs
      some ('.' :: (ds ++ e), rest)
  | ([], _) => none
  | (whole, '.' :: cs) =>
    let (ds, cs) := Numeral.spanDigits cs
    let (e, rest) := spanExponent cs
    some (whole ++ '.' :: (ds ++ e), rest)
  | (whole, cs) =>
    let (e, rest) := spanExponent cs
    some (whole ++ e, rest)

/-- Reads a numeral without its sign. -/
def unsigned? (cs : List Char) : Option (List Char × List Char) :=
  let hex? : Option (List Char × List Char) := match cs with
    | '0' :: x :: cs =>
      if x = 'x' ∨ x = 'X' then
        match cs.takeWhile isHexDigit with
        | [] => none
        | ds => some ('0' :: x :: ds, cs.dropWhile isHexDigit)
      else none
    | _ => none
  match hex? with
  | some r => some r
  | none =>
    match Strict.expect? "Infinity".toList cs with
    | some rest => some ("Infinity".toList, rest)
    | none =>
      match Strict.expect? "NaN".toList cs with
      | some rest => some ("NaN".toList, rest)
      | none => decimal? cs

/-- Reads a numeral. -/
def numeral? (cs : List Char) : Option (List Char × List Char) := do
  let (sign, cs) := spanSign cs
  let (body, rest) ← unsigned? cs
  return (sign ++ body, rest)

/-! ### The grammar -/

mutual

/-- Reads a value. -/
def value? : Nat → List Char → Option (Tree × List Char)
  | 0, _ => none
  | fuel + 1, cs =>
    match Strict.expect? "null".toList cs with
    | some rest => some (.null, rest)
    | none =>
      match Strict.expect? "true".toList cs with
      | some rest => some (.bool true, rest)
      | none =>
        match Strict.expect? "false".toList cs with
        | some rest => some (.bool false, rest)
        | none =>
          match cs with
          | '"' :: cs => (parts? '"' cs).map fun r => (.str r.1, r.2)
          | '\'' :: cs => (parts? '\'' cs).map fun r => (.str r.1, r.2)
          | '[' :: cs => match skip cs with
            | ']' :: rest => some (.arr [], rest)
            | cs => (items? fuel cs).map fun r => (.arr r.1, r.2)
          | '\x7b' :: cs => match skip cs with
            | '\x7d' :: rest => some (.obj [], rest)
            | cs => (members? fuel cs).map fun r => (.obj r.1, r.2)
          | cs => (numeral? cs).map fun r => (.numeral r.1, r.2)

/-- Reads the items of an array up to its closing bracket; a comma may end them. -/
def items? : Nat → List Char → Option (List Tree × List Char)
  | 0, _ => none
  | fuel + 1, cs => do
    let (item, cs) ← value? fuel cs
    match skip cs with
    | ']' :: rest => return ([item], rest)
    | ',' :: cs => match skip cs with
      | ']' :: rest => return ([item], rest)
      | cs =>
        let (items, rest) ← items? fuel cs
        return (item :: items, rest)
    | _ => none

/-- Reads the members of an object up to its closing brace; a comma may end them. -/
def members? : Nat → List Char → Option (List (List Part × Tree) × List Char)
  | 0, _ => none
  | fuel + 1, cs => do
    let (key, cs) ← key? cs
    match skip cs with
    | ':' :: cs =>
      let (value, cs) ← value? fuel (skip cs)
      match skip cs with
      | '\x7d' :: rest => return ([(key, value)], rest)
      | ',' :: cs => match skip cs with
        | '\x7d' :: rest => return ([(key, value)], rest)
        | cs =>
          let (members, rest) ← members? fuel cs
          return ((key, value) :: members, rest)
      | _ => none
    | _ => none

end

/-- Reads a whole text by the grammar. -/
def tree? (text : String) : Option Tree := do
  let cs := text.toList
  let (t, rest) ← value? (cs.length + 1) (skip cs)
  match skip rest with
  | [] => some t
  | _ :: _ => none

/-! ### The values of spellings -/

/-- The character that an escape stands for. -/
def escapeValue : Char → Char
  | 'b' => '\x08'
  | 'f' => '\x0c'
  | 'n' => '\n'
  | 'r' => '\r'
  | 't' => '\t'
  | 'v' => '\x0b'
  | '0' => '\x00'
  | c => c

/-- What follows a leading surrogate, as it is spelled. -/
def Part.spelling : Part → List Char
  | .char c => [c]
  | .escape c => [c]
  | .code digits => digits

/-- The characters of a string.  A pair of surrogates is joined bit by bit, so that of the code
points above U+1FFFF only some are reached. -/
def characters : List Part → Except Fault (List Char)
  | [] => .ok []
  | .char c :: ps => do return c :: (← characters ps)
  | .escape c :: ps => do return escapeValue c :: (← characters ps)
  | .code digits :: ps =>
    let n := (Yaml.natIn? 16 digits).getD 0
    if 0xDC00 ≤ n ∧ n ≤ 0xDFFF then .error .unexpectedTrail
    else if 0xD800 ≤ n ∧ n ≤ 0xDBFF then
      match ps with
      | [] => .error .missingTrail
      | p :: ps =>
        match Yaml.natIn? 16 p.spelling with
        | none => .error .hex
        | some m =>
          if 0xDC00 ≤ m ∧ m ≤ 0xDFFF then do
            let joined := ((n - 0xD800) <<< 10) ||| ((m - 0xDC00) + 0x10000)
            return Char.ofNat joined :: (← characters ps)
          else .error .expectedTrail
    else do return Char.ofNat n :: (← characters ps)

/-- The text of a string. -/
def text (ps : List Part) : Except Fault String := (characters ps).map String.ofList

/-- Whether a numeral is hexadecimal and has no sign. -/
def isHex : List Char → Bool
  | '0' :: c :: _ :: _ => c == 'x' || c == 'X'
  | _ => false

/-- Whether a numeral is a text of an infinity or of the number that is none. -/
def isSpecial (cs : List Char) : Bool :=
  ["Infinity", "-Infinity", "NaN", "-NaN"].contains (String.ofList cs)

/-- Whether a numeral asks for an integer. -/
def isInteger (cs : List Char) : Bool :=
  !cs.contains '.' && (isHex cs || !(cs.contains 'e' || cs.contains 'E')) && !isSpecial cs

/-- The value of a numeral; infinities and the number that is none are null. -/
def number (cs : List Char) : Except Fault Json :=
  if isSpecial cs then .ok .null
  else if isHex cs then
    match Yaml.natIn? 16 (cs.drop 2) with
    | some n => if n < Nat.pow 2 32 then .ok (.num (.int n)) else .error .hex
    | none => .error .hex
  else if isInteger cs then
    let (sign, digits) := spanSign cs
    match Yaml.natIn? 10 digits with
    | none => .error .integer
    | some n =>
      let v : Int := if sign = ['-'] then -n else n
      if Number.minInt ≤ v ∧ v ≤ Number.maxSigned then .ok (.num (.int v)) else .error .integer
  else
    match Numeral.ofChars? cs with
    | none => .error .number
    | some n =>
      if n.toDouble.isFinite then .ok (.num (.float n.toDouble)) else .error .tooLarge

mutual

/-- The value of a tree; repeated names are kept. -/
def Tree.json : Tree → Except Fault Json
  | .null => .ok .null
  | .bool b => .ok (.bool b)
  | .numeral cs => number cs
  | .str ps => (text ps).map .str
  | .arr items => (jsonItems items).map .arr
  | .obj members => (jsonMembers members).map .obj

/-- The values of items. -/
def jsonItems : List Tree → Except Fault (List Json)
  | [] => .ok []
  | t :: ts => do
    let j ← t.json
    return j :: (← jsonItems ts)

/-- The values of members. -/
def jsonMembers : List (List Part × Tree) → Except Fault (List (String × Json))
  | [] => .ok []
  | (key, t) :: ms => do
    let k ← text key
    let j ← t.json
    return (k, j) :: (← jsonMembers ms)

end

/-- Reads a whole text as one JSON value; of a repeated name the last value wins. -/
def read (text : String) : Except Fault Json :=
  match tree? text with
  | none => .error .grammar
  | some t => t.json.map Json.collapse

end LintConfig.Json.Relaxed

namespace LintConfig.Json

/-- A double that is a whole number of magnitude below `2 ^ 63` as an integer. -/
def wholeNumber : Number → Number
  | .int n => .int n
  | .float d =>
    match d.toInt? with
    | some n => if n.natAbs < Nat.pow 2 63 then .int n else .float d
    | none => .float d

mutual

/-- Makes integers of whole doubles at every depth. -/
def wholeNumbers : Json → Json
  | .num n => .num (wholeNumber n)
  | .arr items => .arr (wholeItems items)
  | .obj members => .obj (wholeMembers members)
  | .null => .null
  | .bool b => .bool b
  | .str s => .str s

/-- Makes integers of whole doubles in every item. -/
def wholeItems : List Json → List Json
  | [] => []
  | j :: js => wholeNumbers j :: wholeItems js

/-- Makes integers of whole doubles in every value. -/
def wholeMembers : List (String × Json) → List (String × Json)
  | [] => []
  | (k, v) :: ms => (k, wholeNumbers v) :: wholeMembers ms

end

end LintConfig.Json
