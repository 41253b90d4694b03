import LintConfig.Json.Strict

/-!
# Values of TOML texts

Reads keys, strings, numbers, dates, arrays and inline tables.  Every reader takes the rest of a
text and gives what it read with the rest after it.  Dates have no value of their own: they are a
map with one key, `dateKey`, and their text.
-/

namespace LintConfig.Toml

/-- The key of a map that stands for a date. -/
def dateKey : String := "$__toml_private_datetime"

/-! ### Spaces -/

/-- Drops spaces and tabs. -/
def skipBlanks (cs : List Char) : List Char := cs.dropWhile fun c => c == ' ' || c == '\t'

/-- Whether a character may stand in a comment or a string of one line. -/
def isPlain (c : Char) : Bool := c == '\t' || (0x20 ≤ c.toNat && c.toNat != 0x7F)

/-- Drops a comment, up to the end of its line. -/
def skipComment? : List Char → Option (List Char)
  | '#' :: cs =>
    let rest := cs.dropWhile isPlain
    match rest with
    | [] => some []
    | '\n' :: _ => some rest
    | '\r' :: '\n' :: _ => some rest
    | _ => none
  | cs => some cs

/-- Drops a line end. -/
def newline? : List Char → Option (List Char)
  | '\n' :: cs => some cs
  | '\r' :: '\n' :: cs => some cs
  | _ => none

/-- Drops spaces, comments and line ends. -/
def skipLines? : Nat → List Char → Option (List Char)
  | 0, _ => none
  | fuel + 1, cs => do
    let cs ← skipComment? (skipBlanks cs)
    match newline? cs with
    | some cs => skipLines? fuel cs
    | none => some cs

/-! ### Strings -/

/-- Reads a numeric escape of a number of hexadecimal digits. -/
def codePoint? (width : Nat) (cs : List Char) : Option (Char × List Char) := do
  let digits := cs.take width
  if digits.length < width then none
  let n ← Yaml.natIn? 16 digits
  if n.isValidChar then some (Char.ofNat n, cs.drop width) else none

/-- Reads an escape after its backslash. -/
def escape? : List Char → Option (Char × List Char)
  | 'b' :: cs => some ('\x08', cs)
  | 't' :: cs => some ('\t', cs)
  | 'n' :: cs => some ('\n', cs)
  | 'f' :: cs => some ('\x0c', cs)
  | 'r' :: cs => some ('\r', cs)
  | 'e' :: cs => some ('\x1b', cs)
  | '"' :: cs => some ('"', cs)
  | '\\' :: cs => some ('\\', cs)
  | 'x' :: cs => codePoint? 2 cs
  | 'u' :: cs => codePoint? 4 cs
  | 'U' :: cs => codePoint? 8 cs
  | _ => none

/-- Reads a basic string of one line up to its closing quote. -/
def basic? : Nat → List Char → Option (List Char × List Char)
  | 0, _ => none
  | fuel + 1, cs =>
    match cs with
    | '"' :: rest => some ([], rest)
    | '\\' :: rest => do
      let (c, rest) ← escape? rest
      let (text, rest) ← basic? fuel rest
      return (c :: text, rest)
    | c :: rest =>
      if isPlain c then do
        let (text, rest) ← basic? fuel rest
        return (c :: text, rest)
      else none
    | [] => none

/-- Reads a literal string of one line up to its closing quote. -/
def literal? (cs : List Char) : Option (List Char × List Char) :=
  let text := cs.takeWhile fun c => isPlain c && c != '\''
  match cs.drop text.length with
  | '\'' :: rest => some (text, rest)
  | _ => none

/-- The number of quotes at the start of a text, five at most. -/
def quoteCount (quote : Char) (cs : List Char) : Nat :=
  ((cs.take 5).takeWhile (· == quote)).length

/-- After a backslash at the end of a line, drops blanks and line ends. -/
def skipFolded : Nat → List Char → List Char
  | 0, cs => cs
  | fuel + 1, cs =>
    match newline? (skipBlanks cs) with
    | some cs => skipFolded fuel cs
    | none => skipBlanks cs

/-- Reads a string of several lines up to its three closing quotes; two more may stand before
them.  Escapes are read in basic strings only. -/
def multiline? (quote : Char) (escapes : Bool) : Nat → List Char → Option (List Char × List Char)
  | 0, _ => none
  | fuel + 1, cs =>
    let quotes := quoteCount quote cs
    if 3 ≤ quotes then some (List.replicate (quotes - 3) quote, cs.drop quotes)
    else
      match cs with
      | [] => none
      | c :: rest =>
        if escapes && c == '\\' then
          match newline? (skipBlanks rest) with
          | some _ => multiline? quote escapes fuel (skipFolded fuel rest)
          | none => do
            let (d, rest) ← escape? rest
            let (text, rest) ← multiline? quote escapes fuel rest
            return (d :: text, rest)
        else
          match newline? cs with
          | some rest => do
            let (text, rest) ← multiline? quote escapes fuel rest
            return ('\n' :: text, rest)
          | none =>
            if isPlain c then do
              let (text, rest) ← multiline? quote escapes fuel rest
              return (c :: text, rest)
            else none

/-- Reads a string of any form. -/
def string? (cs : List Char) : Option (String × List Char) :=
  let dropFirst (cs : List Char) : List Char := (newline? cs).getD cs
  let fuel := cs.length + 1
  let read : Option (List Char × List Char) := match cs with
    | '"' :: '"' :: '"' :: rest => multiline? '"' true fuel (dropFirst rest)
    | '\'' :: '\'' :: '\'' :: rest => multiline? '\'' false fuel (dropFirst rest)
    | '"' :: rest => basic? fuel rest
    | '\'' :: rest => literal? rest
    | _ => none
  read.map fun r => (String.ofList r.1, r.2)

/-! ### Keys -/

/-- The characters of keys without quotes. -/
def isBareKey (c : Char) : Bool := c.isAlphanum || c == '_' || c == '-'

/-- Reads one part of a key. -/
def simpleKey? (cs : List Char) : Option (String × List Char) :=
  match cs with
  | '"' :: '"' :: '"' :: _ => none
  | '\'' :: '\'' :: '\'' :: _ => none
  | '"' :: _ => string? cs
  | '\'' :: _ => string? cs
  | _ =>
    match cs.takeWhile isBareKey with
    | [] => none
    | key => some (String.ofList key, cs.dropWhile isBareKey)

/-- Reads a key of parts with dots between them, and the blanks around it. -/
def key? : Nat → List Char → Option (List String × List Char)
  | 0, _ => none
  | fuel + 1, cs => do
    let (part, cs) ← simpleKey? (skipBlanks cs)
    match skipBlanks cs with
    | '.' :: cs =>
      let (parts, rest) ← key? fuel cs
      return (part :: parts, rest)
    | cs => return ([part], cs)

/-! ### Numbers and dates -/

/-- Drops the underscores of a numeral, each of which has to stand between digits of the base. -/
def dropUnderscores? (base : Nat) : Bool → List Char → Option (List Char)
  | _, [] => some []
  | afterDigit, '_' :: c :: cs =>
    if afterDigit && (Yaml.digit? base c).isSome then
      (dropUnderscores? base true cs).map (c :: ·)
    else none
  | _, '_' :: [] => none
  | _, c :: cs =>
    if (Yaml.digit? base c).isSome then (dropUnderscores? base true cs).map (c :: ·) else none

/-- An integer, if there is a number for it. -/
def integerNode (n : Int) : Node :=
  match Yaml.numberOfInt? n with
  | some m => .num m
  | none => .unreadable

/-- Reads a whole text as an integer. -/
def integer? (word : List Char) : Option Node :=
  let based (base : Nat) (ds : List Char) : Option Node := do
    let ds ← dropUnderscores? base false ds
    let n ← Yaml.natIn? base ds
    return integerNode n
  match word with
  | '0' :: 'x' :: ds => based 16 ds
  | '0' :: 'o' :: ds => based 8 ds
  | '0' :: 'b' :: ds => based 2 ds
  | _ => do
    let (negative, ds) := match word with
      | '-' :: ds => (true, ds)
      | '+' :: ds => (false, ds)
      | ds => (false, ds)
    let ds ← dropUnderscores? 10 false ds
    match ds with
    | '0' :: _ :: _ => none
    | _ =>
      let n ← Yaml.natIn? 10 ds
      return integerNode (if negative then -(n : Int) else n)

/-- Reads a whole text as a number with places or an exponent. -/
def float? (word : List Char) : Option Node := do
  let (sign, body) := match word with
    | '-' :: ds => (['-'], ds)
    | '+' :: ds => ([], ds)
    | ds => ([], ds)
  if body = "inf".toList ∨ body = "nan".toList then return .unreadable
  let isMark (c : Char) : Bool := c == '.' || c == 'e' || c == 'E'
  let whole ← dropUnderscores? 10 false (body.takeWhile fun c => !isMark c)
  match whole with
  | [] => none
  | '0' :: _ :: _ => none
  | _ => do
    let rest := body.dropWhile fun c => !isMark c
    let (places, rest) ← match rest with
      | '.' :: rest => do
        let ds ← dropUnderscores? 10 false (rest.takeWhile fun c => !isMark c)
        if ds.isEmpty then none
        some ('.' :: ds, rest.dropWhile fun c => !isMark c)
      | rest => some ([], rest)
    let exponent ← match rest with
      | [] => if places.isEmpty then none else some []
      | '.' :: _ => none
      | _ :: rest => do
        let (sign, ds) := match rest with
          | '-' :: ds => (['-'], ds)
          | '+' :: ds => ([], ds)
          | ds => ([], ds)
        let ds ← dropUnderscores? 10 false ds
        if ds.isEmpty then none
        some ('e' :: (sign ++ ds))
    let n ← Numeral.ofChars? (sign ++ whole ++ places ++ exponent)
    return if n.toDouble.isFinite then .num (.float n.toDouble) else .unreadable

/-- Reads digits of a given number at the start of a text. -/
def digits? (width : Nat) (cs : List Char) : Option (Nat × List Char) :=
  let ds := cs.take width
  if ds.length = width ∧ ds.all Char.isDigit then
    some (Numeral.digitsValue ds, cs.drop width)
  else none

/-- The number of days of a month. -/
def daysOf (year month : Nat) : Nat :=
  if month = 2 then
    if year % 4 = 0 ∧ (year % 100 ≠ 0 ∨ year % 400 = 0) then 29 else 28
  else if month = 4 ∨ month = 6 ∨ month = 9 ∨ month = 11 then 30 else 31

/-- Reads a date at the start of a text. -/
def date? (cs : List Char) : Option (List Char × List Char) := do
  let (year, rest) ← digits? 4 cs
  match rest with
  | '-' :: rest =>
    let (month, rest) ← digits? 2 rest
    match rest with
    | '-' :: rest =>
      let (day, rest) ← digits? 2 rest
      if 1 ≤ month ∧ month ≤ 12 ∧ 1 ≤ day ∧ day ≤ daysOf year month then
        some (cs.take 10, rest)
      else none
    | _ => none
  | _ => none

/-- Reads the fraction of a second at the start of a text, if there is one.  Nine digits count, and
zeros at their end are dropped, but for a single one. -/
def fraction? (cs : List Char) : Option (List Char × List Char) :=
  match cs with
  | '.' :: rest =>
    let ds := rest.takeWhile Char.isDigit
    let kept := ((ds.take 9).reverse.dropWhile (· == '0')).reverse
    if ds.isEmpty then none
    else some ('.' :: (if kept.isEmpty then ['0'] else kept), rest.drop ds.length)
  | _ => some ([], cs)

/-- Reads a time of day at the start of a text; its seconds may be left out. -/
def time? (cs : List Char) : Option (List Char × List Char) := do
  let (hour, rest) ← digits? 2 cs
  match rest with
  | ':' :: rest =>
    let (minute, rest) ← digits? 2 rest
    if 23 < hour ∨ 59 < minute then none
    else match rest with
      | ':' :: rest =>
        let (second, rest) ← digits? 2 rest
        let (fraction, rest) ← fraction? rest
        if 60 < second then none else some (cs.take 8 ++ fraction, rest)
      | rest => some (cs.take 5, rest)
  | _ => none

/-- The text of an offset from universal time; no offset goes east. -/
def offsetText (sign : Char) (hour minute : Nat) (digits : List Char) : List Char :=
  (if hour = 0 ∧ minute = 0 then '+' else sign) :: digits

/-- Reads an offset from universal time at the start of a text, if there is one. -/
def offset? (cs : List Char) : Option (List Char × List Char) :=
  match cs with
  | 'Z' :: rest => some (['Z'], rest)
  | 'z' :: rest => some (['Z'], rest)
  | sign :: rest =>
    if sign = '+' ∨ sign = '-' then do
      let (hour, after) ← digits? 2 rest
      match after with
      | ':' :: after =>
        let (minute, after) ← digits? 2 after
        if hour ≤ 23 ∧ minute ≤ 59 then
          some (offsetText sign hour minute (rest.take 5), after)
        else none
      | _ => none
    else some ([], cs)
  | [] => some ([], [])

/-- Reads a date, a time, or both at the start of a text. -/
def dateTime? (cs : List Char) : Option (Node × List Char) := do
  let (text, rest) ← match date? cs with
    | some (date, sep :: rest) =>
      match (if sep = 'T' ∨ sep = 't' ∨ sep = ' ' then time? rest else none) with
      | some (time, rest) => do
        let (offset, rest) ← offset? rest
        some (date ++ 'T' :: (time ++ offset), rest)
      | none => if sep = 'T' ∨ sep = 't' then none else some (date, sep :: rest)
    | some (date, []) => some (date, [])
    | none => time? cs
  return (.map [(.str dateKey, .str (String.ofList text))], rest)

/-- The characters of numbers and dates. -/
def isWordChar (c : Char) : Bool := isBareKey c || c == '+' || c == '.' || c == ':'

/-- Whether a word starts like a date or a time. -/
def looksDated : List Char → Bool
  | a :: b :: ':' :: _ => a.isDigit && b.isDigit
  | a :: b :: c :: d :: '-' :: _ => [a, b, c, d].all Char.isDigit
  | _ => false

/-- Reads a truth value, a number or a date. -/
def plain? (cs : List Char) : Option (Node × List Char) :=
  let word := cs.takeWhile isWordChar
  let rest := cs.dropWhile isWordChar
  if word = "true".toList then some (.bool true, rest)
  else if word = "false".toList then some (.bool false, rest)
  else if looksDated word then dateTime? cs
  else ((integer? word) <|> (float? word)).map fun n => (n, rest)

end LintConfig.Toml
