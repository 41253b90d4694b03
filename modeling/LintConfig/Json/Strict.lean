import LintConfig.Node

/-!
# Strict JSON texts

A reader of JSON texts without comments, trailing commas or other liberties.  It accepts a text
by its grammar alone.  Three kinds of parts are well formed and still have no value: numbers
beyond the range of doubles, texts with half a surrogate pair, and containers nested more than
`depthLimit` deep; they become unreadable nodes, so that a decoder that skips them can go on.
-/

namespace LintConfig.Json.Strict

/-- Greatest number of containers around a value, itself included. -/
def depthLimit : Nat := 127

/-- Drops white space. -/
def skipSpace : List Char → List Char
  | ' ' :: cs => skipSpace cs
  | '\n' :: cs => skipSpace cs
  | '\r' :: cs => skipSpace cs
  | '\t' :: cs => skipSpace cs
  | cs => cs

/-- Drops a given beginning. -/
def expect? : List Char → List Char → Option (List Char)
  | [], cs => some cs
  | _ :: _, [] => none
  | p :: ps, c :: cs => if p = c then expect? ps cs else none

/-! ### Strings -/

/-- A part of a string: a character, or half a surrogate pair. -/
inductive Piece where
  | char (c : Char)
  | half (unit : Nat)

/-- The number of four hexadecimal digits. -/
def hexUnit? (a b c d : Char) : Option Nat := Yaml.natIn? 16 [a, b, c, d]

/-- The part that a numeric escape stands for. -/
def pieceOfUnit (n : Nat) : Piece :=
  if 0xD800 ≤ n ∧ n ≤ 0xDFFF then .half n else .char (Char.ofNat n)

/-- The character of a one-letter escape. -/
def escaped? : Char → Option Char
  | '"' => some '"'
  | '\\' => some '\\'
  | '/' => some '/'
  | 'b' => some '\x08'
  | 'f' => some '\x0c'
  | 'n' => some '\n'
  | 'r' => some '\r'
  | 't' => some '\t'
  | _ => none

/-- Reads the parts of a string up to its closing quote. -/
def pieces? : List Char → Option (List Piece × List Char)
  | [] => none
  | '"' :: cs => some ([], cs)
  | '\\' :: 'u' :: a :: b :: c :: d :: cs => do
    let unit ← hexUnit? a b c d
    let (ps, rest) ← pieces? cs
    return (pieceOfUnit unit :: ps, rest)
  | '\\' :: e :: cs => do
    let c ← escaped? e
    let (ps, rest) ← pieces? cs
    return (.char c :: ps, rest)
  | c :: cs => do
    if c.toNat < 0x20 then none
    let (ps, rest) ← pieces? cs
    return (.char c :: ps, rest)

/-- Joins surrogate pairs; a half without its other half makes the string unreadable. -/
def joinPieces? : List Piece → Option (List Char)
  | [] => some []
  | .char c :: ps => do return c :: (← joinPieces? ps)
  | .half hi :: .half lo :: ps =>
    if hi < 0xDC00 ∧ 0xDC00 ≤ lo then do
      return Char.ofNat (0x10000 + (hi - 0xD800) * 0x400 + (lo - 0xDC00)) :: (← joinPieces? ps)
    else none
  | .half _ :: _ => none

/-- The node of a string. -/
def stringNode (ps : List Piece) : Node :=
  match joinPieces? ps with
  | some cs => .str (String.ofList cs)
  | none => .unreadable

/-! ### Numbers -/

/-- The number of a numeral without point and exponent; out of range, the closest double. -/
def integerNode (negative : Bool) (n : Nat) : Node :=
  let v : Int := if negative then -n else n
  if negative && n == 0 then .num (.float (Double.zero true))
  else if Number.minInt ≤ v ∧ v ≤ Number.maxInt then .num (.int v)
  else
    let d := Double.ofDecimal negative n 0
    if d.isFinite then .num (.float d) else .unreadable

/-- The number of any other numeral. -/
def floatNode (n : Numeral) : Node :=
  if n.toDouble.isFinite then .num (.float n.toDouble) else .unreadable

/-- The node of a numeral: its sign, its digits in front of the point, those behind it if there is
one, and its exponent if there is one. -/
def numeralNode (negative : Bool) (whole : List Char) :
    Option (List Char) → Option Int → Node
  | none, none => integerNode negative (Numeral.digitsValue whole)
  | places, power =>
    let ds := places.getD []
    floatNode ⟨negative, Numeral.digitsValue (whole ++ ds), power.getD 0 - ds.length⟩

/-- The optional minus at the start of a numeral. -/
def spanMinus : List Char → Bool × List Char
  | '-' :: cs => (true, cs)
  | cs => (false, cs)

/-- The digits behind a point, if there is a point; then there has to be a digit. -/
def places? : List Char → Option (Option (List Char) × List Char)
  | '.' :: cs => match Numeral.spanDigits cs with
    | ([], _) => none
    | (ds, rest) => some (some ds, rest)
  | cs => some (none, cs)

/-- The exponent, if there is a mark of one; then there has to be one. -/
def power? : List Char → Option (Option Int × List Char)
  | c :: cs =>
    if c = 'e' ∨ c = 'E' then (Numeral.exponent? (c :: cs)).map fun r => (some r.1, r.2)
    else some (none, c :: cs)
  | [] => some (none, [])

/-- Reads a number. -/
def number? (cs : List Char) : Option (Node × List Char) :=
  let (negative, cs) := spanMinus cs
  match Numeral.spanDigits cs with
  | ([], _) => none
  | ('0' :: _ :: _, _) => none
  | (whole, cs) => do
    let (places, cs) ← places? cs
    let (power, rest) ← power? cs
    return (numeralNode negative whole places power, rest)

/-! ### Values -/

/-- The node of an object; a name that cannot be read makes the object unreadable. -/
def objectNode (entries : List (Node × Node)) : Node :=
  if entries.all fun e => e.1.keyText?.isSome then .map entries else .unreadable

/-- The node of a container where `depth` containers may be opened. -/
def nested (depth : Nat) (n : Node) : Node := if depth = 0 then .unreadable else n

mutual

/-- Reads a value; `depth` more containers may be opened around readable values. -/
def value? : Nat → Nat → List Char → Option (Node × List Char)
  | 0, _, _ => none
  | fuel + 1, depth, cs =>
    match skipSpace cs with
    | '"' :: cs => (pieces? cs).map fun r => (stringNode r.1, r.2)
    | 't' :: cs => (expect? ['r', 'u', 'e'] cs).map fun rest => (.bool true, rest)
    | 'f' :: cs => (expect? ['a', 'l', 's', 'e'] cs).map fun rest => (.bool false, rest)
    | 'n' :: cs => (expect? ['u', 'l', 'l'] cs).map fun rest => (.null, rest)
    | '[' :: cs => match skipSpace cs with
      | ']' :: rest => some (nested depth (.seq []), rest)
      | cs => (items? fuel (depth - 1) cs).map fun r => (nested depth (.seq r.1), r.2)
    | '\x7b' :: cs => match skipSpace cs with
      | '\x7d' :: rest => some (nested depth (objectNode []), rest)
      | cs => (members? fuel (depth - 1) cs).map fun r => (nested depth (objectNode r.1), r.2)
    | cs => number? cs

/-- Reads the items of an array up to its closing bracket. -/
def items? : Nat → Nat → List Char → Option (List Node × List Char)
  | 0, _, _ => none
  | fuel + 1, depth, cs => do
    let (item, cs) ← value? fuel depth cs
    match skipSpace cs with
    | ',' :: cs =>
      let (items, rest) ← items? fuel depth cs
      return (item :: items, rest)
    | ']' :: rest => return ([item], rest)
    | _ => none

/-- Reads the members of an object up to its closing brace. -/
def members? : Nat → Nat → List Char → Option (List (Node × Node) × List Char)
  | 0, _, _ => none
  | fuel + 1, depth, cs => do
    match skipSpace cs with
    | '"' :: cs =>
      let (ps, cs) ← pieces? cs
      match skipSpace cs with
      | ':' :: cs =>
        let (value, cs) ← value? fuel depth cs
        match skipSpace cs with
        | ',' :: cs =>
          let (entries, rest) ← members? fuel depth cs
          return ((stringNode ps, value) :: entries, rest)
        | '\x7d' :: rest => return ([(stringNode ps, value)], rest)
        | _ => none
      | _ => none
    | _ => none

end

/-- Reads a whole text as one JSON value. -/
def node? (text : String) : Option Node := do
  let cs := text.toList
  let (n, rest) ← value? (cs.length + 1) depthLimit cs
  match skipSpace rest with
  | [] => some n
  | _ :: _ => none

end LintConfig.Json.Strict

namespace LintConfig.Json

/-- Reads a whole text as one JSON value all of whose parts can be read. -/
def read? (text : String) : Option Json := do
  let n ← Strict.node? text
  let j ← n.json?
  return j.collapse

end LintConfig.Json
