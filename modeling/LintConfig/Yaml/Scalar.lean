import LintConfig.Number

/-!
# Scalars that keep their spelling

A scalar of a YAML text is a spelling with a style and perhaps a tag.  What value it stands for
depends on who reads it: a reader of texts takes the spelling as it is, a reader of settings asks
`Scalar.atom?`, which resolves bare spellings by the core schema.
-/

namespace LintConfig

/-- A value without parts. -/
inductive Atom where
  | null
  | bool (b : Bool)
  | num (n : Number)
  | str (s : String)
deriving DecidableEq, Repr

namespace Yaml

/-- How a scalar is written. -/
inductive Style where
  /-- Without quotes. -/
  | bare
  /-- As a literal block. -/
  | literal
  /-- Between quotes, or as a folded block. -/
  | quoted
deriving DecidableEq, Repr

/-- What a tag asks for. -/
inductive Tag where
  | null
  | bool
  | int
  | float
  /-- Any other global tag: the scalar is a text. -/
  | text
  /-- An application's own tag: a variant's name, which no other value here has. -/
  | own (name : String)
deriving DecidableEq, Repr

/-- A scalar as it is written. -/
structure Scalar where
  text : String
  style : Style
  tag : Option Tag
deriving DecidableEq, Repr

/-- The spellings of null. -/
def isNull (s : String) : Bool := s == "~" || s == "null" || s == "Null" || s == "NULL"

/-- The spellings of truth values. -/
def bool? (s : String) : Option Bool :=
  if s == "true" || s == "True" || s == "TRUE" then some true
  else if s == "false" || s == "False" || s == "FALSE" then some false
  else none

/-- The value of a digit in a base of at most sixteen. -/
def digit? (base : Nat) (c : Char) : Option Nat :=
  let d :=
    if c.isDigit then c.toNat - '0'.toNat
    else if 'a' ≤ c ∧ c ≤ 'f' then c.toNat - 'a'.toNat + 10
    else if 'A' ≤ c ∧ c ≤ 'F' then c.toNat - 'A'.toNat + 10
    else 16
  if d < base then some d else none

/-- Reads a whole text as a number in a base; at least one digit. -/
def natIn? (base : Nat) : List Char → Option Nat
  | [] => none
  | c :: cs => (c :: cs).foldl (fun acc c => do return base * (← acc) + (← digit? base c)) (some 0)

/-- Reads a whole text as a number with an optional base mark. -/
def magnitude? : List Char → Option Nat
  | '0' :: 'x' :: cs => natIn? 16 cs
  | '0' :: 'o' :: cs => natIn? 8 cs
  | '0' :: 'b' :: cs => natIn? 2 cs
  | ['0'] => some 0
  | '0' :: _ => none
  | cs => natIn? 10 cs

/-- Reads a whole text as an integer of any size.  A leading zero makes it a text. -/
def int? : List Char → Option Int
  | '+' :: cs => (magnitude? cs).map Int.ofNat
  | '-' :: cs => (magnitude? cs).map fun n => -(n : Int)
  | cs => (magnitude? cs).map Int.ofNat

/-- Whether a text is an optional sign and a zero followed by digits only. -/
def hasLeadingZero (cs : List Char) : Bool :=
  let cs := match cs with
    | '-' :: cs => cs
    | '+' :: cs => cs
    | cs => cs
  match cs with
  | '0' :: c :: cs => (c :: cs).all Char.isDigit
  | _ => false

/-- The spellings of infinities and of the number that is none. -/
def isNonFinite (s : String) : Bool :=
  [".inf", ".Inf", ".INF", "+.inf", "+.Inf", "+.INF", "-.inf", "-.Inf", "-.INF", ".nan", ".NaN",
    ".NAN"].contains s

/-- Reads a whole text as a finite double. -/
def float? (s : String) : Option Double :=
  match Numeral.ofChars? s.toList with
  | some n => if n.toDouble.isFinite then some n.toDouble else none
  | none => none

/-- An integer as a number, if there is a number for it. -/
def numberOfInt? (n : Int) : Option Number :=
  if Number.minInt ≤ n ∧ n ≤ Number.maxInt then some (.int n) else none

/-- Whether an integer is held as one although no number stands for it. -/
def isWideInt (n : Int) : Bool := -Int.pow 2 127 ≤ n && n < Int.pow 2 128

/-- The value of a bare spelling: null, truth value, number or text.  Infinities and integers out
of range have none. -/
def bareAtom? (s : String) : Option Atom :=
  if s.isEmpty || isNull s then some .null
  else match bool? s with
    | some b => some (.bool b)
    | none =>
      match (int? s.toList).filter isWideInt with
      | some n => (numberOfInt? n).map .num
      | none =>
        if hasLeadingZero s.toList then some (.str s)
        else if isNonFinite s then none
        else match float? s with
          | some d => some (.num (.float d))
          | none => some (.str s)

namespace Scalar

/-- The value for a reader that takes any kind of value. -/
def atom? (s : Scalar) : Option Atom :=
  match s.tag with
  | none => if s.style = .bare then bareAtom? s.text else some (.str s.text)
  | some .null => if isNull s.text then some .null else none
  | some .bool => (bool? s.text).map .bool
  | some .int => ((int? s.text.toList).bind numberOfInt?).map .num
  | some .float => if isNonFinite s.text then none else (float? s.text).map fun d => .num (.float d)
  | some .text => some (.str s.text)
  | some (.own _) => none

/-- The value for a reader of texts: any spelling. -/
def asText (s : Scalar) : String := s.text

/-- The word for a reader of variants: the spelling, or an own tag of an empty spelling; `none` is a
refusal. -/
def variantWord? (s : Scalar) : Option String :=
  match s.tag with
  | some (.own name) => if s.text.isEmpty then some name else none
  | _ => some s.text

/-- The value for a reader of truth values, which asks for a bare spelling. -/
def asBool? (s : Scalar) : Option Bool :=
  if s.style = .bare ∨ (s.style = .literal ∧ s.tag = some .bool) then bool? s.text else none

/-- The value for a reader of integers, which asks for a bare spelling. -/
def asInt? (s : Scalar) : Option Int :=
  if s.style = .bare ∨ (s.style = .literal ∧ s.tag = some .int) then int? s.text.toList else none

/-- Whether a reader of an optional value finds none; `none` itself is a refusal. -/
def isAbsent? (s : Scalar) : Option Bool :=
  if s.style ≠ .bare then some false
  else match s.tag with
    | some .null => if isNull s.text then some true else none
    | some _ => some false
    | none => some (s.text.isEmpty || isNull s.text)

/-- Whether the scalar is an empty spelling, which also stands for an empty container. -/
def isEmpty (s : Scalar) : Bool := s.style = .bare && s.text.isEmpty

end Scalar

end Yaml

end LintConfig
