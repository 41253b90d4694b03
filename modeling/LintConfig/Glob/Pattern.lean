/-!
# Glob patterns

A pattern is compiled to tokens and matched against a whole path.  Stars, question marks and
character classes never match a separator; `**` stands alone between separators and matches any
number of whole components.  `Token.read` compiles one character at a time, `Token.run` matches
by backtracking and gives up for good where a token meets the end of the path.
-/

namespace LintConfig.Glob

/-- A member of a character class. -/
inductive Member where
  | single (c : Char)
  | range (low high : Char)
deriving DecidableEq, Repr

/-- An element of a compiled pattern. -/
inductive Token where
  /-- A character that stands for itself. -/
  | literal (c : Char)
  /-- `?`: one character. -/
  | anyOne
  /-- `*`: any characters. -/
  | anyName
  /-- `**`: any components. -/
  | anyDepth
  /-- `[…]`, or with `negated` `[!…]`: one character in, or not in, the class. -/
  | oneOf (negated : Bool) (members : List Member)
deriving DecidableEq, Repr

/-- Why a pattern does not compile. -/
inductive Fault where
  | empty
  /-- Three stars or more in a row. -/
  | tooManyStars
  /-- Two stars beside something else than a separator. -/
  | partialComponent
  /-- A character class without members or without end. -/
  | openClass
deriving DecidableEq, Repr

/-- The text of a fault. -/
def Fault.message : Fault → String
  | .empty => "empty pattern"
  | .tooManyStars => "wildcards are either regular `*` or recursive `**`"
  | .partialComponent => "recursive wildcards must form a single path component"
  | .openClass => "invalid range pattern"

/-! ### Compiling -/

/-- The members of a class from the characters between its brackets. -/
def membersOf : List Char → List Member
  | a :: '-' :: b :: cs => .range a b :: membersOf cs
  | c :: cs => .single c :: membersOf cs
  | [] => []

/-- Where the compiler is. -/
inductive Place where
  /-- Between tokens, after the character `last`. -/
  | between (last : Option Char)
  /-- Right after an opening bracket. -/
  | opened
  /-- In a class, with the characters read so far, latest first. -/
  | inClass (negated : Bool) (chars : List Char)

/-- Adds `**` after the tokens so far, latest first; one directly after another is dropped, unless
the other one is the only token. -/
def pushDepth : List Token → List Token
  | .anyDepth :: t :: ts => .anyDepth :: t :: ts
  | ts => .anyDepth :: ts

/-- Whether `**` may stand after the character `last`. -/
def startsComponent (last : Option Char) : Bool := last.all (· == '/')

/-- Compiles characters, with the tokens so far, latest first. -/
def Token.read : Place → List Token → List Char → Except Fault (List Token)
  | .between _, ts, [] => .ok ts.reverse
  | .between last, ts, c :: cs =>
    if c = '?' then read (.between '?') (.anyOne :: ts) cs
    else if c = '[' then read .opened ts cs
    else if c = '*' then
      match cs with
      | '*' :: '*' :: _ => .error .tooManyStars
      | ['*'] =>
        if startsComponent last then .ok (pushDepth ts).reverse else .error .partialComponent
      | '*' :: '/' :: cs =>
        if startsComponent last then read (.between '/') (pushDepth ts) cs
        else .error .partialComponent
      | '*' :: _ => .error .partialComponent
      | cs => read (.between '*') (.anyName :: ts) cs
    else read (.between c) (.literal c :: ts) cs
  | .opened, ts, c :: cs =>
    if c = '!' then read (.inClass true []) ts cs else read (.inClass false [c]) ts cs
  | .inClass negated chars, ts, c :: cs =>
    if c = ']' ∧ chars ≠ [] then
      read (.between ']') (.oneOf negated (membersOf chars.reverse) :: ts) cs
    else read (.inClass negated (c :: chars)) ts cs
  | .opened, _, [] => .error .openClass
  | .inClass _ _, _, [] => .error .openClass

/-- Compiles a text. -/
def compile (cs : List Char) : Except Fault (List Token) := Token.read (.between none) [] cs

/-! ### Matching -/

/-- The outcome of an attempt. -/
inductive Verdict where
  | matched
  /-- No match from here; another way may still lead to one. -/
  | mismatch
  /-- The path ended too early, which no other way mends. -/
  | exhausted
deriving DecidableEq, Repr

/-- Whether a class has a character. -/
def Member.has (c : Char) : Member → Bool
  | .single d => c == d
  | .range low high => low.toNat ≤ c.toNat && c.toNat ≤ high.toNat

/-- Whether a token for one character takes a character. -/
def Token.takes (c : Char) : Token → Bool
  | .literal d => c == d
  | .anyOne => c != '/'
  | .oneOf negated members => c != '/' && (members.any (Member.has c) != negated)
  | .anyName => false
  | .anyDepth => false

/-- Tries the rest of a pattern at every position up to the next separator. -/
def withinComponent (rest : List Char → Verdict) : List Char → Verdict
  | [] => rest []
  | c :: cs =>
    match rest (c :: cs) with
    | .mismatch => if c = '/' then .mismatch else withinComponent rest cs
    | v => v

/-- Tries the rest of a pattern at the start of every component and at the end. -/
def acrossComponents (rest : List Char → Verdict) : Bool → List Char → Verdict
  | _, [] => rest []
  | true, c :: cs =>
    match rest (c :: cs) with
    | .mismatch => acrossComponents rest (c == '/') cs
    | v => v
  | false, c :: cs => acrossComponents rest (c == '/') cs

/-- Matches tokens against a path. -/
def Token.run : List Token → List Char → Verdict
  | [], [] => .matched
  | [], _ :: _ => .mismatch
  | .anyName :: ts, cs => withinComponent (run ts) cs
  | .anyDepth :: ts, cs => acrossComponents (run ts) true cs
  | _ :: _, [] => .exhausted
  | t :: ts, c :: cs => if t.takes c then run ts cs else .mismatch

/-- Whether tokens match a whole path. -/
def Token.accepts (ts : List Token) (path : List Char) : Bool := run ts path == .matched

end LintConfig.Glob
