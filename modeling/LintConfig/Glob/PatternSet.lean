import LintConfig.Glob.Pattern
import LintConfig.Text.Blank

/-!
# Patterns and pattern sets

Paths and patterns are compared after `normalizePath`: separators are slashes and no path starts
with `./`.  A pattern without a separator is matched against the last component of a path.  A set
of patterns is compiled strictly, where the first malformed pattern is an error, or leniently,
where malformed patterns are set aside.
-/

namespace LintConfig

/-! ### Normal paths -/

/-- Drops every `./` at the start. -/
def dropDotSlash : List Char → List Char
  | '.' :: '/' :: cs => dropDotSlash cs
  | cs => cs

/-- A path with slashes as separators. -/
def withSlashes (cs : List Char) : List Char := cs.map fun c => if c = '\\' then '/' else c

/-- The normal form of the characters of a path. -/
def normalChars (cs : List Char) : List Char := dropDotSlash (withSlashes cs)

/-- The normal form of a path: slashes as separators, and no `./` at the start. -/
def normalizePath (path : String) : String := String.ofList (normalChars path.toList)

/-! ### Patterns -/

/-- A pattern that does not compile. -/
structure MalformedPattern where
  pattern : String
  reason : String
deriving DecidableEq, Repr

/-- A compiled pattern. -/
structure Pattern where
  /-- The pattern as written. -/
  source : String
  tokens : List Glob.Token
  /-- Whether the pattern is matched against the last component only. -/
  byName : Bool
deriving DecidableEq, Repr

namespace Pattern

/-- What is compiled of a pattern: the normal form without surrounding blanks and without
separators at the end, so that `dist/` means `dist`. -/
def body (raw : String) : List Char :=
  Text.dropEndWhile (· == '/') (normalChars (Text.trimChars raw.toList))

/-- Compiles a pattern. -/
def compile (raw : String) : Except Glob.Fault Pattern :=
  let cs := body raw
  if cs.isEmpty then .error .empty
  else (Glob.compile cs).map fun tokens => ⟨raw, tokens, !cs.contains '/'⟩

/-- The characters after the last separator. -/
def lastComponent (cs : List Char) : List Char := (cs.reverse.takeWhile (· != '/')).reverse

/-- Whether a pattern matches a path in normal form. -/
def accepts (p : Pattern) (path : List Char) : Bool :=
  Glob.Token.accepts p.tokens (if p.byName then lastComponent path else path)

end Pattern

/-! ### Sets of patterns -/

/-- Patterns in order, and the malformed ones that were set aside. -/
structure PatternSet where
  patterns : List Pattern
  malformed : List MalformedPattern
deriving Repr, Inhabited

namespace PatternSet

/-- The set without patterns. -/
def empty : PatternSet := ⟨[], []⟩

/-- A pattern together with the reason why it does not compile. -/
def malformedOf (raw : String) (f : Glob.Fault) : MalformedPattern := ⟨raw, f.message⟩

/-- Compiles every pattern; the first malformed one is an error. -/
def compile : List String → Except MalformedPattern PatternSet
  | [] => .ok empty
  | raw :: rest =>
    match Pattern.compile raw with
    | .error f => .error (malformedOf raw f)
    | .ok p => (compile rest).map fun s => ⟨p :: s.patterns, s.malformed⟩

/-- Compiles every pattern and sets malformed ones aside. -/
def compileLenient : List String → PatternSet
  | [] => empty
  | raw :: rest =>
    let s := compileLenient rest
    match Pattern.compile raw with
    | .error f => ⟨s.patterns, malformedOf raw f :: s.malformed⟩
    | .ok p => ⟨p :: s.patterns, s.malformed⟩

/-- The patterns of both sets, those of `s` first. -/
def append (s t : PatternSet) : PatternSet := ⟨s.patterns ++ t.patterns, s.malformed ++ t.malformed⟩

/-- Whether no pattern compiled. -/
def isEmpty (s : PatternSet) : Bool := s.patterns.isEmpty

/-- Whether some pattern matches a path in normal form. -/
def acceptsChars (s : PatternSet) (path : List Char) : Bool := s.patterns.any (·.accepts path)

/-- Whether some pattern matches a path in normal form. -/
def accepts (s : PatternSet) (path : String) : Bool := s.acceptsChars path.toList

/-- The directories above a path: its beginnings that end right before a separator and are not
empty. -/
def ancestors : List Char → List Char → List (List Char)
  | _, [] => []
  | before, c :: cs =>
    if c = '/' ∧ before ≠ [] then before.reverse :: ancestors (c :: before) cs
    else ancestors (c :: before) cs

/-- Whether some pattern matches a path in normal form or a directory above it. -/
def covers (s : PatternSet) (path : String) : Bool :=
  (ancestors [] path.toList).any s.acceptsChars || s.accepts path

end PatternSet

end LintConfig
