import LintConfig.Json
import LintConfig.Text.Blank

/-!
# Severities

A document writes a severity as a word or as a number; `RawSeverity` keeps what was written, and
`Severity.ofRaw?` says which severity it means, if any.
-/

namespace LintConfig

/-- How a rule is reported. -/
inductive Severity where
  | off
  | warn
  | error
deriving DecidableEq, Repr, Inhabited

/-- A severity as written in a document. -/
inductive RawSeverity where
  | code (n : Number)
  | word (s : String)
deriving DecidableEq, Repr, Inhabited

namespace RawSeverity

/-- What was written. -/
def text : RawSeverity → String
  | .code n => n.text
  | .word s => s

/-- The written form. -/
def toJson : RawSeverity → Json
  | .code n => .num n
  | .word s => .str s

end RawSeverity

namespace Severity

/-- The word for a severity. -/
def word : Severity → String
  | .off => "off"
  | .warn => "warn"
  | .error => "error"

/-- Every severity, in order. -/
def all : List Severity := [.off, .warn, .error]

/-- The severity of a word. -/
def ofWord? (s : String) : Option Severity := all.find? fun v => v.word == s

/-- Whether a rule of this severity runs. -/
def isEnabled (s : Severity) : Bool := s != .off

/-- The severity that was meant: a word in any ASCII case, blanks around it aside, or a whole
number from 0 to 2. -/
def ofRaw? : RawSeverity → Option Severity
  | .word s => ofWord? (Text.asciiLower (Text.trim s))
  | .code n => match n.whole? with
    | some 0 => some .off
    | some 1 => some .warn
    | some 2 => some .error
    | _ => none

/-- The written form. -/
def toJson (s : Severity) : Json := .str s.word

end Severity

end LintConfig
