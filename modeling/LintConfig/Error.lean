import LintConfig.Text.Blank

/-!
# Errors

Every way in which resolving a configuration can fail, with the text of each.  Errors of single
files are recoverable: other files can still be resolved.  Errors of the inheritance graph, of
reading and of the engine as a whole are not.
-/

namespace LintConfig

/-- Why a file could not be read or written. -/
inductive FileFault where
  | notFound
  | notDirectory
  | isDirectory
  | alreadyExists
  | notUtf8
  /-- Any other fault, with the system's text. -/
  | other (text : String)
deriving DecidableEq, Repr, Inhabited

/-- The text of a fault. -/
def FileFault.message : FileFault → String
  | .notFound => "No such file or directory (os error 2)"
  | .notDirectory => "Not a directory (os error 20)"
  | .isDirectory => "Is a directory (os error 21)"
  | .alreadyExists => "File exists (os error 17)"
  | .notUtf8 => "stream did not contain valid UTF-8"
  | .other text => text

/-- A failure of configuration resolution. -/
inductive Error where
  /-- A reference that no source can locate, and the fragment that makes it. -/
  | unresolvedReference (reference : String) (referrer : Option String)
  /-- Fragments that extend each other in a circle; the first is also the last. -/
  | cyclicInheritance (chain : List String)
  /-- A rule that is not registered or whose plugin is not enabled. -/
  | unknownRule (rule reason : String)
  /-- A severity that is none. -/
  | invalidSeverity (rule value : String)
  /-- Options that do not fit the schema of their rule. -/
  | invalidRuleOptions (rule reason : String)
  /-- A glob pattern that does not compile, and where it was written. -/
  | malformedPattern (pattern : String) (origin : Option String) (reason : String)
  /-- A text that is no document; the detail is absent where the notation gives none. -/
  | parse (identity : String) (detail : Option String)
  /-- A file that could not be read. -/
  | file (path : String) (fault : FileFault)
  /-- The engine has no usable configuration. -/
  | unusable (message : String)
  /-- A failure of the engine itself. -/
  | internal (message : String)
deriving DecidableEq, Repr, Inhabited

namespace Error

/-- Whether parse errors of a document carry a detail: those of JSON documents do, those of
documents whose identity ends like a YAML or TOML file do not. -/
def reportsDetail (identity : String) : Bool :=
  !(identity.endsWith ".yaml" || identity.endsWith ".yml" || identity.endsWith ".toml")

/-- Whether a detail points at a place of the text with an arrow. -/
def pointsAt : List Char → Bool
  | '-' :: '-' :: '>' :: _ => true
  | _ :: cs => pointsAt cs
  | [] => false

/-- A parse error with a detail, where the document's errors carry one; a detail that points at a
place of the text is not reported. -/
def parseDetail (identity detail : String) : Error :=
  .parse identity
    (if reportsDetail identity && !pointsAt detail.toList then some detail else none)

/-- Joins the identities of a chain with arrows. -/
def arrows : List String → String
  | [] => ""
  | [id] => id
  | id :: ids => id ++ " -> " ++ arrows ids

/-- The text of an error. -/
def message : Error → String
  | .unresolvedReference reference none => "Unresolved reference '" ++ reference ++ "'"
  | .unresolvedReference reference (some referrer) =>
    "Unresolved reference '" ++ reference ++ "' (extended from '" ++ referrer ++ "')"
  | .cyclicInheritance chain => "Cyclic inheritance: " ++ arrows chain
  | .unknownRule rule reason => "Unknown rule '" ++ rule ++ "': " ++ reason
  | .invalidSeverity rule value => "Invalid severity '" ++ value ++ "' for rule '" ++ rule ++ "'"
  | .invalidRuleOptions rule reason => "Invalid options for rule '" ++ rule ++ "': " ++ reason
  | .malformedPattern pattern none reason =>
    "Malformed glob pattern '" ++ pattern ++ "': " ++ reason
  | .malformedPattern pattern (some origin) reason =>
    "Malformed glob pattern '" ++ pattern ++ "' in '" ++ origin ++ "': " ++ reason
  | .parse identity none => "Parse error in '" ++ identity ++ "'"
  | .parse identity (some detail) => "Parse error in '" ++ identity ++ "': " ++ detail
  | .file path fault => "IO error for path '" ++ path ++ "': " ++ fault.message
  | .unusable text => "Configuration error: " ++ text
  | .internal text => "Internal error: " ++ text

/-- Whether other files can still be resolved after the error. -/
def isRecoverable : Error → Bool
  | .unknownRule .. => true
  | .invalidSeverity .. => true
  | .invalidRuleOptions .. => true
  | .malformedPattern .. => true
  | _ => false

/-- Names the place where a malformed pattern was written; other errors stay as they are. -/
def withOrigin (origin : String) : Error → Error
  | .malformedPattern pattern _ reason => .malformedPattern pattern (some origin) reason
  | e => e

end Error

/-- Passes values on, turns recoverable errors into nothing, and keeps the other errors. -/
def Error.recover {α : Type} : Except Error α → Except Error (Option α)
  | .ok a => .ok (some a)
  | .error e => if e.isRecoverable then .ok none else .error e

end LintConfig
