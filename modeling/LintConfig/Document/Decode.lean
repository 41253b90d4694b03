import LintConfig.Document

/-!
# Reading documents

The records `OverrideBlock.record` and `Document.record` say how the fields of an override block and
of a document are read.  A document skips fields that it does not know; an override block refuses
them and has to have `files`.
-/

namespace LintConfig

open Decode

/-- Reads a text or a list of texts. -/
def OneOrMany.decode : Decoder OneOrMany := fun n =>
  match Setting.ofNode? n with
  | some (.str s) => .ok (.one s)
  | some (.list items) =>
    match items.mapM Setting.str? with
    | some ss => .ok (.many ss)
    | none => .error (.noAlternative .oneOrMany)
  | _ => .error (.noAlternative .oneOrMany)

/-- Reads settings. -/
def Settings.decode : Decoder Settings := table setting

/-- Reads a rule map. -/
def RuleMap.decode : Decoder RuleMap := table RuleEntry.decode

/-- How an override block is read. -/
def OverrideBlock.record : Record OverrideBlock where
  name := .overrideBlock
  fields := ["files", "excludedFiles", "plugins", "rules", "settings", "env", "globals", "parser",
    "parserOptions"]
  skipsUnknown := false
  required := ["files"]
  blank := {}
  read
    | "files", n, b => return { b with files := ← OneOrMany.decode n }
    | "excludedFiles", n, b => return { b with excludedFiles := ← optional OneOrMany.decode n }
    | "plugins", n, b => return { b with plugins := ← list string n }
    | "rules", n, b => return { b with rules := ← RuleMap.decode n }
    | "settings", n, b => return { b with settings := ← Settings.decode n }
    | "env", n, b => return { b with env := ← table boolean n }
    | "globals", n, b => return { b with globals := ← Settings.decode n }
    | "parser", n, b => return { b with parser := ← optional string n }
    | "parserOptions", n, b => return { b with parserOptions := ← Settings.decode n }
    | _, _, b => return b

/-- How a document is read. -/
def Document.record (shape : Shape) : Record Document where
  name := .document
  fields := ["extends", "plugins", "rules", "settings", "env", "globals", "parser",
    "parserOptions", "ignorePatterns", "overrides"]
  skipsUnknown := true
  required := []
  blank := {}
  read
    | "extends", n, d => return { d with bases := ← OneOrMany.decode n }
    | "plugins", n, d => return { d with plugins := ← list string n }
    | "rules", n, d => return { d with rules := ← RuleMap.decode n }
    | "settings", n, d => return { d with settings := ← Settings.decode n }
    | "env", n, d => return { d with env := ← table boolean n }
    | "globals", n, d => return { d with globals := ← Settings.decode n }
    | "parser", n, d => return { d with parser := ← optional string n }
    | "parserOptions", n, d => return { d with parserOptions := ← Settings.decode n }
    | "ignorePatterns", n, d => return { d with ignorePatterns := ← list string n }
    | "overrides", n, d =>
      return { d with overrides := ← list (OverrideBlock.record.decode shape) n }
    | _, _, d => return d

/-- Reads a document. -/
def Document.decode (shape : Shape) : Decoder Document := (Document.record shape).decode shape

/-- Reads a document from a JSON value. -/
def Document.ofJson (j : Json) : Result Document := Document.decode .liberal (.ofJson j)

end LintConfig
