import LintConfig.Decode.Basic
import LintConfig.Document.Decode
import LintConfig.Error
import LintConfig.Files.Tree
import LintConfig.Json.Relaxed
import LintConfig.Json.Strict
import LintConfig.Toml.Reader
import LintConfig.Yaml.Reader

/-!
# Notations

The name of a file says which notation its text is in.  A text without a YAML or TOML extension is
JSON: it is read strictly first, and if that fails for any reason once more as JSON with comments
and other liberties.  The second reading makes integers of whole doubles, and its error counts.
-/

namespace LintConfig

open Decode

/-- How the text of a file is written. -/
inductive Notation where
  | json
  | yaml
  | toml
deriving DecidableEq, Repr

namespace Notation

/-- The notation of a file, by its extension. -/
def ofPath (path : String) : Notation :=
  match Path.extension? path with
  | some "yaml" => .yaml
  | some "yml" => .yaml
  | some "toml" => .toml
  | _ => .json

/-- The value of a relaxed JSON text, with integers for whole doubles. -/
def relaxed (path text : String) : Except Error Json :=
  match Json.Relaxed.read text with
  | .ok j => .ok j.wholeNumbers
  | .error fault => .error (match fault.message? with
    | some detail => .parseDetail path detail
    | none => .parse path none)

/-- Decodes a JSON value that was read from a file. -/
def decodeJson {α : Type} (decoder : Decoder α) (path : String) (j : Json) : Except Error α :=
  (decoder (.ofJson j)).mapError fun fault => .parseDetail path fault.message

/-- What a JSON text is read as strictly. -/
def strict? {α : Type} (decoder : Decoder α) (text : String) : Option α :=
  (Json.Strict.node? text).bind fun n => (decoder n).toOption

/-- What a JSON text is read as with liberties. -/
def lenient {α : Type} (decoder : Decoder α) (path text : String) : Except Error α :=
  (relaxed path text).bind (decodeJson decoder path)

/-- Reads a JSON text: strictly, or else with liberties. -/
def readJson {α : Type} (decoder : Decoder α) (path text : String) : Except Error α :=
  match strict? decoder text with
  | some a => .ok a
  | none => lenient decoder path text

/-- Reads what a reader of another notation makes of a text. -/
def readNode {α : Type} (decoder : Decoder α) (path : String) (node : Option Node) :
    Except Error α :=
  match node.bind fun n => (decoder n).toOption with
  | some a => .ok a
  | none => .error (.parse path none)

/-- Reads the text of a file. -/
def read {α : Type} (decode : Shape → Decoder α) (path text : String) : Except Error α :=
  match ofPath path with
  | .json => readJson (decode .liberal) path text
  | .yaml => readNode (decode .plain) path (Yaml.read? text)
  | .toml => readNode (decode .liberal) path (Toml.read? text)

/-- Reads a file. -/
def load {α : Type} (files : Files.Tree) (decode : Shape → Decoder α) (path : String) :
    Except Error α :=
  match files.read path with
  | .ok text => read decode path text
  | .error fault => .error (.file path fault)

/-- Reads a JSON text as a value: strictly, or else with liberties. -/
def readValue (path text : String) : Except Error Json :=
  match Json.read? text with
  | some j => .ok j
  | none => relaxed path text

end Notation

/-- The field of a package description that holds its configuration. -/
def packageField : String := "eslintConfig"

/-- Reads the document of a file.  A file named `package.json` holds it in a field. -/
def Document.ofText (path text : String) : Except Error Document :=
  if Path.fileName? path = some "package.json" then
    (Notation.readValue path text).bind fun j =>
      match j.member? packageField with
      | some config => Notation.decodeJson (Document.decode .liberal) path config
      | none => .error (.parseDetail path ("no `" ++ packageField ++ "` field"))
  else Notation.read Document.decode path text

end LintConfig
