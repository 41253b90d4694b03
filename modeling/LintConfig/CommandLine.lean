import LintConfig.CommandLine.Arguments
import LintConfig.Engine
import LintConfig.Json.Text

/-!
# The command line

`CommandLine.run` carries a command out on a file tree and gives what it prints, its exit code and
the tree afterwards.  Configurations are read from the directory of the configuration file, against
the plugins of the given manifests; without a root directory of its own an engine sees paths from
that directory.
-/

namespace LintConfig.CommandLine

/-- The name and version of the program. -/
def versionText : String := "cascade-devtools 0.1.0"

/-- A short account of the commands. -/
def helpText : String :=
  "Usage: cascade-devtools <COMMAND>\n\nCommands:\n" ++
  "  schema        Write the JSON Schema of one kind of files\n" ++
  "  schema-all    Write every JSON Schema into a directory\n" ++
  "  print-config  Print the resolved configuration of a file\n" ++
  "  validate      Check every rule entry and override pattern of a configuration\n"

/-- What a command has done. -/
structure Outcome where
  code : Nat
  out : String
  err : String
  files : Files.Tree

/-! ### Failures -/

/-- Why a command fails. -/
inductive Failure where
  | plain (text : String)
  /-- A fault of a file. -/
  | fault (context : Option String) (f : FileFault)
  | error (context : Option String) (e : Error)

namespace Failure

/-- The causes of an error beside its text. -/
def causesOf : Error → List String
  | .file _ f => [f.message]
  | _ => []

/-- The texts of a failure, from the outermost to the innermost. -/
def texts : Failure → List String
  | .plain text => [text]
  | .fault context f => context.toList ++ [f.message]
  | .error context e => context.toList ++ e.message :: causesOf e

/-- Whether a detail would follow the text of a failure that its notation does not give. -/
def lacksDetail : Failure → Bool
  | .error _ (.parse _ none) => true
  | _ => false

/-- A text with a mark before its first line and as many spaces before each other line. -/
def indented (mark text : String) : String :=
  let margin := String.ofList ('\n' :: List.replicate mark.length ' ')
  mark ++ margin.intercalate (text.splitOn "\n")

/-- Causes with numbers before them. -/
def numbered : Nat → List String → String
  | _, [] => ""
  | n, text :: texts =>
    "\n" ++ indented ("    " ++ toString n ++ ": ") text ++ numbered (n + 1) texts

/-- The causes of a report: a single one without a number. -/
def causes : List String → String
  | [] => ""
  | [text] => "\n\nCaused by:\n" ++ indented "    " text
  | texts => "\n\nCaused by:" ++ numbered 0 texts

/-- What is printed of a failure; a text that lacks its detail ends the report. -/
def report (f : Failure) : String :=
  match f.texts with
  | [] => ""
  | text :: texts => "Error: " ++ text ++ causes texts ++ (if f.lacksDetail then "" else "\n")

end Failure

/-- The outcome of a command that fails. -/
def failed (files : Files.Tree) (out err : String) (f : Failure) : Outcome :=
  ⟨1, out, err ++ f.report, files⟩

/-! ### Inspecting configurations -/

/-- Loads the manifests of plugins, in order. -/
def loadManifests (files : Files.Tree) : List String → Except Failure (List Manifest)
  | [] => .ok []
  | path :: paths => do
    let m ← (Notation.load files Manifest.decode path).mapError fun e =>
      Failure.error (some ("loading manifest " ++ path)) e
    return m :: (← loadManifests files paths)

/-- Loads engine options, if a file is given for them. -/
def loadOptions (files : Files.Tree) : Option String → Except Failure EngineOptions
  | none => .ok {}
  | some path => (Notation.load files EngineOptions.decode path).mapError fun e =>
    Failure.error (some ("loading options " ++ path)) e

/-- The directory of a configuration file. -/
def baseDirectory (config : String) : String :=
  match Path.parent? config with
  | some "" => "."
  | some parent => parent
  | none => "."

/-- The engine of a setup. -/
def Setup.engine (files : Files.Tree) (s : Setup) : Except Failure Engine := do
  let manifests ← loadManifests files s.plugins
  let options ← loadOptions files s.options
  let base := baseDirectory s.config
  let rootDir ← match options.rootDir with
    | some root => Except.ok root
    | none => (files.canonical base).mapError fun f => .fault (some ("resolving " ++ base)) f
  match Path.fileName? s.config with
  | none => .error (.plain "configuration path has no file name")
  | some root =>
    (Engine.start root ⟨[.directory base], files⟩ (.ofManifests manifests)
      { options with rootDir := some rootDir }).mapError (.error none)

/-- The configuration of a path, laid out. -/
def Setup.printed (files : Files.Tree) (s : Setup) (path : String) : Except Failure String := do
  let e ← s.engine files
  let r ← (e.resolve path).1.mapError (Failure.error none)
  return r.toJson.pretty ++ "\n"

/-- Carries out a check: every error is printed, and a line that counts them. -/
def validated (files : Files.Tree) (s : Setup) : Outcome :=
  match s.engine files with
  | .error f => failed files "" "" f
  | .ok e =>
    match e.validate with
    | [] => ⟨0, "✓ Configuration is valid\n", "", files⟩
    | problems =>
      let listing := String.join (problems.map fun p => "✗ " ++ p.message ++ "\n")
      failed files "" listing (.plain (toString problems.length ++ " problem(s) found"))

/-! ### Writing schemas -/

/-- Writes a schema and makes the directories above it where they are missing. -/
def writeSchema (files : Files.Tree) (kind : Schema.Kind) (output : String) :
    Except FileFault Files.Tree := do
  (← files.ensureParents output).write output (some (Schema.ofKind kind).pretty)

/-- Writes schemas one after the other; `out` is what was printed before. -/
def writeSchemas (files : Files.Tree) (out : String) : List (Schema.Kind × String) → Outcome
  | [] => ⟨0, out, "", files⟩
  | (kind, output) :: rest =>
    match writeSchema files kind output with
    | .error f => failed files out "" (.fault none f)
    | .ok files =>
      writeSchemas files (out ++ "✓ Generated JSON Schema: " ++ output ++ "\n") rest

/-! ### Commands -/

/-- Carries out a command. -/
def execute (files : Files.Tree) : Command → Outcome
  | .schema kind output => writeSchemas files "" [(kind, output)]
  | .schemaAll directory =>
    writeSchemas files "" (Schema.Kind.all.map fun k => (k, Path.join directory k.fileName))
  | .printConfig setup path =>
    match setup.printed files path with
    | .ok text => ⟨0, text, "", files⟩
    | .error f => failed files "" "" f
  | .validate setup => validated files setup

/-- Carries out a command line. -/
def run (files : Files.Tree) (args : List String) : Outcome :=
  match read args with
  | .ok command => execute files command
  | .error .version => ⟨0, versionText ++ "\n", "", files⟩
  | .error .help => ⟨0, helpText, "", files⟩
  | .error .usage => ⟨2, "", helpText, files⟩

end LintConfig.CommandLine
