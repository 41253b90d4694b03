import LintConfig.CommandLine

/-!
# Files that a command looks at

A command sees a part of the file tree: the files that it names, the directories above those that
it writes, and the files that documents refer to.  `Command.reach` gives the paths that matter as
far as the files in a tree tell; reading them may add to it.
-/

namespace LintConfig.CommandLine

open Files

/-- A path and the paths of the directories above it; `fuel` bounds their number. -/
def withParents : Nat → String → List String
  | 0, path => [path]
  | fuel + 1, path =>
    match Path.parent? path with
    | some parent => path :: withParents fuel parent
    | none => [path]

/-- The paths that a setup names. -/
def Setup.named (s : Setup) : List String :=
  [s.config, baseDirectory s.config] ++ s.plugins ++ s.options.toList

/-- The paths that a document refers to, seen from a directory. -/
def referred (directory : String) (d : Document) : List String :=
  (d.references.filter Source.isPathReference).map (Path.join directory)

/-- The paths that the presets of a manifest refer to. -/
def Setup.presetReach (files : Tree) (s : Setup) (manifest : String) : List String :=
  match Notation.load files Manifest.decode manifest with
  | .ok m => m.presets.flatMap fun p => referred (baseDirectory s.config) p.2
  | .error _ => []

/-- The paths that a file refers to. -/
def entryReach : Place × Entry → List String
  | (place, .file (some text)) =>
    let path := Tree.pathOf place
    match Document.ofText path text with
    | .ok d => referred ((Path.parent? path).getD path) d
    | .error _ => []
  | _ => []

/-- The paths that a setup leads to. -/
def Setup.reach (files : Tree) (s : Setup) : List String :=
  s.named ++ s.plugins.flatMap (s.presetReach files) ++ files.entries.flatMap entryReach

/-- The paths that a command looks at, as far as the files in a tree tell. -/
def Command.reach (files : Tree) : Command → List String
  | .schema _ output => withParents (Path.pieces output).length output
  | .schemaAll directory =>
    Schema.Kind.all.flatMap fun k =>
      let output := Path.join directory k.fileName
      withParents (Path.pieces output).length output
  | .printConfig setup _ => setup.reach files
  | .validate setup => setup.reach files

end LintConfig.CommandLine
