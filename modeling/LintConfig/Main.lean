import LintConfig.CommandLine.Reach

/-!
# The program

Reads the files that the command line leads to, carries it out on them, and writes the files that
it has added or changed.
-/

namespace LintConfig.Program

open Files CommandLine

/-- What stands at a path of the file system. -/
def probe (path : String) : IO (Option Entry) := do
  try
    if ← (← IO.FS.realPath path).isDir then return some .directory
    return some (.file (String.fromUTF8? (← IO.FS.readBinFile path)))
  catch _ => return none

/-- Adds what a command leads to, until nothing new turns up. -/
partial def gather (command : Command) (seen : List String) (files : Tree) : IO Tree := do
  let fresh := (command.reach files).eraseDups.filter fun path => !seen.contains path
  if fresh.isEmpty then return files
  let mut files := files
  for path in fresh do
    if let some entry ← probe path then files := files.putEntry path entry
  gather command (seen ++ fresh) files

/-- Writes a file with the directories above it. -/
def store (place : Place) (text : String) : IO Unit := do
  IO.FS.createDirAll (Tree.pathOf place.dropLast)
  IO.FS.writeFile (Tree.pathOf place) text

/-- Carries out a command line and gives its exit code. -/
def run (args : List String) : IO UInt32 := do
  let start := Tree.ofWorkingDirectory (← IO.currentDir).toString
  let files ← match CommandLine.read args with
    | .ok command => gather command [] start
    | .error _ => pure start
  let outcome := CommandLine.run files args
  for (place, text) in Tree.newFiles files outcome.files do store place text
  IO.print outcome.out
  IO.eprint outcome.err
  return UInt32.ofNat outcome.code

end LintConfig.Program

/-- Carries out the command line. -/
def main (args : List String) : IO UInt32 := LintConfig.Program.run args
