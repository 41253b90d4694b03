import LintConfig.Error
import LintConfig.Files.Path

/-!
# File trees

A file tree without links: directories and files by their components from the root, and a working
directory from which relative paths are followed.  `Tree.walk` follows a path piece by piece; a
piece after a file, even an empty one, leads nowhere.
-/

namespace LintConfig.Files

/-- What stands at a place of a tree. -/
inductive Entry where
  /-- A file with its text, or without if its bytes are no UTF-8. -/
  | file (text : Option String)
  | directory
deriving DecidableEq, Repr, Inhabited

/-- A place: components from the root. -/
abbrev Place := List String

/-- Entries by place; the root is always a directory. -/
structure Tree where
  workingDirectory : Place
  entries : List (Place × Entry)
deriving Repr, Inhabited

namespace Tree

/-- The entry at a place. -/
def entryAt? (t : Tree) : Place → Option Entry
  | [] => some .directory
  | p :: ps => (t.entries.find? fun e => e.1 == p :: ps).map Prod.snd

/-- The path of a place. -/
def pathOf (p : Place) : String := "/" ++ Path.joinPieces p

/-- Follows pieces from a place. -/
def walk (t : Tree) : Place → List String → Except FileFault (Place × Entry)
  | place, [] => match t.entryAt? place with
    | some e => .ok (place, e)
    | none => .error .notFound
  | place, piece :: ps => match t.entryAt? place with
    | none => .error .notFound
    | some (.file _) => .error .notDirectory
    | some .directory =>
      if Path.isIdle piece then walk t place ps
      else if piece = ".." then walk t place.dropLast ps
      else walk t (place ++ [piece]) ps

/-- Where a path starts: at the root or at the working directory. -/
def start (t : Tree) (path : String) : Place :=
  if Path.isAbsolute path then [] else t.workingDirectory

/-- Follows a path. -/
def follow (t : Tree) (path : String) : Except FileFault (Place × Entry) :=
  if path.isEmpty then .error .notFound else t.walk (t.start path) (Path.pieces path)

/-- Whether a path leads to a file. -/
def isFile (t : Tree) (path : String) : Bool :=
  match t.follow path with
  | .ok (_, .file _) => true
  | _ => false

/-- Whether a path leads to a directory. -/
def isDirectory (t : Tree) (path : String) : Bool :=
  match t.follow path with
  | .ok (_, .directory) => true
  | _ => false

/-- The path from the root of what a path leads to. -/
def canonical (t : Tree) (path : String) : Except FileFault String :=
  (t.follow path).map fun r => pathOf r.1

/-- The text of the file that a path leads to. -/
def read (t : Tree) (path : String) : Except FileFault String :=
  match t.follow path with
  | .error f => .error f
  | .ok (_, .directory) => .error .isDirectory
  | .ok (_, .file none) => .error .notUtf8
  | .ok (_, .file (some text)) => .ok text

/-- The number of entries that are files. -/
def fileCount (t : Tree) : Nat := (t.entries.filter fun e => e.2 != .directory).length

/-! ### Changes -/

/-- Sets the entry at a place. -/
def setAt (t : Tree) (p : Place) (e : Entry) : Tree :=
  { t with entries := (p, e) :: t.entries.filter fun f => f.1 != p }

/-- Puts an entry where pieces lead from a place, with directories on the way where nothing
stands. -/
def putAlong (t : Tree) (e : Entry) : Place → List String → Tree
  | p, [] => if p.isEmpty then t else t.setAt p e
  | p, piece :: ps =>
    let t := if (t.entryAt? p).isNone then t.setAt p .directory else t
    if Path.isIdle piece then putAlong t e p ps
    else if piece = ".." then putAlong t e p.dropLast ps
    else putAlong t e (p ++ [piece]) ps

/-- Puts an entry at a path. -/
def putEntry (t : Tree) (path : String) (e : Entry) : Tree :=
  t.putAlong e (t.start path) (Path.pieces path)

/-- The empty tree but for a working directory. -/
def ofWorkingDirectory (path : String) : Tree :=
  let place := Path.components path
  (Tree.mk place []).putEntry path .directory

/-- The files of a tree that an older one does not have, or not with this text. -/
def newFiles (older newer : Tree) : List (Place × String) :=
  newer.entries.filterMap fun e => match e.2 with
    | .file (some text) => if older.entryAt? e.1 == some e.2 then none else some (e.1, text)
    | _ => none

/-- Removes the entry at a place. -/
def removeAt (t : Tree) (p : Place) : Tree :=
  { t with entries := t.entries.filter fun f => f.1 != p }

/-- The place that a path to a new or existing entry names: a followed parent and a name. -/
def target (t : Tree) (path : String) : Except FileFault Place :=
  match t.follow path with
  | .ok (p, _) => .ok p
  | .error .notFound =>
    match Path.parent? path, Path.fileName? path with
    | some parent, some name =>
      match t.walk (t.start path) (Path.pieces parent) with
      | .ok (p, .directory) => .ok (p ++ [name])
      | .ok (_, .file _) => .error .notDirectory
      | .error f => .error f
    | _, _ => .error .notFound
  | .error f => .error f

/-- Makes a directory; its parent has to exist and nothing may stand there. -/
def makeDirectory (t : Tree) (path : String) : Except FileFault Tree :=
  match t.target path with
  | .error f => .error f
  | .ok p => match t.entryAt? p with
    | some _ => .error .alreadyExists
    | none => .ok (t.setAt p .directory)

/-- Makes a directory where none is. -/
def ensureDirectory (t : Tree) (path : String) : Except FileFault Tree :=
  match t.makeDirectory path with
  | .ok t => .ok t
  | .error f => if t.isDirectory path then .ok t else .error f

/-- Makes a directory and the directories above it where they are missing; `fuel` bounds the number
of components. -/
def ensureDirectories (t : Tree) : Nat → String → Except FileFault Tree
  | 0, path => t.ensureDirectory path
  | fuel + 1, path =>
    if path.isEmpty then .ok t
    else match t.makeDirectory path with
      | .ok t => .ok t
      | .error .notFound =>
        match Path.parent? path with
        | none => .error .notFound
        | some parent => match t.ensureDirectories fuel parent with
          | .error f => .error f
          | .ok t => t.ensureDirectory path
      | .error f => if t.isDirectory path then .ok t else .error f

/-- Writes a file; its directory has to exist. -/
def write (t : Tree) (path : String) (text : Option String) : Except FileFault Tree :=
  if path.endsWith "/" then .error .isDirectory
  else match t.target path with
    | .error f => .error f
    | .ok p => match t.entryAt? p with
      | some .directory => .error .isDirectory
      | _ => .ok (t.setAt p (.file text))

/-- Removes the file that a path leads to. -/
def remove (t : Tree) (path : String) : Except FileFault Tree :=
  match t.follow path with
  | .error f => .error f
  | .ok (_, .directory) => .error .isDirectory
  | .ok (p, .file _) => .ok (t.removeAt p)

/-- Makes the directories above a path where they are missing. -/
def ensureParents (t : Tree) (path : String) : Except FileFault Tree :=
  match Path.parent? path with
  | none => .ok t
  | some parent => t.ensureDirectories (Path.pieces parent).length parent

end Tree

end LintConfig.Files
