import LintConfig.Files.Tree
import LintConfig.Fragment
import LintConfig.Notation

/-!
# Sources of documents

A reference is located by the first source that knows it, which gives an identity; the document
behind an identity is read from the first source that owns it.  In memory a document's name is its
identity.  A directory resolves references as paths, from the fragment that makes them or from
itself; there an identity is the path from the root of the file tree.
-/

namespace LintConfig

/-- Where documents are found. -/
inductive Source where
  /-- Documents by name. -/
  | memory (name : String) (documents : Table Document)
  /-- The files below a directory, or anywhere else that a path leads to. -/
  | directory (base : String)
deriving Inhabited

namespace Source

/-- The name of a source. -/
def name : Source → String
  | .memory name _ => name
  | .directory _ => "filesystem"

/-- Whether a reference is a path by its form: relative to a directory by one or two dots, or
absolute. -/
def isPathReference (reference : String) : Bool :=
  match reference.toList with
  | '.' :: '/' :: _ => true
  | '.' :: '\\' :: _ => true
  | '.' :: '.' :: '/' :: _ => true
  | '.' :: '.' :: '\\' :: _ => true
  | _ => Path.isAbsolute reference

/-- The directory from which a reference is resolved: that of the fragment that makes it, if the
fragment is a file, or the base directory. -/
def anchor (base : String) (referrer : Option String) : String :=
  match referrer with
  | none => base
  | some id => if Path.isAbsolute id then (Path.parent? id).getD base else base

/-- The identity that a reference denotes.  A reference without a referrer may be a path of any
form. -/
def locate? (files : Files.Tree) (s : Source) (reference : String) (referrer : Option String) :
    Option String :=
  match s with
  | .memory _ documents => if Table.has documents reference then some reference else none
  | .directory base =>
    if referrer.isSome && !isPathReference reference then none
    else
      let path := Path.join (anchor base referrer) reference
      if files.isFile path then (files.canonical path).toOption else none

/-- Whether identities like this one are read from the source. -/
def owns (s : Source) (id : String) : Bool :=
  match s with
  | .memory _ documents => Table.has documents id
  | .directory _ => Path.isAbsolute id

/-- The identity that a reference without a referrer would denote if something stood there. -/
def identityOf? (files : Files.Tree) (s : Source) (reference : String) : Option String :=
  match s with
  | .memory _ _ => none
  | .directory base =>
    let path := Path.join base reference
    match files.canonical path with
    | .ok id => some id
    | .error _ => do
      let parent ← (files.canonical (← Path.parent? path)).toOption
      let name ← Path.fileName? path
      return Path.join parent name

/-- The document behind an identity. -/
def read (files : Files.Tree) (s : Source) (id : String) : Except Error Document :=
  match s with
  | .memory _ documents =>
    match Table.get? documents id with
    | some d => .ok d
    | none => .error (.unresolvedReference id none)
  | .directory _ =>
    match files.read id with
    | .ok text => Document.ofText id text
    | .error fault => .error (.file id fault)

end Source

/-- Sources in the order in which they are asked, and the file tree they see. -/
structure Library where
  sources : List Source
  files : Files.Tree
deriving Inhabited

namespace Library

/-- The identity that a reference denotes: that of the first source that knows it. -/
def locate? (lib : Library) (reference : String) (referrer : Option String) : Option String :=
  lib.sources.findSome? fun s => s.locate? lib.files reference referrer

/-- The identity that a reference denotes, or the error that no source knows it. -/
def locate (lib : Library) (reference : String) (referrer : Option String) : Except Error String :=
  match lib.locate? reference referrer with
  | some id => .ok id
  | none => .error (.unresolvedReference reference referrer)

/-- Whether some source owns an identity. -/
def owns (lib : Library) (id : String) : Bool := lib.sources.any fun s => s.owns id

/-- The identity that a reference without a referrer would denote if something stood there. -/
def identityOf? (lib : Library) (reference : String) : Option String :=
  lib.sources.findSome? fun s => s.identityOf? lib.files reference

/-- The document behind an identity, from the first source that owns it. -/
def read (lib : Library) (id : String) : Except Error Document :=
  match lib.sources.find? fun s => s.owns id with
  | some s => s.read lib.files id
  | none => .error (.unresolvedReference id none)

/-- The identities that a request by reference may mean, the most specific first: where it leads
now, where it would lead, and the reference itself. -/
def candidates (lib : Library) (reference : String) : List String :=
  let guesses := [lib.locate? reference none, lib.identityOf? reference, some reference]
  (guesses.filterMap id).eraseDups

/-- The number of documents that can be read at most. -/
def documentBound (lib : Library) : Nat :=
  lib.files.fileCount + lib.sources.foldr (fun s n => match s with
    | .memory _ documents => documents.length + n
    | .directory _ => n) 0

/-- The library with another source in front. -/
def withSource (lib : Library) (s : Source) : Library := { lib with sources := s :: lib.sources }

/-! ### Changes -/

/-- Changes the documents of the memory source at a position among the memory sources. -/
def changeMemory (change : Table Document → Table Document) : Nat → List Source → List Source
  | _, [] => []
  | n, .directory base :: ss => .directory base :: changeMemory change n ss
  | 0, .memory name documents :: ss => .memory name (change documents) :: ss
  | n + 1, .memory name documents :: ss => .memory name documents :: changeMemory change n ss

/-- The documents of the memory source at a position among the memory sources. -/
def memoryAt? (lib : Library) (n : Nat) : Option (Table Document) :=
  (lib.sources.filterMap fun s => match s with
    | .memory _ documents => some documents
    | .directory _ => none)[n]?

/-- Inserts or replaces a document. -/
def insert (lib : Library) (n : Nat) (name : String) (d : Document) : Library :=
  { lib with sources := changeMemory (fun t => Table.put t name d) n lib.sources }

/-- Removes a document. -/
def remove (lib : Library) (n : Nat) (name : String) : Library :=
  { lib with sources := changeMemory (fun t => Table.erase t name) n lib.sources }

end Library

end LintConfig
