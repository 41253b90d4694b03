/-!
# Paths

Paths as texts with slashes.  Repeated slashes and components that are a single dot do not count,
except a dot at the very start; `..` is a component like any other, since it is only followed in a
file tree.
-/

namespace LintConfig.Path

/-- The pieces between slashes. -/
def piecesOf : List Char → List (List Char)
  | [] => [[]]
  | c :: cs =>
    if c = '/' then [] :: piecesOf cs
    else match piecesOf cs with
      | [] => [[c]]
      | p :: ps => (c :: p) :: ps

/-- The pieces between slashes. -/
def pieces (path : String) : List String := (piecesOf path.toList).map String.ofList

/-- Whether a path starts at the root. -/
def isAbsolute (path : String) : Bool := path.toList.head? == some '/'

/-- Whether a piece does not count as a component. -/
def isIdle (piece : String) : Bool := piece.isEmpty || piece == "."

/-- The components: a dot counts at the start of a relative path only. -/
def components (path : String) : List String :=
  match pieces path with
  | "." :: ps => "." :: ps.filter fun p => !isIdle p
  | ps => ps.filter fun p => !isIdle p

/-- The last component, if it names something. -/
def fileName? (path : String) : Option String :=
  match (components path).getLast? with
  | some "." => none
  | some ".." => none
  | name => name

/-- The part of a file's name after its last dot, unless that dot starts the name. -/
def extension? (path : String) : Option String :=
  match fileName? path with
  | none => none
  | some name =>
    let cs := name.toList.reverse
    match cs.dropWhile (· != '.') with
    | _ :: _ :: _ => some (String.ofList (cs.takeWhile (· != '.')).reverse)
    | _ => none

/-- Joins pieces with slashes. -/
def joinPieces : List String → String
  | [] => ""
  | [p] => p
  | p :: ps => p ++ "/" ++ joinPieces ps

/-- Drops pieces that do not count at the end; the first piece of a relative path stays if it is a
dot. -/
def trimEnd (absolute : Bool) : List String → List String
  | [] => []
  | p :: ps =>
    if absolute || p != "." then (p :: ps).reverse.dropWhile isIdle |>.reverse
    else p :: (ps.reverse.dropWhile isIdle).reverse

/-- The pieces of a path without the slash at its start, and without idle ones at the end. -/
def body (path : String) : List String :=
  if isAbsolute path then trimEnd true ((pieces path).drop 1) else trimEnd false (pieces path)

/-- The path without its last component, if it has one. -/
def parent? (path : String) : Option String :=
  match (body path).reverse with
  | [] => none
  | _ :: rest =>
    let text := joinPieces (trimEnd (isAbsolute path) rest.reverse)
    some (if isAbsolute path then "/" ++ text else text)

/-- The path `child` seen from the directory `base`. -/
def join (base child : String) : String :=
  if isAbsolute child then child
  else match base.toList.getLast? with
    | none => child
    | some '/' => base ++ child
    | some _ => base ++ "/" ++ child

/-- The pieces after a list of components, if the path has them at its start. -/
def afterComponents? : List String → List String → Option (List String)
  | [], ps => some ps
  | _ :: _, [] => none
  | c :: cs, p :: ps =>
    if isIdle p then afterComponents? (c :: cs) ps
    else if p = c then afterComponents? cs ps
    else none

/-- An absolute path seen from a directory above it, compared by components. -/
def relativeTo? (root path : String) : Option String :=
  if isAbsolute root then
    (afterComponents? (components root) ((pieces path).drop 1)).map fun rest =>
      joinPieces (trimEnd true (rest.dropWhile isIdle))
  else if root.isEmpty then some ("/" ++ joinPieces (body path))
  else none

end LintConfig.Path
