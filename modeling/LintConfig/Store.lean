import LintConfig.Source

/-!
# The store of fragments

A store keeps every fragment that was read, by identity, and for each identity the fragments that
extend it.  `Store.load` reads a reference with everything it extends, depth first and from left to
right; a fragment that is met again while its own bases are being loaded closes a cycle.  What was
read before an error stays in the store.
-/

namespace LintConfig

/-- A reference with everything it extends, bases before the fragments that extend them.  A base
that is reached twice stands there twice. -/
structure Chain where
  root : String
  fragments : List Fragment
deriving Inhabited

namespace Chain

/-- The identities, in order. -/
def ids (c : Chain) : List String := c.fragments.map Fragment.id

/-- The distinct identities, sorted. -/
def sources (c : Chain) : Names := Names.ofList c.ids

end Chain

/-- The fragments that were read, and who extends whom. -/
structure Store where
  fragments : Table Fragment := []
  /-- For an identity the fragments that extend it. -/
  dependents : Table Names := []
deriving Inhabited

namespace Store

/-- Whether a fragment is in the store. -/
def has (s : Store) (id : String) : Bool := Table.has s.fragments id

/-- The fragments that extend a fragment, sorted. -/
def dependentsOf (s : Store) (id : String) : Names := (Table.get? s.dependents id).getD []

/-- The number of fragments in the store. -/
def size (s : Store) : Nat := s.fragments.length

/-! ### Loading -/

/-- Forgets what a fragment extended. -/
def forgetEdges (s : Store) (id : String) : Store :=
  let without := s.dependents.map fun e => (e.1, e.2.filter fun p => p != id)
  { s with dependents := without.filter fun e => !e.2.isEmpty }

/-- Keeps a fragment that was read. -/
def keep (s : Store) (f : Fragment) : Store :=
  let s := s.forgetEdges f.id
  { s with fragments := Table.put s.fragments f.id f }

/-- Notes that a fragment extends another. -/
def noteDependent (s : Store) (base dependent : String) : Store :=
  { s with
    dependents := Table.put s.dependents base (Names.insert (s.dependentsOf base) dependent) }

/-- The fragment of an identity: from the store, or read and then kept. -/
def fetch (lib : Library) (s : Store) (id : String) : Except Error Fragment × Store :=
  match Table.get? s.fragments id with
  | some f => (.ok f, s)
  | none =>
    match lib.read id with
    | .error e => (.error e, s)
    | .ok d =>
      let f := Fragment.ofDocument id d
      (.ok f, s.keep f)

/-- The cycle that an identity closes: from its place among those being loaded to itself. -/
def cycleThrough (loading : List String) (id : String) : List String :=
  loading.dropWhile (· != id) ++ [id]

/-- Loads the bases of a fragment from left to right; `visit` loads one of them. -/
def loadBases (lib : Library) (visit : String → Store → Except Error (List Fragment) × Store)
    (id : String) : List String → Store → Except Error (List Fragment) × Store
  | [], s => (.ok [], s)
  | reference :: references, s =>
    match lib.locate reference (some id) with
    | .error e => (.error e, s)
    | .ok base =>
      match visit base (s.noteDependent base id) with
      | (.error e, s) => (.error e, s)
      | (.ok fs, s) =>
        match loadBases lib visit id references s with
        | (.error e, s) => (.error e, s)
        | (.ok gs, s) => (.ok (fs ++ gs), s)

/-- Loads a fragment after its bases.  `loading` are the fragments whose bases are being loaded,
the outermost first; `fuel` bounds how many more there can be. -/
def loadFrom (lib : Library) : Nat → List String → String → Store →
    Except Error (List Fragment) × Store
  | 0, _, _, s => (.error (.internal "inheritance is deeper than there are documents"), s)
  | fuel + 1, loading, id, s =>
    if loading.contains id then (.error (.cyclicInheritance (cycleThrough loading id)), s)
    else
      match fetch lib s id with
      | (.error e, s) => (.error e, s)
      | (.ok f, s) =>
        match loadBases lib (fun base s => loadFrom lib fuel (loading ++ [id]) base s) id
            f.references s with
        | (.error e, s) => (.error e, s)
        | (.ok fs, s) => (.ok (fs ++ [f]), s)

/-- A bound on the number of fragments that can be loading at once: those in the store and those
that can be read, and one more that closes a cycle or is missing. -/
def depthBound (lib : Library) (s : Store) : Nat := s.size + lib.documentBound + 1

/-- Loads a reference with everything it extends. -/
def load (lib : Library) (s : Store) (reference : String) : Except Error Chain × Store :=
  match lib.locate reference none with
  | .error e => (.error e, s)
  | .ok root =>
    match loadFrom lib (depthBound lib s) [] root s with
    | (.error e, s) => (.error e, s)
    | (.ok fs, s) => (.ok ⟨root, fs⟩, s)

/-! ### Invalidating -/

/-- The number of noted dependents. -/
def edgeCount (s : Store) : Nat := s.dependents.foldr (fun e n => e.2.length + n) 0

/-- Adds to a set what is pending and, again and again, its dependents. -/
def reach (s : Store) : Nat → List String → Names → Names
  | 0, _, reached => reached
  | _ + 1, [], reached => reached
  | fuel + 1, id :: pending, reached =>
    if reached.contains id then reach s fuel pending reached
    else reach s fuel (s.dependentsOf id ++ pending) (Names.insert reached id)

/-- A fragment and every fragment that extends it, directly or through others. -/
def affected (s : Store) (id : String) : Names := reach s (s.edgeCount + 2) [id] []

/-- Drops a fragment and every fragment that extends it, directly or through others; gives the
identities of those that were in the store, sorted. -/
def invalidate (s : Store) (id : String) : Names × Store :=
  let dropped := (s.affected id).filter s.has
  (dropped, { s with fragments := s.fragments.filter fun e => !dropped.contains e.1 })

end Store

end LintConfig
