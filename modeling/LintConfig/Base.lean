import LintConfig.Glob.PatternSet
import LintConfig.Layer
import LintConfig.Store

/-!
# Base configurations

`Base.ofChain` merges a chain of fragments into one layer, the list of its overrides in chain
order, and the patterns of ignored paths.  `Base.apply` lays the overrides that apply to a path
onto the layer.  Two fingerprints tell bases apart: one of the merged documents and the keys that
are merged deeply, and one that adds the overrides and so covers all that a path's configuration
depends on.
-/

namespace LintConfig

/-- The error of a malformed pattern. -/
def MalformedPattern.error (m : MalformedPattern) (origin : Option String) : Error :=
  .malformedPattern m.pattern origin m.reason

/-! ### Overrides -/

/-- An override at its place in a chain. -/
structure Override where
  /-- The fragment that declares it. -/
  origin : String
  /-- Its position among the overrides of that fragment. -/
  index : Nat
  files : PatternSet
  excluded : PatternSet
  layer : Layer
  fingerprint : Fingerprint
deriving Inhabited

namespace Override

/-- The override of a block. -/
def ofBlock (origin : String) (index : Nat) (b : OverrideBlock) : Override where
  origin := origin
  index := index
  files := .compileLenient b.files.toList
  excluded := match b.excludedFiles with
    | some patterns => .compileLenient patterns.toList
    | none => .empty
  layer := .ofOverride b
  fingerprint := b.fingerprint

/-- Where an override stands, for messages. -/
def label (o : Override) : String := o.origin ++ "#overrides[" ++ toString o.index ++ "]"

/-- The error of a malformed pattern of the override. -/
def patternError (o : Override) (m : MalformedPattern) : Error := m.error (some o.label)

/-- The errors of all malformed patterns of the override. -/
def problems (o : Override) : List Error :=
  (o.files.malformed ++ o.excluded.malformed).map o.patternError

/-- Whether an override applies to a path in normal form.  Malformed patterns are an error for the
paths that the override could apply to: those that a well-formed pattern of `files` selects, and
all of them if there is no such pattern. -/
def appliesTo (o : Override) (path : String) : Except Error Bool :=
  let selected := o.files.accepts path
  match o.files.malformed.head? with
  | some m => if selected || o.files.isEmpty then .error (o.patternError m) else .ok false
  | none =>
    if !selected then .ok false
    else match o.excluded.malformed.head? with
      | some m => .error (o.patternError m)
      | none => .ok (!o.excluded.accepts path)

/-- The overrides of blocks, numbered from a position on. -/
def ofBlocks (origin : String) : Nat → List OverrideBlock → List Override
  | _, [] => []
  | n, b :: bs => ofBlock origin n b :: ofBlocks origin (n + 1) bs

end Override

/-- The overrides of a fragment, in order. -/
def Fragment.overrides (f : Fragment) : List Override :=
  Override.ofBlocks f.id 0 f.document.overrides

/-- The patterns of ignored paths of a fragment; a malformed one is an error. -/
def Fragment.ignorePatterns (f : Fragment) : Except Error PatternSet :=
  (PatternSet.compile f.document.ignorePatterns).mapError fun m => m.error (some f.id)

/-! ### Bases -/

/-- A chain of fragments merged, before anything that depends on a path. -/
structure Base where
  root : String
  layer : Layer
  overrides : List Override
  ignorePatterns : PatternSet
  /-- The identities of the merged fragments. -/
  sources : Names
  /-- The settings that are merged at every depth. -/
  deepKeys : Names
  fingerprint : Fingerprint
  resolutionFingerprint : Fingerprint
deriving Inhabited

namespace Base

/-- What separates the documents from the deep keys in a fingerprint. -/
def deepKeysMark : String := "deep-merge-settings"

/-- The patterns of ignored paths of fragments, in order; the first malformed one is an error. -/
def ignorePatternsOf : List Fragment → Except Error PatternSet
  | [] => .ok .empty
  | f :: fs => do
    let ps ← f.ignorePatterns
    return ps.append (← ignorePatternsOf fs)

/-- The fingerprint of fragments merged under deep keys. -/
def fingerprintOf (deep : Names) (fs : List Fragment) : Fingerprint :=
  .combine (fs.map (fun f => f.fingerprint.hex) ++ deepKeysMark :: deep)

/-- The fingerprint of all that the configuration of a path depends on. -/
def resolutionFingerprintOf (base : Fingerprint) (overrides : List Override) : Fingerprint :=
  .combine (base.hex :: overrides.map fun o => o.fingerprint.hex)

/-- Merges a chain. -/
def ofChain (deep : Names) (c : Chain) : Except Error Base := do
  let ignored ← ignorePatternsOf c.fragments
  let overrides := c.fragments.flatMap Fragment.overrides
  let fingerprint := fingerprintOf deep c.fragments
  return {
    root := c.root
    layer := Layer.mergeAll deep {} (c.fragments.map fun f => .ofDocument f.document)
    overrides
    ignorePatterns := ignored
    sources := c.sources
    deepKeys := deep
    fingerprint
    resolutionFingerprint := resolutionFingerprintOf fingerprint overrides }

/-- Whether a fragment is part of the base. -/
def dependsOn (b : Base) (id : String) : Bool := b.sources.contains id

/-- Whether a path in normal form, or a directory above it, is to be ignored. -/
def isIgnored (b : Base) (path : String) : Bool := b.ignorePatterns.covers path

/-! ### Overrides of a path -/

/-- The overrides that apply to a path, with their positions from a given one on; the first error
counts. -/
def selectFrom (path : String) : Nat → List Override → Except Error (List (Nat × Override))
  | _, [] => .ok []
  | n, o :: os => do
    let applies ← o.appliesTo path
    let rest ← selectFrom path (n + 1) os
    return if applies then (n, o) :: rest else rest

/-- The overrides that apply to a path in normal form, with their positions. -/
def select (b : Base) (path : String) : Except Error (List (Nat × Override)) :=
  selectFrom path 0 b.overrides

/-- What a path is configured with before severities are settled. -/
structure Candidate where
  layer : Layer
  /-- The positions of the overrides that apply. -/
  applied : List Nat
deriving Inhabited

/-- Whether the candidate is the base itself. -/
def Candidate.isBase (c : Candidate) : Bool := c.applied.isEmpty

/-- Lays the overrides that apply to a path onto the base, in order. -/
def apply (b : Base) (path : String) : Except Error Candidate := do
  let selected ← b.select path
  let layers := selected.map fun s => s.2.layer
  return ⟨Layer.mergeAll b.deepKeys b.layer layers, selected.map Prod.fst⟩

end Base

end LintConfig
