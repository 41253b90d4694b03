import LintConfig.Base
import LintConfig.Cache
import LintConfig.Engine.Options
import LintConfig.Layer.Rules

/-!
# The engine

An engine resolves the configurations of paths from one root reference.  It keeps the fragments
that it read, the base they merge into, and the resolutions it computed.  `Engine.start` builds
the base; `Engine.reload` drops a document that has changed and builds the base again if it depends
on that document.  If that fails the engine is broken, and nothing resolves until a reload succeeds.
The documents live outside the engine, in a library that is handed to it.
-/

namespace LintConfig

/-- What an engine resolves from. -/
inductive Engine.State where
  | ready (base : Base)
  /-- The base could not be built again, with the text of the error. -/
  | broken (reason : String)
deriving Inhabited

/-- An engine for one root reference. -/
structure Engine where
  root : String
  registry : Registry
  options : EngineOptions
  store : Store
  state : Engine.State
  cache : Cache Resolved

namespace Engine

/-- The name of the source of presets. -/
def presetsName : String := "presets"

/-- The library with the presets of a registry in front. -/
def withPresets (registry : Registry) (lib : Library) : Library :=
  lib.withSource (.memory presetsName registry.presets)

/-- The settings that are merged at every depth, sorted. -/
def deepKeys (options : EngineOptions) : Names := Names.ofList options.deepMergeSettings

/-- Loads the chain of a root reference and merges it; the store keeps what was read. -/
def build (registry : Registry) (options : EngineOptions) (lib : Library) (s : Store)
    (root : String) : Except Error Base × Store :=
  let (chain, s) := s.load (withPresets registry lib) root
  (chain.bind (Base.ofChain (deepKeys options)), s)

/-- An engine for a root reference, whose base is built from a library. -/
def start (root : String) (lib : Library) (registry : Registry) (options : EngineOptions) :
    Except Error Engine :=
  let (base, s) := build registry options lib {} root
  base.map fun base =>
    { root, registry, options
      store := s
      state := .ready base
      cache := .ofCapacity options.cacheCapacity }

/-- The base, if there is one. -/
def base? (e : Engine) : Option Base :=
  match e.state with
  | .ready base => some base
  | .broken _ => none

/-- The base, or the error that there is none. -/
def base (e : Engine) : Except Error Base :=
  match e.state with
  | .ready base => .ok base
  | .broken reason =>
    .error (.unusable ("configuration '" ++ e.root ++ "' failed to reload: " ++ reason))

/-! ### Resolving -/

/-- A path as patterns see it: what follows the root directory, for a path below it. -/
def matchPath (e : Engine) (path : String) : String :=
  normalizePath (match e.options.rootDir with
    | some root =>
      if Path.isAbsolute path then (Path.relativeTo? root path).getD path else path
    | none => path)

/-- The configuration of a path in normal form, computed from a base. -/
def compute (e : Engine) (base : Base) (path : String) : Except Error Resolved := do
  let candidate ← base.apply path
  let rules ← candidate.layer.resolveRules e.registry e.options.strictPlugins
  return {
    path
    fingerprint := base.resolutionFingerprint
    plugins := candidate.layer.plugins
    rules
    settings := candidate.layer.settings
    env := candidate.layer.env
    globals := candidate.layer.globals
    parser := candidate.layer.parser
    parserOptions := candidate.layer.parserOptions }

/-- The configuration of a path, from the cache or computed. -/
def resolve (e : Engine) (path : String) : Except Error Resolved × Engine :=
  match e.base with
  | .error error => (.error error, e)
  | .ok base =>
    let path := e.matchPath path
    let (result, cache) := e.cache.fetch ⟨path, base.resolutionFingerprint⟩
      fun _ => e.compute base path
    (result, { e with cache })

/-- The configurations of paths, each with its own error. -/
def resolveMany (e : Engine) : List String → List (Except Error Resolved) × Engine
  | [] => ([], e)
  | path :: paths =>
    let (result, e) := e.resolve path
    let (results, e) := e.resolveMany paths
    (result :: results, e)

/-- The configurations of paths, with nothing for a path that fails on its own; an error of the
engine as a whole counts for all. -/
def resolveReported (e : Engine) (paths : List String) :
    Except Error (List (Option Resolved)) × Engine :=
  let (results, e) := e.resolveMany paths
  (results.mapM Error.recover, e)

/-- Whether a path is to be ignored. -/
def isIgnored (e : Engine) (path : String) : Except Error Bool :=
  e.base.map fun base => base.isIgnored (e.matchPath path)

/-! ### Validating -/

/-- The errors with distinct texts, each at its first place. -/
def distinct (errors : List Error) : List Error :=
  (errors.foldl (fun (acc : List Error × List String) error =>
    if acc.2.contains error.message then acc else (acc.1 ++ [error], error.message :: acc.2))
    ([], [])).1

/-- The errors that an override can cause: its malformed patterns, and the rules of the base with
the override laid onto it. -/
def overrideProblems (e : Engine) (base : Base) (o : Override) : List Error :=
  o.problems ++
    (Layer.merge base.deepKeys base.layer o.layer).problems e.registry e.options.strictPlugins

/-- Every error that some path can fail with, or the error that there is no base. -/
def validate (e : Engine) : List Error :=
  match e.base with
  | .error error => [error]
  | .ok base =>
    distinct (base.layer.problems e.registry e.options.strictPlugins ++
      base.overrides.flatMap (e.overrideProblems base))

/-! ### Reloading -/

/-- What a reload did. -/
structure ReloadReport where
  /-- The fragments that were dropped from the store, sorted. -/
  invalidated : Names
  /-- Whether the base was built again. -/
  rebuilt : Bool
  /-- Whether resolutions of the new base are told apart from those of the old one. -/
  fingerprintChanged : Bool
  /-- The number of resolutions that were dropped from the cache. -/
  purged : Nat
deriving DecidableEq, Repr

/-- Whether the base depends on a fragment; without a base nothing does. -/
def dependsOn (e : Engine) (id : String) : Bool := e.base?.any fun base => base.dependsOn id

/-- The identities that a request to reload means: those candidates that were read or that the base
depends on. -/
def reloadTargets (e : Engine) (lib : Library) (reference : String) : List String :=
  ((withPresets e.registry lib).candidates reference).filter fun id =>
    e.store.has id || e.dependsOn id

/-- Drops fragments with all that extend them, one after the other. -/
def invalidateAll : Store → List String → Names × Store
  | s, [] => ([], s)
  | s, id :: ids =>
    let (dropped, s) := s.invalidate id
    let (others, s) := invalidateAll s ids
    (Names.union dropped others, s)

/-- Reads a changed document again, with all that extends it, and builds the base again if it
depends on any of them. -/
def reload (e : Engine) (lib : Library) (reference : String) : Except Error ReloadReport × Engine :=
  let targets := e.reloadTargets lib reference
  let (invalidated, s) := invalidateAll e.store targets
  let affected := match e.base? with
    | some base => (invalidated ++ targets).any base.dependsOn
    | none => true
  if !affected then (.ok ⟨invalidated, false, false, 0⟩, { e with store := s })
  else
    match build e.registry e.options lib s e.root with
    | (.error error, s) =>
      (.error error, { e with
        store := s
        state := .broken error.message
        cache := e.cache.clear })
    | (.ok base, s) =>
      let changed := e.base?.all fun old => old.resolutionFingerprint != base.resolutionFingerprint
      let (purged, cache) := e.cache.purge base.resolutionFingerprint
      (.ok ⟨invalidated, true, changed, purged⟩, { e with
        store := s
        state := .ready base
        cache })

end Engine

end LintConfig
