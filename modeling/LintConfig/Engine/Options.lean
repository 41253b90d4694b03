import LintConfig.Decode.Basic
import LintConfig.Document
import LintConfig.Cache

/-!
# Engine options

How many resolutions the engine keeps, which settings it merges deeply, whether the rules of a
plugin need the plugin to be enabled, and the directory that paths are seen from.
-/

namespace LintConfig

open Decode

/-- The options of an engine. -/
structure EngineOptions where
  cacheCapacity : Nat := Cache.defaultCapacity
  /-- The settings whose maps are merged at every depth. -/
  deepMergeSettings : List String := []
  /-- Whether the rules of a plugin need the plugin to be enabled. -/
  strictPlugins : Bool := true
  /-- The directory below which absolute paths are matched by what follows it. -/
  rootDir : Option String := none
deriving Repr, Inhabited

namespace EngineOptions

/-- The written form; a root directory that is not set is left out. -/
def toJson (o : EngineOptions) : Json :=
  .obj ([("cacheCapacity", .nat o.cacheCapacity),
      ("deepMergeSettings", .strings o.deepMergeSettings),
      ("strictPlugins", .bool o.strictPlugins)] ++
    Written.ifPresent "rootDir" o.rootDir .str)

/-- How options are read. -/
def record : Record EngineOptions where
  name := .engineOptions
  fields := ["cacheCapacity", "deepMergeSettings", "strictPlugins", "rootDir"]
  skipsUnknown := true
  required := []
  blank := {}
  read
    | "cacheCapacity", n, o => return { o with cacheCapacity := ← natural n }
    | "deepMergeSettings", n, o => return { o with deepMergeSettings := ← list string n }
    | "strictPlugins", n, o => return { o with strictPlugins := ← boolean n }
    | "rootDir", n, o => return { o with rootDir := ← optional path n }
    | _, _, o => return o

/-- Reads options. -/
def decode (shape : Shape) : Decoder EngineOptions := record.decode shape

/-- Reads options from a JSON value. -/
def ofJson (j : Json) : Result EngineOptions := decode .liberal (.ofJson j)

end EngineOptions

end LintConfig
