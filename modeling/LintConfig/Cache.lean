import LintConfig.Fingerprint
import LintConfig.Number

/-!
# The cache of resolutions

A cache holds results under a path and the fingerprint that they were computed under.  Its entries
stand in the order of their last use, the least recent first.  `Cache.fetch` computes a missing
result; when the cache then holds more than its capacity, results under other fingerprints go
first, and then the least recently used.  A computation that fails leaves the cache as it was.
-/

namespace LintConfig

/-- What a result is kept under. -/
structure CacheKey where
  path : String
  fingerprint : Fingerprint
deriving DecidableEq, Repr

/-- Results in the order of their last use, and what was counted. -/
structure Cache (α : Type) where
  capacity : Nat
  /-- The least recently used entry comes first. -/
  entries : List (CacheKey × α)
  hits : Nat
  misses : Nat
  evictions : Nat
deriving Repr

namespace Cache

variable {α : Type}

/-- The capacity of a cache for which none is given. -/
def defaultCapacity : Nat := 10000

/-- The empty cache; it has room for one result at least. -/
def ofCapacity (capacity : Nat) : Cache α := ⟨max 1 capacity, [], 0, 0, 0⟩

/-- The number of entries. -/
def size (c : Cache α) : Nat := c.entries.length

/-- The result under a key. -/
def find? (c : Cache α) (k : CacheKey) : Option α :=
  (c.entries.find? fun e => e.1 == k).map Prod.snd

/-- The entries without that of a key. -/
def without (c : Cache α) (k : CacheKey) : List (CacheKey × α) :=
  c.entries.filter fun e => e.1 != k

/-- Makes an entry the most recently used one. -/
def touch (c : Cache α) (k : CacheKey) (a : α) : Cache α :=
  { c with entries := c.without k ++ [(k, a)] }

/-- The result under a key, which becomes the most recently used one. -/
def get (c : Cache α) (k : CacheKey) : Option α × Cache α :=
  match c.find? k with
  | some a => (some a, c.touch k a)
  | none => (none, c)

/-- Drops the first entries that satisfy a condition, as many as given. -/
def dropFirst (condition : CacheKey → Bool) : Nat → List (CacheKey × α) → List (CacheKey × α)
  | 0, es => es
  | _ + 1, [] => []
  | n + 1, e :: es =>
    if condition e.1 then dropFirst condition n es else e :: dropFirst condition (n + 1) es

/-- Makes room after a result was computed: entries under other fingerprints are dropped first,
then the least recently used ones, and never that of the key itself.  Of several entries under other
fingerprints the least recently used ones go here, and in a map those that it lists first
(`SlotCache.makeRoom`). -/
def makeRoom (c : Cache α) (k : CacheKey) : Cache α :=
  let excess (es : List (CacheKey × α)) : Nat := es.length - c.capacity
  let fresh := dropFirst (fun j => j.fingerprint != k.fingerprint) (excess c.entries) c.entries
  let kept := dropFirst (fun j => j != k) (excess fresh) fresh
  { c with entries := kept, evictions := c.evictions + (c.entries.length - kept.length) }

/-- The result under a key, computed if it is missing. -/
def fetch {ε : Type} (c : Cache α) (k : CacheKey) (compute : Unit → Except ε α) :
    Except ε α × Cache α :=
  match c.find? k with
  | some a => (.ok a, { c.touch k a with hits := c.hits + 1 })
  | none =>
    match compute () with
    | .error e => (.error e, c)
    | .ok a => (.ok a, { c.touch k a with misses := c.misses + 1 }.makeRoom k)

/-- Drops the results under other fingerprints, and counts them. -/
def purge (c : Cache α) (live : Fingerprint) : Nat × Cache α :=
  let kept := c.entries.filter fun e => e.1.fingerprint == live
  (c.entries.length - kept.length, { c with entries := kept })

/-- Drops every result; what was counted stays. -/
def clear (c : Cache α) : Cache α := { c with entries := [] }

/-! ### Statistics -/

/-- What a cache counts. -/
structure Stats where
  hits : Nat
  misses : Nat
  evictions : Nat
  size : Nat
  capacity : Nat
deriving DecidableEq, Repr

/-- The statistics of a cache. -/
def stats (c : Cache α) : Stats := ⟨c.hits, c.misses, c.evictions, c.size, c.capacity⟩

namespace Stats

/-- The share of requests that were answered from the cache, in percent. -/
def hitRate (s : Stats) : Double := Double.percentage s.hits (s.hits + s.misses)

/-- The share of the capacity that is in use, in percent. -/
def utilization (s : Stats) : Double := Double.percentage s.size s.capacity

end Stats

end Cache

end LintConfig
