import LintConfig.Cache

/-!
# Slots and ticks

A cache as a map from keys to slots.  A slot is made empty before its result is computed, is filled
once, and is stamped with the next tick of a clock at every use; a slot whose computation failed is
taken out again.  When there are more slots than there is room for, those under other fingerprints
are evicted in the order in which the map lists them, and then those with the oldest stamps.  The
map may list its slots in any order, so every call is given one (`Listing`).
-/

namespace LintConfig

/-- A place for one result. -/
structure Slot (α : Type) where
  value : Option α := none
  /-- The tick of the last use. -/
  lastAccess : Nat := 0
deriving DecidableEq, Repr

/-- A map from keys to slots, and what was counted. -/
structure SlotCache (α : Type) where
  capacity : Nat
  slots : List (CacheKey × Slot α)
  /-- The next tick. -/
  clock : Nat
  hits : Nat
  misses : Nat
  evictions : Nat
deriving Repr

/-- The order in which a map lists its slots, given by a rank for each key. -/
def Listing : Type := CacheKey → Nat

namespace SlotCache

variable {α ε : Type}

/-- The empty cache; it has room for one result at least. -/
def ofCapacity (capacity : Nat) : SlotCache α := ⟨max 1 capacity, [], 0, 0, 0, 0⟩

/-- The number of slots. -/
def size (c : SlotCache α) : Nat := c.slots.length

/-- The slot under a key. -/
def find? (c : SlotCache α) (k : CacheKey) : Option (Slot α) :=
  (c.slots.find? fun e => e.1 == k).map Prod.snd

/-- The result under a key. -/
def value? (c : SlotCache α) (k : CacheKey) : Option α := (c.find? k).bind Slot.value

/-- Takes the slot under a key out of the map. -/
def remove (c : SlotCache α) (k : CacheKey) : SlotCache α :=
  { c with slots := c.slots.filter fun e => e.1 != k }

/-- Makes a slot the one under a key. -/
def put (c : SlotCache α) (k : CacheKey) (s : Slot α) : SlotCache α :=
  { c with slots := (c.remove k).slots ++ [(k, s)] }

/-- The slots in the order in which the map lists them. -/
def listed (c : SlotCache α) (order : Listing) : List (CacheKey × Slot α) :=
  c.slots.mergeSort fun e f => order e.1 ≤ order f.1

/-! ### Slots -/

/-- Makes an empty slot under a key that has none. -/
def reserve (c : SlotCache α) (k : CacheKey) : SlotCache α :=
  match c.find? k with
  | some _ => c
  | none => c.put k {}

/-- Stamps the slot under a key with the next tick. -/
def touch (c : SlotCache α) (k : CacheKey) : SlotCache α :=
  match c.find? k with
  | some s => { c.put k { s with lastAccess := c.clock } with clock := c.clock + 1 }
  | none => c

/-- Fills the slot under a key. -/
def fill (c : SlotCache α) (k : CacheKey) (a : α) : SlotCache α :=
  match c.find? k with
  | some s => c.put k { s with value := some a }
  | none => c

/-- Takes the slot under a key out of the map if it is empty. -/
def discard (c : SlotCache α) (k : CacheKey) : SlotCache α :=
  { c with slots := c.slots.filter fun e => !(e.1 == k && e.2.value.isNone) }

/-! ### Eviction -/

/-- Evicts the slot under a key, if there is one. -/
def evict (c : SlotCache α) (k : CacheKey) : SlotCache α :=
  match c.find? k with
  | some _ => { c.remove k with evictions := c.evictions + 1 }
  | none => c

/-- Evicts keys one after the other, as long as there are more slots than there is room for. -/
def evictWhileOver (c : SlotCache α) : List CacheKey → SlotCache α
  | [] => c
  | k :: ks => if c.size ≤ c.capacity then c else evictWhileOver (c.evict k) ks

/-- The keys of the slots under other fingerprints than that of a key. -/
def staleKeys (c : SlotCache α) (order : Listing) (live : Fingerprint) : List CacheKey :=
  ((c.listed order).filter fun e => e.1.fingerprint != live).map Prod.fst

/-- The keys of the filled slots but that of a key, the oldest stamp first. -/
def candidates (c : SlotCache α) (order : Listing) (k : CacheKey) : List CacheKey :=
  (((c.listed order).filter fun e => e.1 != k && e.2.value.isSome).mergeSort
    fun e f => e.2.lastAccess ≤ f.2.lastAccess).map Prod.fst

/-- Makes room after the slot under a key was filled. -/
def makeRoom (c : SlotCache α) (order : Listing) (k : CacheKey) : SlotCache α :=
  let fresh := c.evictWhileOver (c.staleKeys order k.fingerprint)
  ((fresh.candidates order k).take (fresh.size - fresh.capacity)).foldl evict fresh

/-! ### Calls -/

/-- The result under a key, whose slot is stamped. -/
def get (c : SlotCache α) (k : CacheKey) : Option α × SlotCache α :=
  match c.value? k with
  | some a => (some a, c.touch k)
  | none => (none, c)

/-- The result under a key, computed if it is missing. -/
def fetch (c : SlotCache α) (order : Listing) (k : CacheKey) (compute : Unit → Except ε α) :
    Except ε α × SlotCache α :=
  let c := (c.reserve k).touch k
  match c.value? k with
  | some a => (.ok a, { c with hits := c.hits + 1 })
  | none =>
    match compute () with
    | .ok a => (.ok a, { c.fill k a with misses := c.misses + 1 }.makeRoom order k)
    | .error e => (.error e, c.discard k)

/-- Takes the slots under keys out of the map one after the other, and counts them. -/
def removeAll (c : SlotCache α) : List CacheKey → Nat × SlotCache α
  | [] => (0, c)
  | k :: ks =>
    let (n, kept) := (c.remove k).removeAll ks
    (match c.find? k with
      | some _ => n + 1
      | none => n, kept)

/-- Drops the slots under other fingerprints, and counts them. -/
def purge (c : SlotCache α) (order : Listing) (live : Fingerprint) : Nat × SlotCache α :=
  c.removeAll (c.staleKeys order live)

/-- Drops every slot; what was counted stays. -/
def clear (c : SlotCache α) : SlotCache α := { c with slots := [] }

/-- The statistics of a cache. -/
def stats (c : SlotCache α) : Cache.Stats := ⟨c.hits, c.misses, c.evictions, c.size, c.capacity⟩

/-! ### What can be seen of the slots -/

/-- The keys and their results. -/
def contents (c : SlotCache α) : List (CacheKey × Option α) :=
  c.slots.map fun e => (e.1, e.2.value)

/-- The keys in the order of their stamps, the oldest first. -/
def recency (c : SlotCache α) : List CacheKey :=
  (c.slots.mergeSort fun e f => e.2.lastAccess ≤ f.2.lastAccess).map Prod.fst

end SlotCache

end LintConfig
