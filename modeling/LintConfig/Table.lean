/-!
# Tables

A `Table` is a finite map from text keys to values that remembers the order in which its keys
were first written.  `put` replaces a value where its key stands and appends a new key at the
end; `erase` removes a key and keeps the order of the others; `overlay` puts the entries of a
second table one after the other.
-/

namespace LintConfig

/-- Entries in the order of the first writing of their keys. -/
abbrev Table (α : Type) := List (String × α)

namespace Table

variable {α β : Type}

/-- The keys, in table order. -/
def keys (t : Table α) : List String := t.map Prod.fst

/-- The value of the first entry with key `k`. -/
def get? : Table α → String → Option α
  | [], _ => none
  | (k', v) :: t, k => if k' = k then some v else get? t k

/-- Whether some entry has key `k`. -/
def has (t : Table α) (k : String) : Bool := (get? t k).isSome

/-- Sets the value of `k`: in place where `k` has an entry, at the end otherwise. -/
def put : Table α → String → α → Table α
  | [], k, v => [(k, v)]
  | (k', v') :: t, k, v => if k' = k then (k', v) :: t else (k', v') :: put t k v

/-- Removes every entry with key `k`. -/
def erase (t : Table α) (k : String) : Table α := t.filter fun e => e.1 != k

/-- Puts the entries of `upper` onto `t` one after the other. -/
def overlay (t upper : Table α) : Table α := upper.foldl (fun acc e => put acc e.1 e.2) t

/-- The table of a list of entries: of a repeated key the last value wins at the first place. -/
def ofEntries (entries : List (String × α)) : Table α := overlay [] entries

/-- Applies `f` to every value. -/
def mapValues (f : α → β) (t : Table α) : Table β := t.map fun e => (e.1, f e.2)

/-! ### Looking up after a change -/

theorem get?_put_self (t : Table α) (k : String) (v : α) : get? (put t k v) k = some v := by
  induction t with
  | nil => simp [put, get?]
  | cons e t ih =>
    obtain ⟨k', v'⟩ := e
    by_cases h : k' = k <;> simp [put, get?, h, ih]

theorem get?_put_of_ne (t : Table α) {k k' : String} (v : α) (h : k ≠ k') :
    get? (put t k v) k' = get? t k' := by
  induction t with
  | nil => simp [put, get?, h]
  | cons e t ih =>
    obtain ⟨j, w⟩ := e
    by_cases hj : j = k
    · subst hj; simp [put, get?, h]
    · simp [put, get?, hj, ih]

end Table

/-! ### Sorted names -/

/-- Sorted lists of distinct names: a set whose listing does not depend on how it was built. -/
abbrev Names := List String

namespace Names

/-- Adds a name at its place in the order. -/
def insert : Names → String → Names
  | [], n => [n]
  | m :: ns, n => if n = m then m :: ns else if n < m then n :: m :: ns else m :: insert ns n

/-- The set of the names of a list. -/
def ofList (ns : List String) : Names := ns.foldl insert []

/-- The names of either set. -/
def union (a b : Names) : Names := b.foldl insert a

end Names

end LintConfig
