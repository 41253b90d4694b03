import LintConfig.Proofs.Cache
import Mathlib.Data.List.Nodup

/-!
# Calls of a cache

A cache is called again and again by one caller: `Call` is one call, and `run` are calls one after
the other.  A call hands out the result of one key at most, whose entry becomes the last one, and
apart from that it only drops entries (`Call.after_sublist`).  So no key ever has two entries
(`nodup_keys_after`).
-/

namespace LintConfig.Cache

variable {α ε : Type}

/-- A call of a cache.  A computation is given by what it results in. -/
inductive Call (α ε : Type) where
  | get (k : CacheKey)
  | fetch (k : CacheKey) (result : Except ε α)
  | purge (live : Fingerprint)
  | clear

/-- The cache after a call. -/
def Call.after (c : Cache α) : Call α ε → Cache α
  | .get k => (c.get k).2
  | .fetch k result => (c.fetch k fun _ => result).2
  | .purge live => (c.purge live).2
  | .clear => c.clear

/-- The cache after calls, one after the other. -/
def run (c : Cache α) (calls : List (Call α ε)) : Cache α := calls.foldl Call.after c

/-- The keys of the entries, in order. -/
def keys (c : Cache α) : List CacheKey := c.entries.map Prod.fst

/-- A call adds a result at most to results under the same fingerprint. -/
def Call.Current (c : Cache α) : Call α ε → Prop
  | .fetch k _ => ∀ j ∈ c.keys, j.fingerprint = k.fingerprint
  | _ => True

/-- Calls, one after the other, add results to results under the same fingerprint only. -/
def Current (c : Cache α) : List (Call α ε) → Prop
  | [] => True
  | call :: calls => call.Current c ∧ Current (call.after c) calls

variable {c : Cache α} {k : CacheKey} {a : α}

/-! ### One call -/

theorem get_of_some (h : c.find? k = some a) : c.get k = (some a, c.touch k a) := by
  rw [get, h]

theorem get_of_none (h : c.find? k = none) : c.get k = (none, c) := by
  rw [get, h]

theorem fetch_of_some (h : c.find? k = some a) (compute : Unit → Except ε α) :
    c.fetch k compute = (.ok a, { c.touch k a with hits := c.hits + 1 }) := by
  rw [fetch, h]

theorem fetch_error (h : c.find? k = none) (e : ε) :
    (c.fetch k fun _ => .error e) = (.error e, c) := by
  rw [fetch, h]

theorem fetch_ok (h : c.find? k = none) (a : α) :
    (c.fetch k fun _ => (.ok a : Except ε α)) =
      (.ok a, { c.touch k a with misses := c.misses + 1 }.makeRoom k) := by
  rw [fetch, h]

/-- What a call does to the entries: it drops some, after it moved one of them to the end or put a
new one there. -/
theorem Call.after_sublist (c : Cache α) (call : Call α ε) :
    (call.after c).entries.Sublist c.entries ∨
      ∃ k a, (call.after c).entries.Sublist (c.touch k a).entries := by
  cases call with
  | get k =>
    rw [after]
    cases hfind : c.find? k with
    | some a =>
      rw [get_of_some hfind]
      exact .inr ⟨k, a, .refl _⟩
    | none =>
      rw [get_of_none hfind]
      exact .inl (.refl _)
  | fetch k result =>
    rw [after]
    cases hfind : c.find? k with
    | some a =>
      rw [fetch_of_some hfind]
      exact .inr ⟨k, a, .refl _⟩
    | none =>
      cases result with
      | error e =>
        rw [fetch_error hfind]
        exact .inl (.refl _)
      | ok a =>
        rw [fetch_ok hfind]
        exact .inr ⟨k, a, makeRoom_sublist _ k⟩
  | purge live => exact .inl List.filter_sublist
  | clear => exact .inl (List.nil_sublist _)

/-! ### Entries and keys -/

theorem find?_eq_none_iff : c.find? k = none ↔ ∀ e ∈ c.entries, e.1 ≠ k := by
  simp [find?]

theorem find?_eq_some_iff (hnodup : c.keys.Nodup) : c.find? k = some a ↔ (k, a) ∈ c.entries := by
  refine ⟨mem_of_find?, fun hmem => ?_⟩
  cases hfind : c.find? k with
  | none => exact absurd rfl (find?_eq_none_iff.1 hfind _ hmem)
  | some b =>
    have heq := List.inj_on_of_nodup_map hnodup (mem_of_find? hfind) hmem rfl
    rw [(Prod.mk.inj heq).2]

theorem nodup_keys_touch (hnodup : c.keys.Nodup) (k : CacheKey) (a : α) :
    (c.touch k a).keys.Nodup := by
  have hkeys : (c.touch k a).keys = (c.without k).map Prod.fst ++ [k] := by
    simp [keys, touch]
  rw [hkeys]
  refine (hnodup.sublist (List.filter_sublist.map _)).append (List.nodup_singleton k) ?_
  rw [List.disjoint_singleton]
  intro hmem
  obtain ⟨e, he, rfl⟩ := List.mem_map.1 hmem
  simpa using (List.mem_filter.1 he).2

theorem nodup_keys_after (hnodup : c.keys.Nodup) (call : Call α ε) :
    (call.after c).keys.Nodup := by
  rcases Call.after_sublist c call with hsub | ⟨k, a, hsub⟩
  · exact hnodup.sublist (hsub.map _)
  · exact (nodup_keys_touch hnodup k a).sublist (hsub.map _)

end LintConfig.Cache
