import LintConfig.Table
import Mathlib.Data.List.Forall2
import Mathlib.Data.List.Induction
import Mathlib.Data.List.Nodup
import Mathlib.Tactic.Tauto

/-!
# Lookups in tables and names

What a lookup gives after a table was appended to, filtered or overlaid, and which names a set of
names has.  The table of several tables written out one after the other is `Table.written`: of a
key the last value counts (`get?_written`), and keys stand in the order of their first mention
(`keys_written`).
-/

namespace LintConfig

namespace Table

variable {α β : Type}

/-! ### Keys and entries -/

theorem keys_cons (e : String × α) (t : Table α) : keys (e :: t) = e.1 :: keys t := rfl

theorem mem_keys_of_mem {e : String × α} {t : Table α} (h : e ∈ t) : e.1 ∈ keys t :=
  List.mem_map_of_mem h

theorem get?_eq_none_iff (t : Table α) (k : String) : get? t k = none ↔ k ∉ keys t := by
  induction t with
  | nil => simp [get?, keys]
  | cons e t ih =>
    obtain ⟨k', v⟩ := e
    by_cases h : k' = k
    · simp [get?, keys, h]
    · have h' : k ≠ k' := fun e => h e.symm
      simpa [get?, keys, h, h'] using ih

theorem isSome_get?_iff (t : Table α) (k : String) : (get? t k).isSome ↔ k ∈ keys t := by
  rw [Option.isSome_iff_ne_none, ne_eq, get?_eq_none_iff, not_not]

theorem mem_of_get? {t : Table α} {k : String} {a : α} (h : get? t k = some a) : (k, a) ∈ t := by
  induction t with
  | nil => cases h
  | cons e t ih =>
    obtain ⟨k', v⟩ := e
    rw [get?] at h
    split_ifs at h with hk
    · obtain rfl := hk
      obtain rfl := Option.some.inj h
      exact List.mem_cons_self
    · exact List.mem_cons_of_mem _ (ih h)

theorem get?_of_mem {t : Table α} {k : String} {a : α} (hnodup : (keys t).Nodup) (h : (k, a) ∈ t) :
    get? t k = some a := by
  induction t with
  | nil => cases h
  | cons e t ih =>
    rw [keys_cons, List.nodup_cons] at hnodup
    rcases List.mem_cons.1 h with rfl | h
    · simp [get?]
    · have hne : e.1 ≠ k := fun heq => hnodup.1 (heq ▸ mem_keys_of_mem h)
      rw [get?, if_neg hne]
      exact ih hnodup.2 h

/-! ### Lookups -/

theorem get?_append (t u : Table α) (k : String) :
    get? (t ++ u) k = (get? t k).or (get? u k) := by
  induction t with
  | nil => simp [get?]
  | cons e t ih => by_cases h : e.1 = k <;> simp [get?, h, ih]

theorem get?_put (t : Table α) (k : String) (v : α) (k' : String) :
    get? (put t k v) k' = if k = k' then some v else get? t k' := by
  by_cases h : k = k'
  · subst h; simp [get?_put_self]
  · simp [h, get?_put_of_ne t v h]

/-- A lookup in a table from which whole keys were filtered out. -/
theorem get?_filter (t : Table α) (p : String → Bool) (k : String) :
    get? (t.filter fun e => p e.1) k = if p k then get? t k else none := by
  induction t with
  | nil => simp [get?]
  | cons e t ih =>
    obtain ⟨k', v⟩ := e
    by_cases h : k' = k
    · subst h
      cases hp : p k' <;> simp_all [get?]
    · cases hp : p k' <;> simp_all [get?]

theorem get?_erase (t : Table α) (k k' : String) :
    get? (erase t k) k' = if k' = k then none else get? t k' := by
  have h := get?_filter t (fun j => j != k) k'
  by_cases hk : k' = k <;> simp_all [erase]

/-! ### Tables written out one after the other -/

theorem overlay_append (t u v : Table α) : overlay t (u ++ v) = overlay (overlay t u) v := by
  simp [overlay]

/-- Tables laid on one after the other are one table laid on. -/
theorem foldl_overlay (t : Table α) (us : List (Table α)) :
    us.foldl overlay t = overlay t us.flatten := by
  induction us generalizing t with
  | nil => rfl
  | cons u us ih => rw [List.foldl_cons, ih, List.flatten_cons, overlay_append]

theorem get?_overlay (t u : Table α) (k : String) :
    get? (overlay t u) k = (get? u.reverse k).or (get? t k) := by
  induction u generalizing t with
  | nil => simp [overlay, get?]
  | cons e u ih =>
    obtain ⟨k', v⟩ := e
    have hstep : overlay t ((k', v) :: u) = overlay (put t k' v) u := rfl
    rw [hstep, ih, get?_put, List.reverse_cons, get?_append]
    by_cases h : k' = k <;> cases get? u.reverse k <;> simp [get?, h]

theorem keys_put (t : Table α) (k : String) (v : α) :
    keys (put t k v) = if k ∈ keys t then keys t else keys t ++ [k] := by
  induction t with
  | nil => simp [put, keys]
  | cons e t ih =>
    obtain ⟨k', w⟩ := e
    by_cases h : k' = k
    · simp [put, keys, h]
    · have h' : k ≠ k' := fun e => h e.symm
      have ih' : List.map Prod.fst (put t k v) =
          if k ∈ List.map Prod.fst t then List.map Prod.fst t else List.map Prod.fst t ++ [k] := ih
      simp only [put, h, if_false, keys, List.map_cons, List.mem_cons, h', false_or, ih']
      split_ifs <;> rfl

/-- What is laid on repeats no key. -/
theorem nodup_keys_overlay {t : Table α} (hnodup : (keys t).Nodup) (u : Table α) :
    (keys (overlay t u)).Nodup := by
  unfold overlay
  induction u generalizing t with
  | nil => exact hnodup
  | cons e u ih =>
    refine ih ?_
    rw [keys_put]
    split_ifs with hk
    · exact hnodup
    · exact hnodup.append (List.nodup_singleton e.1) (by simpa using hk)

/-! ### Tables of entries -/

theorem put_of_notMem {t : Table α} {k : String} (h : k ∉ keys t) (v : α) :
    put t k v = t ++ [(k, v)] := by
  induction t with
  | nil => rfl
  | cons e t ih =>
    rw [keys, List.map_cons, List.mem_cons, not_or] at h
    rw [put, if_neg (Ne.symm h.1), ih h.2, List.cons_append]

/-- Entries without a repeated key are a table. -/
theorem put_eq_self {t : Table α} {k : String} {v : α} (h : get? t k = some v) : put t k v = t := by
  induction t with
  | nil => cases h
  | cons e t ih =>
    rw [get?] at h
    rw [put]
    split_ifs at h ⊢ with hk
    · rw [← Option.some.inj h]
    · rw [ih h]

theorem ofEntries_eq_self {t : Table α} (h : (keys t).Nodup) : ofEntries t = t := by
  unfold ofEntries
  induction t using List.reverseRecOn with
  | nil => rfl
  | append_singleton t e ih =>
    rw [keys, List.map_append, List.nodup_append] at h
    obtain ⟨hnodup, -, hnot⟩ := h
    rw [overlay_append, ih hnodup]
    exact put_of_notMem (fun hmem => hnot _ hmem e.1 (by simp) rfl) e.2

theorem nodup_keys_ofEntries (entries : List (String × α)) : (keys (ofEntries entries)).Nodup := by
  unfold ofEntries
  exact nodup_keys_overlay (by simp [keys]) entries

theorem mem_of_mem_ofEntries {entries : List (String × α)} {e : String × α}
    (h : e ∈ ofEntries entries) : e ∈ entries := by
  have hget := get?_of_mem (nodup_keys_ofEntries entries) h
  rw [ofEntries, get?_overlay, get?, Option.or_none] at hget
  exact List.mem_reverse.1 (mem_of_get? hget)

@[simp] theorem mapValues_id : (mapValues id : Table α → Table α) = id := by
  funext t
  simp [mapValues]

theorem mapValues_put (f : α → β) (t : Table α) (k : String) (v : α) :
    mapValues f (put t k v) = put (mapValues f t) k (f v) := by
  induction t with
  | nil => rfl
  | cons e t ih =>
    unfold mapValues at ih ⊢
    by_cases h : e.1 = k <;> simp [put, h, ih]

theorem mapValues_ofEntries (f : α → β) (entries : List (String × α)) :
    mapValues f (ofEntries entries) = ofEntries (mapValues f entries) := by
  have hoverlay (t : Table α) : mapValues f (overlay t entries) =
      overlay (mapValues f t) (mapValues f entries) := by
    unfold overlay
    induction entries generalizing t with
    | nil => rfl
    | cons e entries ih =>
      rw [List.foldl_cons, ih, mapValues_put]
      rfl
  exact hoverlay []

theorem filter_put (p : String → Bool) (t : Table α) (k : String) (v : α) :
    (put t k v).filter (fun e => p e.1) =
      if p k then put (t.filter fun e => p e.1) k v else t.filter fun e => p e.1 := by
  induction t with
  | nil => by_cases hp : p k <;> simp [put, hp]
  | cons e t ih =>
    obtain ⟨k', v'⟩ := e
    by_cases hk : k' = k
    · subst hk
      by_cases hp : p k' <;> simp [put, hp]
    · by_cases hp : p k <;> by_cases hp' : p k' <;> simp [put, hk, hp', ih, hp]

theorem filter_ofEntries (p : String → Bool) (entries : List (String × α)) :
    (ofEntries entries).filter (fun e => p e.1) = ofEntries (entries.filter fun e => p e.1) := by
  have hoverlay (t : Table α) : (overlay t entries).filter (fun e => p e.1) =
      overlay (t.filter fun e => p e.1) (entries.filter fun e => p e.1) := by
    unfold overlay
    induction entries generalizing t with
    | nil => rfl
    | cons e entries ih =>
      rw [List.foldl_cons, ih, filter_put]
      by_cases hp : p e.1 <;> simp [hp]
  exact hoverlay []

/-! ### What was written last -/

/-- The entries of tables, written into an empty table one table after the other. -/
def written (ts : List (Table α)) : Table α := overlay [] ts.flatten

/-- The value that was written last under a key, when tables are written out one after the
other. -/
def lastWritten? (ts : List (Table α)) (k : String) : Option α := get? ts.flatten.reverse k

theorem get?_written (ts : List (Table α)) (k : String) :
    get? (written ts) k = lastWritten? ts k := by
  simp [written, lastWritten?, get?_overlay, get?]

/-- Keys stand in the order of their first mention. -/
theorem keys_written (ts : List (Table α)) : keys (written ts) = (keys ts.flatten).eraseDups := by
  unfold written
  induction ts.flatten using List.reverseRecOn with
  | nil => rfl
  | append_singleton u e ih =>
    have hstep : overlay [] (u ++ [e]) = put (overlay [] u) e.1 e.2 := by
      simp [overlay]
    rw [hstep, keys_put, ih]
    simp only [keys, List.map_append, List.map_cons, List.map_nil, List.eraseDups_append,
      List.mem_eraseDups]
    by_cases h : e.1 ∈ List.map Prod.fst u
    · simp [h, List.removeAll]
    · simp [h, List.removeAll, List.eraseDups_cons]

theorem isSome_lastWritten?_iff (ts : List (Table α)) (k : String) :
    (lastWritten? ts k).isSome ↔ ∃ t ∈ ts, k ∈ keys t := by
  rw [lastWritten?, isSome_get?_iff]
  simp only [keys, List.map_reverse, List.mem_reverse, List.map_flatten, List.mem_flatten,
    List.mem_map]
  constructor
  · rintro ⟨_, ⟨t, ht, rfl⟩, hk⟩
    exact ⟨t, ht, List.mem_map.1 hk⟩
  · rintro ⟨t, ht, hk⟩
    exact ⟨_, ⟨t, ht, rfl⟩, List.mem_map.2 hk⟩

theorem exists_of_lastWritten? {ts : List (Table α)} {k : String} {a : α}
    (h : lastWritten? ts k = some a) : ∃ t ∈ ts, get? t.reverse k = some a := by
  unfold lastWritten? at h
  induction ts with
  | nil => cases h
  | cons t ts ih =>
    rw [List.flatten_cons, List.reverse_append, get?_append, Option.or_eq_some_iff] at h
    rcases h with h | ⟨-, h⟩
    · obtain ⟨t', ht', ha⟩ := ih h
      exact ⟨t', List.mem_cons_of_mem _ ht', ha⟩
    · exact ⟨t, List.mem_cons_self, h⟩

theorem lastWritten?_append (earlier later : List (Table α)) (k : String) :
    lastWritten? (earlier ++ later) k = (lastWritten? later k).or (lastWritten? earlier k) := by
  unfold lastWritten?
  rw [List.flatten_append, List.reverse_append, get?_append]

/-- What a table writes under a key stays if no later one has the key. -/
theorem lastWritten?_of_later {t : Table α} {k : String} {a : α} {later : List (Table α)}
    (ht : get? t.reverse k = some a) (hlater : ∀ u ∈ later, k ∉ keys u)
    (earlier : List (Table α)) : lastWritten? (earlier ++ t :: later) k = some a := by
  have hnone : lastWritten? later k = none := by
    rw [← Option.not_isSome_iff_eq_none, isSome_lastWritten?_iff]
    exact fun ⟨u, hu, hk⟩ => hlater u hu hk
  have hfirst : lastWritten? (earlier ++ [t]) k = some a := by
    rw [lastWritten?_append, lastWritten?, List.flatten_singleton, ht, Option.some_or]
  rw [← List.singleton_append, ← List.append_assoc, lastWritten?_append, hnone, hfirst]
  rfl

/-! ### Tables entry by entry -/

/-- Two tables have the same keys in the same order, and related values under them. -/
def Matched (R : String → α → β → Prop) (t : Table α) (u : Table β) : Prop :=
  List.Forall₂ (fun e r => e.1 = r.1 ∧ R e.1 e.2 r.2) t u

namespace Matched

variable {R : String → α → β → Prop} {t : Table α} {u : Table β}

theorem keys_eq (h : Matched R t u) : keys t = keys u := by
  induction h with
  | nil => rfl
  | cons h _ ih =>
    rw [keys, List.map_cons, h.1]
    exact congrArg _ ih

theorem exists_get? (h : Matched R t u) {k : String} {a : α} (ha : get? t k = some a) :
    ∃ b, get? u k = some b ∧ R k a b := by
  induction h with
  | nil => cases ha
  | @cons e r t u h _ ih =>
    obtain ⟨k', a'⟩ := e
    obtain ⟨k'', b'⟩ := r
    obtain rfl : k' = k'' := h.1
    by_cases hk : k' = k
    · subst hk
      obtain rfl : a' = a := by simpa [get?] using ha
      exact ⟨b', by simp [get?], h.2⟩
    · simp only [get?, hk, if_false] at ha ⊢
      exact ih ha

theorem put (h : Matched R t u) {k : String} {a : α} {b : β} (hab : R k a b) :
    Matched R (put t k a) (put u k b) := by
  induction h with
  | nil => exact .cons ⟨rfl, hab⟩ .nil
  | @cons e r t u h hs ih =>
    obtain ⟨k', a'⟩ := e
    obtain ⟨k'', b'⟩ := r
    obtain rfl : k' = k'' := h.1
    by_cases hk : k' = k
    · subst hk
      simp only [Table.put, if_true]
      exact .cons ⟨rfl, hab⟩ hs
    · simp only [Table.put, hk, if_false]
      exact .cons h ih

theorem ofEntries (h : Matched R t u) : Matched R (ofEntries t) (ofEntries u) := by
  have hoverlay (t' : Table α) (u' : Table β) (h' : Matched R t' u') :
      Matched R (overlay t' t) (overlay u' u) := by
    unfold overlay
    induction h generalizing t' u' with
    | nil => exact h'
    | @cons e r t u h _ ih =>
      rw [List.foldl_cons, List.foldl_cons, ← h.1]
      exact ih _ _ (h'.put h.2)
  exact hoverlay [] [] .nil

end Matched

end Table

/-! ### Names -/

namespace Names

theorem mem_insert (ns : Names) (n x : String) : x ∈ insert ns n ↔ x = n ∨ x ∈ ns := by
  induction ns with
  | nil => simp [insert]
  | cons m ns ih =>
    unfold insert
    split_ifs with h₁ h₂
    · simp [h₁]
    · simp
    · rw [List.mem_cons, ih, List.mem_cons]
      tauto

theorem mem_union (a b : Names) (x : String) : x ∈ union a b ↔ x ∈ a ∨ x ∈ b := by
  unfold union
  induction b generalizing a with
  | nil => simp
  | cons n b ih =>
    rw [List.foldl_cons, ih, mem_insert, List.mem_cons]
    tauto

theorem mem_ofList (ns : List String) (x : String) : x ∈ ofList ns ↔ x ∈ ns := by
  have h := mem_union [] ns x
  simpa [union, ofList] using h

theorem sorted_insert {ns : Names} (h : ns.Pairwise (· < ·)) (n : String) :
    (insert ns n).Pairwise (· < ·) := by
  induction ns with
  | nil => exact List.pairwise_singleton _ n
  | cons m ns ih =>
    obtain ⟨hm, hns⟩ := List.pairwise_cons.1 h
    unfold insert
    split_ifs with heq hlt
    · exact h
    · refine List.pairwise_cons.2 ⟨fun x hx => ?_, h⟩
      rcases List.mem_cons.1 hx with rfl | hx
      · exact hlt
      · exact String.lt_trans hlt (hm x hx)
    · have hlt' : m < n := String.not_le.1 fun hle => heq (String.le_antisymm hle (String.not_lt.1 hlt))
      refine List.pairwise_cons.2 ⟨fun x hx => ?_, ih hns⟩
      rcases (mem_insert ns n x).1 hx with rfl | hx
      · exact hlt'
      · exact hm x hx

end Names

end LintConfig
