import LintConfig.Cache.Slots
import LintConfig.Proofs.Cache.Calls

/-!
# Calls of a map of slots

A call stamps the slot of the key whose result it hands out, if it hands out any, and apart from
that it only takes slots out (`SlotCache.perform_cases`).  So between calls every slot is filled and
has its own stamp, and the slots stand in the order of their stamps, in whatever orders the map
listed them (`SlotCache.Settled.run`).
-/

namespace LintConfig

namespace Cache

/-- What a call hands out. -/
inductive Answer (α ε : Type) where
  | found (result : Option α)
  | fetched (result : Except ε α)
  | purged (count : Nat)
  | cleared

variable {α ε : Type}

/-- What a call hands out. -/
def Call.answer (c : Cache α) : Call α ε → Answer α ε
  | .get k => .found (c.get k).1
  | .fetch k result => .fetched (c.fetch k fun _ => result).1
  | .purge live => .purged (c.purge live).1
  | .clear => .cleared

/-- The key whose result a call handed out. -/
def Call.accessed? : Call α ε → Answer α ε → Option CacheKey
  | .get k, .found (some _) => some k
  | .fetch k _, .fetched (.ok _) => some k
  | _, _ => none

/-- What calls hand out, one after the other. -/
def answers (c : Cache α) : List (Call α ε) → List (Answer α ε)
  | [] => []
  | call :: calls => call.answer c :: answers (call.after c) calls

end Cache

namespace SlotCache

variable {α ε : Type} {c c' : SlotCache α} {k : CacheKey} {s : Slot α} {a : α} {order : Listing}

/-- What a call hands out, and the cache after it. -/
def perform (c : SlotCache α) (order : Listing) :
    Cache.Call α ε → Cache.Answer α ε × SlotCache α
  | .get k => (.found (c.get k).1, (c.get k).2)
  | .fetch k result =>
    (.fetched (c.fetch order k fun _ => result).1, (c.fetch order k fun _ => result).2)
  | .purge live => (.purged (c.purge order live).1, (c.purge order live).2)
  | .clear => (.cleared, c.clear)

/-- The cache after calls, one after the other, each with the order in which slots are listed. -/
def run (c : SlotCache α) (calls : List (Listing × Cache.Call α ε)) : SlotCache α :=
  calls.foldl (fun c call => (c.perform call.1 call.2).2) c

/-- What calls hand out, one after the other. -/
def answers (c : SlotCache α) : List (Listing × Cache.Call α ε) → List (Cache.Answer α ε)
  | [] => []
  | call :: calls => (c.perform call.1 call.2).1 :: answers (c.perform call.1 call.2).2 calls

/-- The keys of the slots. -/
def keys (c : SlotCache α) : List CacheKey := c.slots.map Prod.fst

/-! ### Slots -/

theorem find?_put (c : SlotCache α) (k : CacheKey) (s : Slot α) : (c.put k s).find? k = some s := by
  have hnone : (c.remove k).slots.find? (fun e => e.1 == k) = none := by
    rw [List.find?_eq_none]
    intro e he
    simpa using (List.mem_filter.1 he).2
  simp [find?, put, List.find?_append, hnone]

theorem put_put (c : SlotCache α) (k : CacheKey) (s t : Slot α) :
    (c.put k s).put k t = c.put k t := by
  simp [put, remove, List.filter_append]

/-- Fills the slot under a key and stamps it, whether there was one or not. -/
def stamp (c : SlotCache α) (k : CacheKey) (value : Option α) : SlotCache α :=
  { c.put k ⟨value, c.clock⟩ with clock := c.clock + 1 }

theorem touch_of_value? (h : c.value? k = some a) : c.touch k = c.stamp k (some a) := by
  obtain ⟨⟨value, lastAccess⟩, hfind, rfl⟩ := Option.bind_eq_some_iff.1 h
  rw [touch, hfind, stamp]

theorem touch_reserve (c : SlotCache α) (k : CacheKey) :
    (c.reserve k).touch k = c.stamp k (c.value? k) := by
  rw [reserve, value?]
  cases hfind : c.find? k with
  | some s => simp only [touch, hfind, stamp, Option.bind_some]
  | none => simp only [touch, find?_put, put_put, stamp, Option.bind_none]; rfl

theorem value?_stamp (c : SlotCache α) (k : CacheKey) (value : Option α) :
    (c.stamp k value).value? k = value :=
  congrArg (Option.bind · Slot.value) (find?_put c k ⟨value, c.clock⟩)

theorem fill_stamp (c : SlotCache α) (k : CacheKey) (value : Option α) (a : α) :
    (c.stamp k value).fill k a = c.stamp k (some a) := by
  have hfind : (c.stamp k value).find? k = some ⟨value, c.clock⟩ := find?_put c k _
  rw [fill, hfind]
  simp only [stamp, put, remove, List.filter_append]
  simp

/-! ### One call -/

theorem get_of_some (h : c.value? k = some a) : c.get k = (some a, c.stamp k (some a)) := by
  rw [get, h]
  simp only [touch_of_value? h]

theorem get_of_none (h : c.value? k = none) : c.get k = (none, c) := by
  rw [get, h]

theorem fetch_of_some (h : c.value? k = some a) (compute : Unit → Except ε α) :
    c.fetch order k compute =
      (.ok a, { c.stamp k (some a) with hits := c.hits + 1 }) := by
  unfold fetch
  simp only [touch_reserve, value?_stamp, h]
  rfl

/-- The cache with a result that was computed, before room is made for it. -/
def computed (c : SlotCache α) (k : CacheKey) (a : α) : SlotCache α :=
  { c.stamp k (some a) with misses := c.misses + 1 }

theorem fetch_ok (h : c.value? k = none) (a : α) :
    (c.fetch order k fun _ => (.ok a : Except ε α)) =
      (.ok a, (c.computed k a).makeRoom order k) := by
  unfold fetch
  simp only [touch_reserve, value?_stamp, h, fill_stamp]
  rfl

theorem find?_eq_none_iff : c.find? k = none ↔ ∀ e ∈ c.slots, e.1 ≠ k := by
  simp [find?]

theorem slots_put_of_none (h : c.find? k = none) (s : Slot α) :
    (c.put k s).slots = c.slots ++ [(k, s)] := by
  have hothers : (c.remove k).slots = c.slots :=
    List.filter_eq_self.2 fun e he => by simpa using find?_eq_none_iff.1 h e he
  rw [put, hothers]

/-- A failed computation leaves nothing behind but a tick. -/
theorem fetch_error (h : c.find? k = none) (e : ε) :
    (c.fetch order k fun _ => (.error e : Except ε α)) =
      (.error e, { c with clock := c.clock + 1 }) := by
  have hvalue : c.value? k = none := by rw [value?, h]; rfl
  have hslots : ((c.stamp k none).discard k).slots = c.slots := by
    have hothers : c.slots.filter (fun e => !(e.1 == k && e.2.value.isNone)) = c.slots :=
      List.filter_eq_self.2 fun e he => by simp [find?_eq_none_iff.1 h e he]
    have hstamp : (c.stamp k none).slots = c.slots ++ [(k, ⟨none, c.clock⟩)] :=
      slots_put_of_none h _
    rw [discard, hstamp, List.filter_append, hothers]
    simp
  unfold fetch
  simp only [touch_reserve, value?_stamp, hvalue]
  exact congrArg (fun slots => (Except.error e, { c with slots, clock := c.clock + 1 })) hslots

/-! ### Eviction -/

theorem keys_remove (c : SlotCache α) (k : CacheKey) :
    (c.remove k).keys = c.keys.filter (· != k) := by
  rw [keys, keys, List.filter_map]
  rfl

theorem keys_stamp (c : SlotCache α) (k : CacheKey) (value : Option α) :
    (c.stamp k value).keys = c.keys.filter (· != k) ++ [k] := by
  rw [← keys_remove]
  exact List.map_append

theorem mem_keys_iff : k ∈ c.keys ↔ (c.find? k).isSome = true := by
  rw [Option.isSome_iff_ne_none, ne_eq, find?_eq_none_iff]
  simp [keys]

theorem mem_keys_of_find? (h : c.find? k = some s) : k ∈ c.keys := mem_keys_iff.2 (by rw [h]; rfl)

theorem mem_keys_of_value? (h : c.value? k = some a) : k ∈ c.keys := by
  obtain ⟨s, hs, -⟩ := Option.bind_eq_some_iff.1 h
  exact mem_keys_of_find? hs

theorem evict_of_mem (h : k ∈ c.keys) :
    c.evict k = { c.remove k with evictions := c.evictions + 1 } := by
  obtain ⟨s, hs⟩ := Option.isSome_iff_exists.1 (mem_keys_iff.1 h)
  rw [evict, hs]

theorem size_remove (hnodup : c.keys.Nodup) (h : k ∈ c.keys) : (c.remove k).size + 1 = c.size := by
  have hsize (d : SlotCache α) : d.size = d.keys.length := (List.length_map _).symm
  rw [hsize, hsize, keys_remove, ← hnodup.erase_eq_filter, List.length_erase_of_mem h]
  exact Nat.sub_add_cancel (List.length_pos_of_mem h)

theorem size_evict (hnodup : c.keys.Nodup) (h : k ∈ c.keys) : (c.evict k).size + 1 = c.size := by
  rw [evict_of_mem h]
  exact size_remove hnodup h

theorem slots_computed (h : c.find? k = none) (a : α) :
    (c.computed k a).slots = c.slots ++ [(k, ⟨some a, c.clock⟩)] :=
  slots_put_of_none h _

theorem size_computed (h : c.find? k = none) (a : α) : (c.computed k a).size = c.size + 1 := by
  rw [size, slots_computed h, List.length_append]
  rfl

theorem size_stamp_of_mem (hnodup : c.keys.Nodup) (h : k ∈ c.keys) (value : Option α) :
    (c.stamp k value).size = c.size := by
  rw [← size_remove hnodup h]
  exact List.length_append

/-- As many keys are evicted as there are too many slots. -/
theorem evictWhileOver_eq (hnodup : c.keys.Nodup) {ks : List CacheKey} (hks : ks.Sublist c.keys) :
    c.evictWhileOver ks = (ks.take (c.size - c.capacity)).foldl evict c := by
  induction ks generalizing c with
  | nil => rw [List.take_nil]; rfl
  | cons k ks ih =>
    have hk : k ∈ c.keys := hks.subset List.mem_cons_self
    rw [evictWhileOver]
    split
    next hroom => rw [Nat.sub_eq_zero_of_le hroom, List.take_zero]; rfl
    next hover =>
      have hkeys : (c.evict k).keys = c.keys.filter (· != k) := by
        rw [evict_of_mem hk]
        exact keys_remove c k
      have hrest : ks.Sublist (c.evict k).keys := by
        have hne : ∀ j ∈ ks, (j != k) = true := fun j hj => by
          simpa using fun heq : j = k => (List.nodup_cons.1 (hnodup.sublist hks)).1 (heq ▸ hj)
        rw [hkeys, ← List.filter_eq_self.2 hne]
        exact ((List.sublist_cons_self k ks).trans hks).filter _
      have hexcess : c.size - c.capacity = (c.evict k).size - (c.evict k).capacity + 1 := by
        have hsize := size_evict hnodup hk
        have hcapacity : (c.evict k).capacity = c.capacity := by rw [evict_of_mem hk]; rfl
        omega
      rw [ih (hkeys ▸ hnodup.filter _) hrest, hexcess, List.take_succ_cons, List.foldl_cons]

theorem slots_remove {e : CacheKey × Slot α} {pre post : List (CacheKey × Slot α)}
    (hnodup : c.keys.Nodup) (hslots : c.slots = pre ++ e :: post) :
    (c.remove e.1).slots = pre ++ post := by
  rw [keys, hslots, List.map_append, List.map_cons, List.nodup_middle, List.nodup_cons] at hnodup
  have hothers : ∀ f ∈ pre ++ post, (f.1 != e.1) = true := by
    intro f hf
    rw [bne_iff_ne]
    intro heq
    refine hnodup.1 ?_
    rw [← List.map_append, ← heq]
    exact List.mem_map_of_mem hf
  rw [remove, hslots, List.filter_append, List.filter_cons_of_neg (by simp), ← List.filter_append]
  exact List.filter_eq_self.2 hothers

theorem evict_eq {e : CacheKey × Slot α} {pre post : List (CacheKey × Slot α)}
    (hnodup : c.keys.Nodup) (hslots : c.slots = pre ++ e :: post) :
    c.evict e.1 = { c with slots := pre ++ post, evictions := c.evictions + 1 } := by
  have hmem : e.1 ∈ c.keys := by simp [keys, hslots]
  rw [evict_of_mem hmem]
  have hremove : c.remove e.1 = { c with slots := pre ++ post } :=
    congrArg (fun slots => { c with slots }) (slots_remove hnodup hslots)
  rw [hremove]

/-- Evicting the keys that satisfy a condition, in order, as many as given. -/
theorem foldl_evict_eq (condition : CacheKey → Bool) (n : Nat) {pre rest : List (CacheKey × Slot α)}
    (hslots : c.slots = pre ++ rest) (hnodup : c.keys.Nodup) :
    (((rest.filter fun e => condition e.1).map Prod.fst).take n).foldl evict c =
      { c with
        slots := pre ++ Cache.dropFirst condition n rest
        evictions := c.evictions + (rest.length - (Cache.dropFirst condition n rest).length) } := by
  induction rest generalizing c pre n with
  | nil => cases n <;> simp [Cache.dropFirst, ← hslots]
  | cons e rest ih =>
    cases n with
    | zero => simp [Cache.dropFirst, ← hslots]
    | succ n =>
      by_cases hcondition : condition e.1 = true
      · have hmem : e.1 ∈ c.keys := by simp [keys, hslots]
        have hrest : (c.evict e.1).slots = pre ++ rest := by rw [evict_eq hnodup hslots]
        have hkeys : (c.evict e.1).keys.Nodup := by
          rw [evict_of_mem hmem]
          exact keys_remove c e.1 ▸ hnodup.filter _
        have hle : (Cache.dropFirst condition n rest).length ≤ rest.length :=
          (Cache.dropFirst_sublist condition n rest).length_le
        rw [List.filter_cons, if_pos hcondition, List.map_cons, List.take_succ_cons,
          List.foldl_cons, ih n hrest hkeys, Cache.dropFirst, if_pos hcondition, evict_of_mem hmem]
        simp only [remove, List.length_cons, SlotCache.mk.injEq, true_and]
        omega
      · have hrest : c.slots = (pre ++ [e]) ++ rest := by simp [hslots]
        rw [List.filter_cons, if_neg hcondition, Cache.dropFirst, if_neg hcondition,
          ih (n + 1) hrest hnodup]
        simp

theorem mem_staleKeys_iff {live : Fingerprint} :
    k ∈ c.staleKeys order live ↔ k ∈ c.keys ∧ k.fingerprint ≠ live := by
  simp only [staleKeys, listed, keys, List.mem_map, List.mem_filter, List.mem_mergeSort, bne_iff_ne]
  constructor
  · rintro ⟨e, ⟨he, hne⟩, rfl⟩
    exact ⟨⟨e, he, rfl⟩, hne⟩
  · rintro ⟨⟨e, he, rfl⟩, hne⟩
    exact ⟨e, ⟨he, hne⟩, rfl⟩

theorem staleKeys_eq_nil {live : Fingerprint} (h : ∀ j ∈ c.keys, j.fingerprint = live)
    (order : Listing) : c.staleKeys order live = [] := by
  refine List.eq_nil_iff_forall_not_mem.2 fun j hj => ?_
  obtain ⟨hj, hstale⟩ := mem_staleKeys_iff.1 hj
  exact hstale (h j hj)

/-- Slots are taken out, and each of them counts as an eviction. -/
structure Evicted (c d : SlotCache α) : Prop where
  slots : d.slots.Sublist c.slots
  clock : d.clock = c.clock
  capacity : d.capacity = c.capacity
  hits : d.hits = c.hits
  misses : d.misses = c.misses
  evictions : d.size + d.evictions = c.size + c.evictions

namespace Evicted

variable {d d' : SlotCache α}

theorem refl (c : SlotCache α) : Evicted c c := ⟨.refl _, rfl, rfl, rfl, rfl, rfl⟩

theorem trans (h : Evicted c d) (h' : Evicted d d') : Evicted c d' where
  slots := h'.slots.trans h.slots
  clock := h'.clock.trans h.clock
  capacity := h'.capacity.trans h.capacity
  hits := h'.hits.trans h.hits
  misses := h'.misses.trans h.misses
  evictions := h'.evictions.trans h.evictions

theorem nodup (h : Evicted c d) (hnodup : c.keys.Nodup) : d.keys.Nodup :=
  hnodup.sublist (h.slots.map _)

theorem evict (hnodup : c.keys.Nodup) (k : CacheKey) : Evicted c (c.evict k) := by
  cases hfind : c.find? k with
  | some s =>
    have hsize := size_remove hnodup (mem_keys_of_find? hfind)
    rw [evict_of_mem (mem_keys_of_find? hfind)]
    refine ⟨List.filter_sublist, rfl, rfl, rfl, rfl, ?_⟩
    change (c.remove k).size + (c.evictions + 1) = c.size + c.evictions
    omega
  | none =>
    rw [SlotCache.evict, hfind]
    exact refl c

theorem foldl (hnodup : c.keys.Nodup) (ks : List CacheKey) :
    Evicted c (ks.foldl SlotCache.evict c) := by
  induction ks generalizing c with
  | nil => exact refl c
  | cons k ks ih => exact (evict hnodup k).trans (ih ((evict hnodup k).nodup hnodup))

theorem evictWhileOver (hnodup : c.keys.Nodup) (ks : List CacheKey) :
    Evicted c (c.evictWhileOver ks) := by
  induction ks generalizing c with
  | nil => exact refl c
  | cons k ks ih =>
    rw [SlotCache.evictWhileOver]
    split
    · exact refl c
    · exact (evict hnodup k).trans (ih ((evict hnodup k).nodup hnodup))

/-- Both the slots under other fingerprints and those with the oldest stamps are evicted. -/
theorem makeRoom (hnodup : c.keys.Nodup) (order : Listing) (k : CacheKey) :
    Evicted c (c.makeRoom order k) :=
  have hfresh := evictWhileOver hnodup (c.staleKeys order k.fingerprint)
  hfresh.trans (foldl (hfresh.nodup hnodup) _)

end Evicted

/-! ### Purging -/

theorem removeAll_snd (c : SlotCache α) (ks : List CacheKey) :
    (c.removeAll ks).2 = { c with slots := c.slots.filter fun e => !ks.contains e.1 } := by
  induction ks generalizing c with
  | nil => simp [removeAll]
  | cons k ks ih =>
    rw [removeAll, ih, remove]
    simp only [List.filter_filter, List.contains_cons, Bool.not_or, bne, Bool.and_comm]

/-- Every slot that is taken out is counted. -/
theorem removeAll_fst_add_size (hnodup : c.keys.Nodup) (ks : List CacheKey) :
    (c.removeAll ks).1 + (c.removeAll ks).2.size = c.size := by
  induction ks generalizing c with
  | nil => exact Nat.zero_add _
  | cons k ks ih =>
    have hrest := ih (keys_remove c k ▸ hnodup.filter _)
    rw [removeAll]
    cases hfind : c.find? k with
    | some s =>
      have hremove := size_remove hnodup (mem_keys_of_find? hfind)
      simp only
      omega
    | none =>
      have hremove : (c.remove k).size = c.size := congrArg List.length
        (List.filter_eq_self.2 fun e he => by simpa using find?_eq_none_iff.1 hfind e he)
      simp only
      omega

/-- Sorting by a number that no two have in common does not depend on the order before. -/
theorem mergeSort_eq_of_perm {β : Type} {f : β → Nat} {l sorted : List β}
    (hsorted : sorted.Pairwise fun x y => f x < f y) (hperm : l.Perm sorted) :
    (l.mergeSort fun x y => f x ≤ f y) = sorted := by
  have hnodup : (sorted.map f).Nodup := List.pairwise_map.2 (hsorted.imp Nat.ne_of_lt)
  have hordered : (l.mergeSort fun x y => f x ≤ f y).Pairwise fun x y => f x ≤ f y := by
    refine (List.pairwise_mergeSort ?_ ?_ l).imp of_decide_eq_true
    · simpa using fun x y z => Nat.le_trans
    · simpa using fun x y => Nat.le_total (f x) (f y)
  have hsame := (List.mergeSort_perm l fun x y => f x ≤ f y).trans hperm
  refine hsame.eq_of_pairwise (fun x y hx hy hle hle' => ?_) hordered (hsorted.imp Nat.le_of_lt)
  exact List.inj_on_of_nodup_map hnodup (hsame.subset hx) hy (Nat.le_antisymm hle hle')

/-! ### Between calls -/

/-- Slots are taken out, and the clock may go on. -/
structure Drops (c d : SlotCache α) : Prop where
  slots : d.slots.Sublist c.slots
  clock : c.clock ≤ d.clock
  capacity : d.capacity = c.capacity

namespace Drops

theorem refl (c : SlotCache α) : Drops c c := ⟨.refl _, Nat.le_refl _, rfl⟩

theorem remove (c : SlotCache α) (k : CacheKey) : Drops c (c.remove k) :=
  ⟨List.filter_sublist, Nat.le_refl _, rfl⟩

theorem removeAll (c : SlotCache α) (ks : List CacheKey) : Drops c (c.removeAll ks).2 := by
  rw [removeAll_snd]
  exact ⟨List.filter_sublist, Nat.le_refl _, rfl⟩

end Drops

/-- Every slot is filled, and the slots stand in the order of their stamps, all of which are older
than the clock. -/
structure Settled (c : SlotCache α) : Prop where
  filled : ∀ e ∈ c.slots, e.2.value.isSome = true
  ascending : c.slots.Pairwise fun e f => e.2.lastAccess < f.2.lastAccess
  lt_clock : ∀ e ∈ c.slots, e.2.lastAccess < c.clock
  nodup : c.keys.Nodup

namespace Settled

theorem ofCapacity (capacity : Nat) : Settled (ofCapacity capacity : SlotCache α) :=
  ⟨nofun, .nil, nofun, List.nodup_nil⟩

theorem drops (h : Settled c) (hdrops : Drops c c') : Settled c' where
  filled e he := h.filled e (hdrops.slots.subset he)
  ascending := h.ascending.sublist hdrops.slots
  lt_clock e he := Nat.lt_of_lt_of_le (h.lt_clock e (hdrops.slots.subset he)) hdrops.clock
  nodup := h.nodup.sublist (hdrops.slots.map _)

theorem stamp (h : Settled c) (k : CacheKey) (a : α) : Settled (c.stamp k (some a)) := by
  have hothers : Settled (c.remove k) := h.drops (.remove c k)
  have hslots : (c.stamp k (some a)).slots = (c.remove k).slots ++ [(k, ⟨some a, c.clock⟩)] := rfl
  have hclock : (c.stamp k (some a)).clock = c.clock + 1 := rfl
  constructor
  · rw [hslots, List.forall_mem_append]
    exact ⟨hothers.filled, by simp⟩
  · rw [hslots, List.pairwise_append]
    refine ⟨hothers.ascending, List.pairwise_singleton _ _, fun e he f hf => ?_⟩
    obtain rfl := List.mem_singleton.1 hf
    exact hothers.lt_clock e he
  · rw [hslots, List.forall_mem_append, hclock]
    exact ⟨fun e he => Nat.lt_succ_of_lt (hothers.lt_clock e he), by simp⟩
  · rw [keys_stamp, List.nodup_append]
    refine ⟨h.nodup.filter _, List.nodup_singleton k, fun j hj i hi => ?_⟩
    obtain rfl := List.mem_singleton.1 hi
    simpa using (List.mem_filter.1 hj).2

theorem computed (h : Settled c) (k : CacheKey) (a : α) : Settled (c.computed k a) :=
  (h.stamp k a).drops ⟨.refl _, Nat.le_refl _, rfl⟩

theorem find?_of_mem (h : Settled c) {e : CacheKey × Slot α} (he : e ∈ c.slots) :
    c.find? e.1 = some e.2 := by
  cases hfind : c.find? e.1 with
  | none => exact absurd rfl (find?_eq_none_iff.1 hfind e he)
  | some s =>
    obtain ⟨f, hf, rfl⟩ := Option.map_eq_some_iff.1 hfind
    have hkey : f.1 = e.1 := by simpa using List.find?_some hf
    rw [List.inj_on_of_nodup_map h.nodup (List.mem_of_find?_eq_some hf) he hkey]

theorem find?_eq_none (h : Settled c) (hvalue : c.value? k = none) : c.find? k = none := by
  rw [find?_eq_none_iff]
  rintro e he rfl
  have hnone : e.2.value = none := by simpa [value?, h.find?_of_mem he] using hvalue
  simpa [hnone] using h.filled e he

/-- Whatever the order in which a map lists its slots, the one with the oldest stamp is the first
candidate. -/
theorem candidates_eq (h : Settled c) (order : Listing) (k : CacheKey) :
    c.candidates order k = (c.slots.filter fun e => e.1 != k).map Prod.fst := by
  have hfilled : (c.slots.filter fun e => e.1 != k && e.2.value.isSome) =
      c.slots.filter fun e => e.1 != k :=
    List.filter_congr fun e he => by simp [h.filled e he]
  have hperm : ((c.listed order).filter fun e => e.1 != k && e.2.value.isSome).Perm
      (c.slots.filter fun e => e.1 != k) :=
    hfilled ▸ (List.mergeSort_perm c.slots _).filter _
  rw [candidates, mergeSort_eq_of_perm (f := fun e => e.2.lastAccess)
    (h.ascending.sublist List.filter_sublist) hperm]

end Settled

/-- What a call does: it takes slots out, after it stamped the slot of the key whose result it hands
out, if it hands out any. -/
theorem perform_cases (hc : Settled c) (order : Listing) (call : Cache.Call α ε) :
    call.accessed? (c.perform order call).1 = none ∧ Drops c (c.perform order call).2 ∨
      ∃ k a, call.accessed? (c.perform order call).1 = some k ∧
        (c.value? k = some a ∨ c.value? k = none) ∧
        Drops (c.stamp k (some a)) (c.perform order call).2 := by
  cases call with
  | get k =>
    cases hvalue : c.value? k with
    | some a =>
      simp only [perform, get_of_some hvalue]
      exact .inr ⟨k, a, rfl, .inl hvalue, .refl _⟩
    | none =>
      simp only [perform, get_of_none hvalue]
      exact .inl ⟨rfl, .refl c⟩
  | fetch k result =>
    cases hvalue : c.value? k with
    | some a =>
      simp only [perform, fetch_of_some hvalue]
      exact .inr ⟨k, a, rfl, .inl hvalue, .refl _, Nat.le_refl _, rfl⟩
    | none =>
      cases result with
      | error e =>
        simp only [perform, fetch_error (hc.find?_eq_none hvalue)]
        exact .inl ⟨rfl, .refl _, Nat.le_succ _, rfl⟩
      | ok a =>
        simp only [perform, fetch_ok hvalue]
        have hroom := Evicted.makeRoom (hc.computed k a).nodup order k
        exact .inr ⟨k, a, rfl, .inr hvalue, hroom.slots, Nat.le_of_eq hroom.clock.symm,
          hroom.capacity⟩
  | purge live => exact .inl ⟨rfl, .removeAll c _⟩
  | clear => exact .inl ⟨rfl, List.nil_sublist _, Nat.le_refl _, rfl⟩

theorem capacity_perform (hc : Settled c) (order : Listing) (call : Cache.Call α ε) :
    (c.perform order call).2.capacity = c.capacity := by
  rcases perform_cases hc order call with ⟨-, hdrops⟩ | ⟨k, a, -, -, hdrops⟩ <;>
    exact hdrops.capacity

namespace Settled

/-- Every call leaves every slot filled and stamped. -/
theorem perform (h : Settled c) (order : Listing) (call : Cache.Call α ε) :
    Settled (c.perform order call).2 := by
  rcases perform_cases h order call with ⟨-, hdrops⟩ | ⟨k, a, -, -, hdrops⟩
  · exact h.drops hdrops
  · exact (h.stamp k a).drops hdrops

theorem run (h : Settled c) (calls : List (Listing × Cache.Call α ε)) :
    Settled (c.run calls) := by
  induction calls generalizing c with
  | nil => exact h
  | cons call calls ih => exact ih (h.perform call.1 call.2)

end Settled

theorem capacity_run (hc : Settled c) (calls : List (Listing × Cache.Call α ε)) :
    (c.run calls).capacity = c.capacity := by
  induction calls generalizing c with
  | nil => rfl
  | cons call calls ih =>
    exact (ih (hc.perform call.1 call.2)).trans (capacity_perform hc call.1 call.2)

end SlotCache

end LintConfig
