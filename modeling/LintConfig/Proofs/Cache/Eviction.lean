import LintConfig.Proofs.Cache.Slots
import Mathlib

/-!
# What a cache evicts

`accesses` says for a list of calls which key each of them accessed, that is found or computed a
result for.  The slots of a map stand in the order in which their keys were last accessed
(`Ordered.run`), and there are never more of them than there is room for (`size_run_le`).  A new
result takes the place of one under another fingerprint, whichever of them the map lists first, and
if there is none it takes that of the result that was not accessed for longest
(`run_fetch_evicts`).
-/

namespace LintConfig.SlotCache

variable {α ε : Type} {c : SlotCache α} {k : CacheKey} {order : Listing}

/-! ### Accesses -/

/-- For every call the key whose result it hands out. -/
def accesses (c : SlotCache α) : List (Listing × Cache.Call α ε) → List (Option CacheKey)
  | [] => []
  | call :: calls =>
    call.2.accessed? (c.perform call.1 call.2).1 :: accesses (c.perform call.1 call.2).2 calls

/-- The number of the last call that accessed a key, counted from one; zero if none did. -/
def lastAccess (log : List (Option CacheKey)) (k : CacheKey) : Nat :=
  log.length - log.reverse.idxOf (some k)

theorem lastAccess_concat (log : List (Option CacheKey)) (x : Option CacheKey) (k : CacheKey) :
    lastAccess (log ++ [x]) k = if x = some k then log.length + 1 else lastAccess log k := by
  unfold lastAccess
  rw [List.reverse_append, List.reverse_singleton, List.singleton_append, List.idxOf_cons]
  by_cases h : x = some k
  · simp [h]
  · have hbeq : (x == some k) = false := by simpa using h
    simp [h, hbeq]

theorem lastAccess_le (log : List (Option CacheKey)) (k : CacheKey) :
    lastAccess log k ≤ log.length :=
  Nat.sub_le _ _

/-- Slots stand in the order of the last accesses of their keys. -/
def Ordered (log : List (Option CacheKey)) (slots : List (CacheKey × Slot α)) : Prop :=
  slots.Pairwise fun e f => lastAccess log e.1 < lastAccess log f.1

namespace Ordered

variable {log : List (Option CacheKey)} {slots : List (CacheKey × Slot α)}

theorem concat_none (h : Ordered log slots) : Ordered (log ++ [none]) slots := by
  refine List.Pairwise.imp (fun {e f} hlt => ?_) h
  simpa [lastAccess_concat] using hlt

theorem sublist {others : List (CacheKey × Slot α)} (h : Ordered log slots)
    (hsub : others.Sublist slots) : Ordered log others :=
  List.Pairwise.sublist hsub h

/-- A slot that is stamped goes last. -/
theorem stamp (h : Ordered log c.slots) (k : CacheKey) (value : Option α) :
    Ordered (log ++ [some k]) (c.stamp k value).slots := by
  have hother (e : CacheKey × Slot α) (he : e ∈ (c.remove k).slots) :
      lastAccess (log ++ [some k]) e.1 = lastAccess log e.1 := by
    have hne : e.1 ≠ k := by simpa using (List.mem_filter.1 he).2
    rw [lastAccess_concat, if_neg fun heq => hne (Option.some.inj heq).symm]
  have hlast : lastAccess (log ++ [some k]) k = log.length + 1 := by
    rw [lastAccess_concat, if_pos rfl]
  refine List.pairwise_append.2 ⟨?_, List.pairwise_singleton _ _, fun e he f hf => ?_⟩
  · refine List.Pairwise.imp_of_mem (fun {e f} he hf hlt => ?_) (h.sublist List.filter_sublist)
    rw [hother e he, hother f hf]
    exact hlt
  · obtain rfl := List.mem_singleton.1 hf
    rw [hother e he, hlast]
    exact Nat.lt_succ_of_le (lastAccess_le log e.1)

/-- A call keeps slots in order. -/
theorem perform (h : Ordered log c.slots) (hc : Settled c) (order : Listing)
    (call : Cache.Call α ε) :
    Ordered (log ++ [call.accessed? (c.perform order call).1]) (c.perform order call).2.slots := by
  rcases perform_cases hc order call with ⟨hnone, hdrops⟩ | ⟨k, a, hsome, -, hdrops⟩
  · rw [hnone]
    exact h.concat_none.sublist hdrops.slots
  · rw [hsome]
    exact (h.stamp k (some a)).sublist hdrops.slots

theorem run (h : Ordered log c.slots) (hc : Settled c)
    (calls : List (Listing × Cache.Call α ε)) :
    Ordered (log ++ accesses c calls) (c.run calls).slots := by
  induction calls generalizing log c with
  | nil => simpa [accesses, SlotCache.run] using h
  | cons call calls ih =>
    have hrest := ih (h.perform hc call.1 call.2) (hc.perform call.1 call.2)
    rwa [List.append_assoc, List.singleton_append] at hrest

end Ordered

/-! ### Making room for one slot -/

theorem evictWhileOver_of_le (h : c.size ≤ c.capacity) (ks : List CacheKey) :
    c.evictWhileOver ks = c := by
  cases ks with
  | nil => rfl
  | cons k ks => rw [evictWhileOver, if_pos h]

/-- Where there is room, nothing is evicted. -/
theorem makeRoom_of_le (h : c.size ≤ c.capacity) (order : Listing) (k : CacheKey) :
    c.makeRoom order k = c := by
  unfold makeRoom
  dsimp only
  rw [evictWhileOver_of_le h, Nat.sub_eq_zero_of_le h, List.take_zero, List.foldl_nil]

section OneTooMany

variable (hc : Settled c) (hsize : c.size = c.capacity + 1)

include hc hsize

/-- The slot under another fingerprint that is listed first goes, and then there is room. -/
theorem makeRoom_of_stale (hstale : ∃ j ∈ c.keys, j.fingerprint ≠ k.fingerprint)
    (order : Listing) :
    ∃ j ∈ c.keys, j.fingerprint ≠ k.fingerprint ∧ c.makeRoom order k = c.evict j := by
  obtain ⟨i, hi, hne⟩ := hstale
  obtain ⟨j, js, hkeys⟩ : ∃ j js, c.staleKeys order k.fingerprint = j :: js :=
    List.exists_cons_of_ne_nil (List.ne_nil_of_mem (mem_staleKeys_iff.2 ⟨hi, hne⟩))
  obtain ⟨hj, hstale⟩ := mem_staleKeys_iff.1 (hkeys ▸ List.mem_cons_self : j ∈ _)
  have hroom : (c.evict j).size ≤ (c.evict j).capacity := by
    have hsmaller := size_evict hc.nodup hj
    rw [(Evicted.evict hc.nodup j).capacity]
    omega
  refine ⟨j, hj, hstale, ?_⟩
  unfold makeRoom
  dsimp only
  rw [hkeys, evictWhileOver, if_neg (by omega), evictWhileOver_of_le hroom,
    Nat.sub_eq_zero_of_le hroom, List.take_zero, List.foldl_nil]

/-- Where no slot is under another fingerprint, that with the oldest stamp goes. -/
theorem makeRoom_of_live (hlive : ∀ j ∈ c.keys, j.fingerprint = k.fingerprint)
    {e : CacheKey × Slot α} {rest : List (CacheKey × Slot α)} (hslots : c.slots = e :: rest)
    (hne : e.1 ≠ k) (order : Listing) : c.makeRoom order k = c.evict e.1 := by
  have hexcess : c.size - c.capacity = 1 := by omega
  unfold makeRoom
  dsimp only
  rw [staleKeys_eq_nil hlive, evictWhileOver, hc.candidates_eq, hexcess, hslots, List.filter_cons,
    if_pos (bne_iff_ne.2 hne), List.map_cons, List.take_succ_cons, List.take_zero,
    List.foldl_cons, List.foldl_nil]

end OneTooMany

/-- Where a new slot is one too many, exactly one of the others goes: one under another fingerprint
if there is any, and otherwise the first. -/
theorem makeRoom_concat (hc : Settled c) {slots : List (CacheKey × Slot α)} {s : Slot α}
    (hslots : c.slots = slots ++ [(k, s)]) (hsize : slots.length = c.capacity)
    (hcapacity : 1 ≤ c.capacity) (order : Listing) :
    ∃ pre e post, slots = pre ++ e :: post ∧
      c.makeRoom order k =
        { c with slots := pre ++ post ++ [(k, s)], evictions := c.evictions + 1 } ∧
      ((∃ f ∈ slots, f.1.fingerprint ≠ k.fingerprint) → e.1.fingerprint ≠ k.fingerprint) ∧
      ((∀ f ∈ slots, f.1.fingerprint = k.fingerprint) → pre = []) := by
  have hover : c.size = c.capacity + 1 := by
    rw [size, hslots, List.length_append, hsize]
    rfl
  have hevict {pre post : List (CacheKey × Slot α)} {e : CacheKey × Slot α}
      (h : slots = pre ++ e :: post) : c.evict e.1 =
        { c with slots := pre ++ post ++ [(k, s)], evictions := c.evictions + 1 } := by
    have hall : c.slots = pre ++ e :: (post ++ [(k, s)]) := by simp [hslots, h]
    rw [evict_eq hc.nodup hall, List.append_assoc]
  have hkeys : c.keys = slots.map Prod.fst ++ [k] := by simp [keys, hslots]
  by_cases hstale : ∃ f ∈ slots, f.1.fingerprint ≠ k.fingerprint
  · obtain ⟨f, hf, hne⟩ := hstale
    obtain ⟨j, hj, hstale, hroom⟩ := makeRoom_of_stale hc hover
      ⟨f.1, by simpa [hkeys] using .inl ⟨f.2, hf⟩, hne⟩ order
    rw [hkeys, List.mem_append, List.mem_singleton] at hj
    obtain ⟨e, he, rfl⟩ := List.mem_map.1 (hj.resolve_right fun heq => hstale (heq ▸ rfl))
    obtain ⟨pre, post, h⟩ := List.append_of_mem he
    exact ⟨pre, e, post, h, hroom.trans (hevict h), fun _ => hstale,
      fun hsame => absurd (hsame e he) hstale⟩
  · have hsame : ∀ f ∈ slots, f.1.fingerprint = k.fingerprint := fun f hf =>
      not_not.1 fun hne => hstale ⟨f, hf, hne⟩
    obtain ⟨e, post, rfl⟩ : ∃ e post, slots = e :: post :=
      List.exists_cons_of_length_pos (by omega)
    have hlive : ∀ j ∈ c.keys, j.fingerprint = k.fingerprint := by
      rw [hkeys, List.forall_mem_append, List.forall_mem_singleton, List.forall_mem_map]
      exact ⟨hsame, rfl⟩
    have hne : e.1 ≠ k := by
      have hnodup := hc.nodup
      rw [hkeys, List.map_cons, List.cons_append, List.nodup_cons] at hnodup
      rintro rfl
      exact hnodup.1 (by simp)
    exact ⟨[], e, post, rfl, (makeRoom_of_live hc hover hlive hslots hne order).trans (hevict rfl),
      fun h => absurd h hstale, fun _ => rfl⟩

/-! ### The number of slots -/

theorem size_makeRoom_le {slots : List (CacheKey × Slot α)} {s : Slot α} (hc : Settled c)
    (hslots : c.slots = slots ++ [(k, s)]) (hsize : slots.length ≤ c.capacity)
    (hcapacity : 1 ≤ c.capacity) (order : Listing) : (c.makeRoom order k).size ≤ c.capacity := by
  have hlength : c.size = slots.length + 1 := by
    rw [size, hslots, List.length_append]
    rfl
  rcases Nat.lt_or_eq_of_le hsize with hroom | hfull
  · rw [makeRoom_of_le (by omega)]
    omega
  · obtain ⟨pre, e, post, rfl, hkept, -⟩ := makeRoom_concat hc hslots hfull hcapacity order
    rw [hkept, ← hfull]
    simp only [size, List.length_append, List.length_cons, List.length_nil]
    omega

theorem size_perform_le (hc : Settled c) (hcapacity : 1 ≤ c.capacity) (hsize : c.size ≤ c.capacity)
    (order : Listing) (call : Cache.Call α ε) : (c.perform order call).2.size ≤ c.capacity := by
  cases call with
  | get k =>
    cases hvalue : c.value? k with
    | some a =>
      simp only [perform, get_of_some hvalue]
      rwa [size_stamp_of_mem hc.nodup (mem_keys_of_value? hvalue)]
    | none =>
      simp only [perform, get_of_none hvalue]
      exact hsize
  | fetch k result =>
    cases hvalue : c.value? k with
    | some a =>
      simp only [perform, fetch_of_some hvalue]
      exact Nat.le_trans
        (Nat.le_of_eq (size_stamp_of_mem hc.nodup (mem_keys_of_value? hvalue) (some a))) hsize
    | none =>
      have hnone := hc.find?_eq_none hvalue
      cases result with
      | error e =>
        simp only [perform, fetch_error hnone]
        exact hsize
      | ok a =>
        simp only [perform, fetch_ok hvalue]
        exact size_makeRoom_le (hc.computed k a) (slots_computed hnone a) hsize hcapacity order
  | purge live => exact Nat.le_trans (Drops.removeAll c _).slots.length_le hsize
  | clear => exact Nat.zero_le _

theorem size_run_le (hc : Settled c) (hcapacity : 1 ≤ c.capacity) (hsize : c.size ≤ c.capacity)
    (calls : List (Listing × Cache.Call α ε)) : (c.run calls).size ≤ c.capacity := by
  induction calls generalizing c with
  | nil => exact hsize
  | cons call calls ih =>
    have hsame := capacity_perform hc call.1 call.2
    rw [← hsame]
    exact ih (hc.perform call.1 call.2) (hsame ▸ hcapacity)
      (hsame ▸ size_perform_le hc hcapacity hsize call.1 call.2)

/-! ### What is evicted -/

/-- However a cache was used, and in whatever orders its slots were listed, it holds as many results
as there is room for at most.  A result for a new key that needs room takes it from exactly one of
the others: from one under another fingerprint if there is any, and otherwise from the one whose
last access is the oldest. -/
theorem run_fetch_evicts (capacity : Nat) (calls : List (Listing × Cache.Call α ε)) :
    let c := (ofCapacity capacity).run calls
    let log := accesses (ofCapacity capacity) calls
    c.size ≤ max 1 capacity ∧ ∀ order k a, c.find? k = none →
      let c' := (c.fetch order k fun _ => (.ok a : Except ε α)).2
      (c.size < max 1 capacity →
        c'.slots = c.slots ++ [(k, ⟨some a, c.clock⟩)] ∧ c'.evictions = c.evictions) ∧
      (c.size = max 1 capacity → ∃ pre e post, c.slots = pre ++ e :: post ∧
        c'.slots = pre ++ post ++ [(k, ⟨some a, c.clock⟩)] ∧ c'.evictions = c.evictions + 1 ∧
        ((∃ f ∈ c.slots, f.1.fingerprint ≠ k.fingerprint) →
          e.1.fingerprint ≠ k.fingerprint) ∧
        ((∀ f ∈ c.slots, f.1.fingerprint = k.fingerprint) →
          ∀ f ∈ pre ++ post, lastAccess log e.1 < lastAccess log f.1)) := by
  intro c log
  have hempty : Settled (ofCapacity capacity : SlotCache α) := .ofCapacity capacity
  have hc : Settled c := hempty.run calls
  have hcapacity : c.capacity = max 1 capacity := capacity_run hempty calls
  have hone : 1 ≤ c.capacity := hcapacity ▸ Nat.le_max_left 1 capacity
  have hnone : Ordered [] (ofCapacity capacity : SlotCache α).slots := List.Pairwise.nil
  have hordered : Ordered log c.slots := hnone.run hempty calls
  rw [← hcapacity]
  refine ⟨hcapacity ▸ size_run_le hempty (Nat.le_max_left 1 capacity) (Nat.zero_le _) calls,
    fun order k a hnew => ?_⟩
  intro c'
  have hslots : (c.computed k a).slots = c.slots ++ [(k, ⟨some a, c.clock⟩)] :=
    slots_computed hnew a
  have hafter : c' = (c.computed k a).makeRoom order k :=
    congrArg Prod.snd (fetch_ok (by rw [value?, hnew]; rfl) a)
  rw [hafter]
  constructor
  · intro hroom
    have hle : (c.computed k a).size ≤ c.capacity := size_computed hnew a ▸ hroom
    rw [makeRoom_of_le hle]
    exact ⟨hslots, rfl⟩
  · intro hfull
    obtain ⟨pre, e, post, hes, hkept, hstale, hfirst⟩ :=
      makeRoom_concat (hc.computed k a) hslots hfull hone order
    rw [hkept]
    refine ⟨pre, e, post, hes, rfl, rfl, hstale, fun hsame => ?_⟩
    obtain rfl := hfirst hsame
    rw [hes] at hordered
    exact (List.pairwise_cons.1 hordered).1

/-- Lists the slot of one path before all others. -/
def listedFirst (path : String) : Listing := fun k => if k.path = path then 0 else 1

/-- A key under the first of two fingerprints. -/
def olderKey (path : String) : CacheKey := ⟨path, ⟨"v1"⟩⟩

/-- A key under the second of two fingerprints. -/
def newerKey (path : String) : CacheKey := ⟨path, ⟨"v2"⟩⟩

/-- Two results for a cache of two. -/
def olderCalls : List (Listing × Cache.Call Nat String) :=
  [(listedFirst "b", .fetch (olderKey "a") (.ok 0)),
    (listedFirst "b", .fetch (olderKey "b") (.ok 1))]

/-- Three results for a cache of two, one of which is handed out again. -/
def recentCalls : List (Listing × Cache.Call Nat String) :=
  [(listedFirst "b", .fetch (olderKey "a") (.ok 0)),
    (listedFirst "b", .fetch (newerKey "a") (.ok 1)),
    (listedFirst "b", .fetch (newerKey "b") (.ok 2)), (listedFirst "b", .get (newerKey "a")),
    (listedFirst "b", .fetch (newerKey "c") (.error "fails"))]

/-- The cache with a third result. -/
def withThird (c : SlotCache Nat) : SlotCache Nat :=
  (c.fetch (listedFirst "b") (newerKey "c") fun _ => (.ok 3 : Except String Nat)).2

theorem run_olderCalls : (ofCapacity 2).run olderCalls =
    ⟨2, [(olderKey "a", ⟨some 0, 0⟩), (olderKey "b", ⟨some 1, 1⟩)], 2, 0, 2, 0⟩ := by cbv

theorem run_recentCalls : (ofCapacity 2).run recentCalls =
    ⟨2, [(newerKey "b", ⟨some 2, 2⟩), (newerKey "a", ⟨some 1, 3⟩)], 5, 0, 3, 1⟩ := by cbv

/-- Of results under another fingerprint the one that is listed first is evicted, although it is the
newer one, and among results under one fingerprint the least recently used one. -/
theorem run_fetch_evicts_oldest :
    let older := (ofCapacity 2).run olderCalls
    let recent := (ofCapacity 2).run recentCalls
    let log := accesses (ofCapacity 2) recentCalls
    (older.find? (newerKey "c") = none ∧ older.size = max 1 2 ∧
      (∃ pre e post, older.slots = pre ++ e :: post ∧
        (withThird older).slots = pre ++ post ++ [(newerKey "c", ⟨some 3, 2⟩)] ∧
        e.1.fingerprint ≠ ⟨"v2"⟩) ∧
      (withThird older).keys = [olderKey "a", newerKey "c"]) ∧
    recent.find? (newerKey "c") = none ∧ recent.size = max 1 2 ∧
    (∀ f ∈ recent.slots, f.1.fingerprint = ⟨"v2"⟩) ∧
    ∃ pre e post, recent.slots = pre ++ e :: post ∧
      (withThird recent).slots = pre ++ post ++ [(newerKey "c", ⟨some 3, 5⟩)] ∧
      ∀ f ∈ pre ++ post, lastAccess log e.1 < lastAccess log f.1 := by
  intro older recent log
  have holder : older = _ := run_olderCalls
  have hrecent : recent = _ := run_recentCalls
  have hnew : older.find? (newerKey "c") = none := by rw [holder]; rfl
  have hfull : older.size = max 1 2 := by rw [holder]; rfl
  have hstale : ∃ f ∈ older.slots, f.1.fingerprint ≠ (newerKey "c").fingerprint := by
    simp [holder, olderKey, newerKey]
  have hlisted : (withThird older).keys = [olderKey "a", newerKey "c"] := by
    rw [holder]
    cbv
  have hnew' : recent.find? (newerKey "c") = none := by rw [hrecent]; rfl
  have hfull' : recent.size = max 1 2 := by rw [hrecent]; rfl
  have hsame : ∀ f ∈ recent.slots, f.1.fingerprint = ⟨"v2"⟩ := by simp [hrecent, newerKey]
  obtain ⟨pre, e, post, hes, hkept, -, hevicted, -⟩ :=
    ((run_fetch_evicts 2 olderCalls).2 (listedFirst "b") (newerKey "c") 3 hnew).2 hfull
  obtain ⟨pre', e', post', hes', hkept', -, -, holdest⟩ :=
    ((run_fetch_evicts 2 recentCalls).2 (listedFirst "b") (newerKey "c") 3 hnew').2 hfull'
  have hclock : ((ofCapacity 2).run olderCalls).clock = 2 := by rw [run_olderCalls]
  have hclock' : ((ofCapacity 2).run recentCalls).clock = 5 := by rw [run_recentCalls]
  rw [hclock] at hkept
  rw [hclock'] at hkept'
  exact ⟨⟨hnew, hfull, ⟨pre, e, post, hes, hkept, hevicted hstale⟩, hlisted⟩, hnew', hfull', hsame,
    pre', e', post', hes', hkept', holdest hsame⟩

end LintConfig.SlotCache
