import LintConfig.Proofs.Cache.Agreement
import Mathlib

/-!
# Failed computations

A computation that fails costs one tick of the clock and nothing else.  A cache whose clock went on
is the cache with later ticks (`SlotCache.delay_clock`), and no call tells the two apart
(`SlotCache.perform_delay`).  So whatever is called later hands out the same, counts the same and
evicts the same as without the failed call (`SlotCache.fetch_failed_unnoticed`).
-/

namespace LintConfig.SlotCache

variable {α ε : Type} {c : SlotCache α} {k : CacheKey} {a : α} {n x y : Nat} {order : Listing}

/-! ### Later ticks -/

/-- Ticks from `n` on are one later. -/
def later (n x : Nat) : Nat := if x < n then x else x + 1

theorem later_le_iff : later n x ≤ later n y ↔ x ≤ y := by
  unfold later
  split <;> split <;> omega

theorem later_succ (h : n ≤ x) : later n (x + 1) = later n x + 1 := by
  unfold later
  split <;> split <;> omega

theorem later_of_lt (h : x < n) : later n x = x := if_pos h

/-- A slot with a later stamp. -/
def delaySlot (n : Nat) (e : CacheKey × Slot α) : CacheKey × Slot α :=
  (e.1, { e.2 with lastAccess := later n e.2.lastAccess })

/-- A cache with later stamps and a later clock. -/
def delay (n : Nat) (c : SlotCache α) : SlotCache α :=
  { c with slots := c.slots.map (delaySlot n), clock := later n c.clock }

/-! ### What is seen of later ticks -/

theorem size_delay (n : Nat) (c : SlotCache α) : (c.delay n).size = c.size := List.length_map _

theorem stats_delay (n : Nat) (c : SlotCache α) : (c.delay n).stats = c.stats := by
  rw [stats, size_delay]
  rfl

theorem contents_delay (n : Nat) (c : SlotCache α) : (c.delay n).contents = c.contents := by
  rw [contents, delay, List.map_map]
  rfl

theorem map_mergeSort_delaySlot (n : Nat) (slots : List (CacheKey × Slot α)) :
    (slots.map (delaySlot n)).mergeSort (fun e f => e.2.lastAccess ≤ f.2.lastAccess) =
      (slots.mergeSort fun e f => e.2.lastAccess ≤ f.2.lastAccess).map (delaySlot n) := by
  refine (List.map_mergeSort fun e _ f _ => ?_).symm
  simp only [delaySlot, later_le_iff]

theorem keys_map_delaySlot (n : Nat) (slots : List (CacheKey × Slot α)) :
    (slots.map (delaySlot n)).map Prod.fst = slots.map Prod.fst := by
  rw [List.map_map]
  rfl

theorem recency_delay (n : Nat) (c : SlotCache α) : (c.delay n).recency = c.recency := by
  rw [recency, delay, map_mergeSort_delaySlot, keys_map_delaySlot]
  rfl

theorem find?_delay (n : Nat) (c : SlotCache α) (k : CacheKey) :
    (c.delay n).find? k =
      (c.find? k).map fun s => { s with lastAccess := later n s.lastAccess } := by
  rw [find?, find?, delay, List.find?_map, Option.map_map, Option.map_map]
  rfl

theorem value?_delay (n : Nat) (c : SlotCache α) (k : CacheKey) :
    (c.delay n).value? k = c.value? k := by
  rw [value?, value?, find?_delay, Option.bind_map]
  rfl

/-! ### Calls with later ticks -/

theorem listed_delay (n : Nat) (c : SlotCache α) (order : Listing) :
    (c.delay n).listed order = (c.listed order).map (delaySlot n) :=
  (List.map_mergeSort (f := delaySlot n) fun _ _ _ _ => rfl).symm

theorem staleKeys_delay (n : Nat) (c : SlotCache α) (order : Listing) (live : Fingerprint) :
    (c.delay n).staleKeys order live = c.staleKeys order live := by
  rw [staleKeys, listed_delay, List.filter_map, keys_map_delaySlot]
  rfl

theorem candidates_delay (n : Nat) (c : SlotCache α) (order : Listing) (k : CacheKey) :
    (c.delay n).candidates order k = c.candidates order k := by
  rw [candidates, listed_delay, List.filter_map, map_mergeSort_delaySlot, keys_map_delaySlot]
  rfl

theorem remove_delay (n : Nat) (c : SlotCache α) (k : CacheKey) :
    (c.delay n).remove k = (c.remove k).delay n := by
  rw [remove, delay, List.filter_map]
  rfl

theorem removeAll_delay (n : Nat) (c : SlotCache α) (ks : List CacheKey) :
    (c.delay n).removeAll ks = ((c.removeAll ks).1, (c.removeAll ks).2.delay n) := by
  induction ks generalizing c with
  | nil => rfl
  | cons k ks ih =>
    rw [removeAll, remove_delay, ih, find?_delay, removeAll]
    cases c.find? k <;> rfl

theorem evict_delay (n : Nat) (c : SlotCache α) (k : CacheKey) :
    (c.delay n).evict k = (c.evict k).delay n := by
  rw [evict, evict, find?_delay, remove_delay]
  cases c.find? k <;> rfl

theorem foldl_evict_delay (n : Nat) (c : SlotCache α) (ks : List CacheKey) :
    ks.foldl evict (c.delay n) = (ks.foldl evict c).delay n := by
  induction ks generalizing c with
  | nil => rfl
  | cons k ks ih => rw [List.foldl_cons, List.foldl_cons, evict_delay, ih]

theorem evictWhileOver_delay (n : Nat) (c : SlotCache α) (ks : List CacheKey) :
    (c.delay n).evictWhileOver ks = (c.evictWhileOver ks).delay n := by
  induction ks generalizing c with
  | nil => rfl
  | cons k ks ih =>
    rw [evictWhileOver, evictWhileOver, evict_delay, ih, size_delay, apply_ite (delay n)]
    rfl

theorem makeRoom_delay (n : Nat) (c : SlotCache α) (order : Listing) (k : CacheKey) :
    (c.delay n).makeRoom order k = (c.makeRoom order k).delay n := by
  unfold makeRoom
  dsimp only
  rw [staleKeys_delay, evictWhileOver_delay, candidates_delay, size_delay, foldl_evict_delay]
  rfl

theorem stamp_delay (h : n ≤ c.clock) (k : CacheKey) (value : Option α) :
    (c.delay n).stamp k value = (c.stamp k value).delay n := by
  have hclock : (c.delay n).clock + 1 = later n (c.clock + 1) := (later_succ h).symm
  have hslots : ((c.delay n).stamp k value).slots = ((c.stamp k value).delay n).slots := by
    rw [stamp, stamp, put, put, remove_delay]
    simp [delay, delaySlot]
  exact congrArg₂ (fun slots clock => { c with slots, clock }) hslots hclock

theorem computed_delay (h : n ≤ c.clock) (k : CacheKey) (a : α) :
    (c.delay n).computed k a = (c.computed k a).delay n :=
  congrArg (fun d : SlotCache α => { d with misses := c.misses + 1 }) (stamp_delay h k (some a))

/-- No call tells later ticks: it hands out the same, and leaves the same with later ticks. -/
theorem perform_delay (hc : Settled c) (h : n ≤ c.clock) (order : Listing)
    (call : Cache.Call α ε) :
    ((c.delay n).perform order call).1 = (c.perform order call).1 ∧
      ((c.delay n).perform order call).2 = ((c.perform order call).2).delay n ∧
        n ≤ (c.perform order call).2.clock := by
  cases call with
  | get k =>
    have hdelay := value?_delay n c k
    cases hvalue : c.value? k with
    | some a =>
      simp only [perform, get_of_some hvalue, get_of_some (hdelay.trans hvalue), stamp_delay h,
        true_and]
      exact Nat.le_succ_of_le h
    | none =>
      simp only [perform, get_of_none hvalue, get_of_none (hdelay.trans hvalue), true_and]
      exact h
  | fetch k result =>
    have hdelay := value?_delay n c k
    cases hvalue : c.value? k with
    | some a =>
      simp only [perform, fetch_of_some hvalue, fetch_of_some (hdelay.trans hvalue), stamp_delay h,
        true_and]
      exact ⟨rfl, Nat.le_succ_of_le h⟩
    | none =>
      cases result with
      | error e =>
        have hnone := hc.find?_eq_none hvalue
        have hnone' : (c.delay n).find? k = none := by rw [find?_delay, hnone]; rfl
        simp only [perform, fetch_error hnone, fetch_error hnone', true_and]
        exact ⟨congrArg (fun clock => { c.delay n with clock }) (later_succ h).symm,
          Nat.le_succ_of_le h⟩
      | ok a =>
        simp only [perform, fetch_ok hvalue, fetch_ok (hdelay.trans hvalue), computed_delay h,
          true_and]
        refine ⟨makeRoom_delay n (c.computed k a) order k, ?_⟩
        rw [(Evicted.makeRoom (hc.computed k a).nodup order k).clock]
        exact Nat.le_succ_of_le h
  | purge live =>
    have hpurge : (c.delay n).purge order live =
        ((c.purge order live).1, (c.purge order live).2.delay n) := by
      rw [purge, staleKeys_delay, removeAll_delay]
      rfl
    simp only [perform, hpurge, true_and]
    exact Nat.le_trans h (Drops.removeAll c _).clock
  | clear => exact ⟨rfl, rfl, h⟩

theorem run_delay (hc : Settled c) (h : n ≤ c.clock) (calls : List (Listing × Cache.Call α ε)) :
    (c.delay n).answers calls = c.answers calls ∧
      (c.delay n).run calls = (c.run calls).delay n := by
  induction calls generalizing c with
  | nil => exact ⟨rfl, rfl⟩
  | cons call calls ih =>
    obtain ⟨hanswer, hafter, hclock⟩ := perform_delay hc h call.1 call.2
    obtain ⟨hanswers, hrun⟩ := ih (hc.perform call.1 call.2) hclock
    refine ⟨?_, ?_⟩
    · rw [answers, answers, hanswer, hafter, hanswers]
    · rw [run, List.foldl_cons, hafter]
      exact hrun

/-! ### A failed call -/

/-- The ticks of all slots are over, so one more tick is all ticks from now on coming one later. -/
theorem delay_clock (hc : Settled c) : c.delay c.clock = { c with clock := c.clock + 1 } := by
  have hslots : c.slots.map (delaySlot c.clock) = c.slots := by
    refine (List.map_congr_left fun e he => ?_).trans (List.map_id _)
    rw [delaySlot, later_of_lt (hc.lt_clock e he)]
    rfl
  have hclock : later c.clock c.clock = c.clock + 1 := if_neg (Nat.lt_irrefl _)
  rw [delay, hslots, hclock]

/-- A computation that fails leaves a cache as it was, however it was used before and however full
it is.  The cache without stamps is what any calls make of the slots, if they are listed in some
orders.  In whatever orders they are listed, a call for a key without slot hands out the error of
its computation, changes neither keys and results nor the order of the last uses nor what was
counted; and whatever is called later hands out, keeps, counts and evicts the same as without it. -/
theorem fetch_failed_unnoticed (capacity : Nat) :
    (∀ calls : List (Cache.Call α ε), ∃ listed : List (Listing × Cache.Call α ε),
      listed.map Prod.snd = calls ∧
      (ofCapacity capacity).answers listed = (Cache.ofCapacity capacity).answers calls ∧
      Shows ((ofCapacity capacity).run listed) ((Cache.ofCapacity capacity).run calls)) ∧
    ∀ (history : List (Listing × Cache.Call α ε)) (order : Listing) (k : CacheKey) (e : ε),
      let c := (ofCapacity capacity).run history
      let failed := c.fetch order k fun _ => (.error e : Except ε α)
      c.find? k = none →
      failed.1 = .error e ∧ failed.2.contents = c.contents ∧ failed.2.recency = c.recency ∧
      failed.2.stats = c.stats ∧
      ∀ next : List (Listing × Cache.Call α ε),
        failed.2.answers next = c.answers next ∧
        (failed.2.run next).contents = (c.run next).contents ∧
        (failed.2.run next).recency = (c.run next).recency ∧
        (failed.2.run next).stats = (c.run next).stats := by
  refine ⟨fun calls => (Shows.ofCapacity capacity).exists_run (Settled.ofCapacity capacity) calls,
    fun history order k e => ?_⟩
  intro c failed hnone
  have hc : Settled c := (Settled.ofCapacity capacity).run history
  have hfailed : failed = (.error e, c.delay c.clock) := by
    rw [delay_clock hc]
    exact fetch_error hnone e
  rw [hfailed]
  refine ⟨rfl, contents_delay _ c, recency_delay _ c, stats_delay _ c, fun next => ?_⟩
  obtain ⟨hanswers, hrun⟩ := run_delay hc (Nat.le_refl _) next
  rw [hrun, contents_delay, recency_delay, stats_delay]
  exact ⟨hanswers, rfl, rfl, rfl⟩

/-! ### A full cache -/

/-- Lists shorter paths first. -/
def byPathLength : Listing := fun k => k.path.length

/-- Two results under two fingerprints, the first of which was handed out again. -/
def crowdedCalls : List (Listing × Cache.Call Nat String) :=
  [(byPathLength, .fetch ⟨"old", ⟨"v1"⟩⟩ (.ok 0)),
    (byPathLength, .fetch ⟨"a", ⟨"v2"⟩⟩ (.ok 1)),
    (byPathLength, .get ⟨"old", ⟨"v1"⟩⟩)]

theorem run_crowdedCalls : (ofCapacity 2).run crowdedCalls =
    ⟨2, [(⟨"a", ⟨"v2"⟩⟩, ⟨some 1, 1⟩), (⟨"old", ⟨"v1"⟩⟩, ⟨some 0, 2⟩)], 3, 0, 2, 0⟩ := by cbv

/-- In a full cache, a failed call is not seen by two calls whose results take the room of the two
that are kept. -/
theorem fetch_failed_unnoticed_full :
    let c := (ofCapacity 2).run crowdedCalls
    let failed := c.fetch byPathLength ⟨"b", ⟨"v2"⟩⟩ fun _ =>
      (.error "fails" : Except String Nat)
    let next : List (Listing × Cache.Call Nat String) :=
      [(byPathLength, .fetch ⟨"b", ⟨"v2"⟩⟩ (.ok 2)),
        (byPathLength, .fetch ⟨"c", ⟨"v2"⟩⟩ (.ok 3))]
    c.find? ⟨"b", ⟨"v2"⟩⟩ = none ∧ c.size = c.capacity ∧ failed.1 = .error "fails" ∧
      failed.2.stats = c.stats ∧ failed.2.answers next = c.answers next ∧
      (failed.2.run next).contents = (c.run next).contents ∧
      (failed.2.run next).stats = (c.run next).stats := by
  intro c failed next
  have hnone : c.find? ⟨"b", ⟨"v2"⟩⟩ = none := by
    unfold c
    rw [run_crowdedCalls]
    rfl
  have hfull : c.size = c.capacity := by
    unfold c
    rw [run_crowdedCalls]
    rfl
  obtain ⟨herror, -, -, hstats, hnext⟩ :=
    (fetch_failed_unnoticed (α := Nat) (ε := String) 2).2 crowdedCalls byPathLength
      ⟨"b", ⟨"v2"⟩⟩ "fails" hnone
  obtain ⟨hanswers, hcontents, -, hcounts⟩ := hnext next
  exact ⟨hnone, hfull, herror, hstats, hanswers, hcontents, hcounts⟩

end LintConfig.SlotCache
