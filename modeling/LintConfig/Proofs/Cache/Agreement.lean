import LintConfig.Proofs.Cache.Slots

/-!
# The cache without its slots

`Cache` keeps the entries of a map of slots in the order of their stamps, without the stamps.  The
order in which the map lists its slots counts where slots under other fingerprints are evicted, and
nowhere else: where it lists those with the oldest stamp first, every call of the two hands out the
same and leaves the same results and counts (`SlotCache.Shows.perform`).  For any calls there are
such orders (`SlotCache.Shows.exists_run`), and where no call adds a result to others under another
fingerprint every order is one (`SlotCache.Shows.run_of_current`).
-/

namespace LintConfig.SlotCache

variable {α ε : Type} {c : SlotCache α} {d : Cache α} {k : CacheKey} {a : α} {order : Listing}

/-! ### Listing the oldest stamp first -/

/-- Of the slots under other fingerprints, those with the oldest stamp are listed first. -/
def ListsOldestFirst (c : SlotCache α) (order : Listing) (live : Fingerprint) : Prop :=
  c.staleKeys order live = (c.slots.filter fun e => e.1.fingerprint != live).map Prod.fst

/-- The order of the stamps. -/
def ages (c : SlotCache α) : Listing := fun k => ((c.find? k).map Slot.lastAccess).getD 0

theorem ages_of_mem (h : Settled c) {e : CacheKey × Slot α} (he : e ∈ c.slots) :
    c.ages e.1 = e.2.lastAccess := by
  rw [ages, h.find?_of_mem he]
  rfl

theorem listsOldestFirst_ages (h : Settled c) (live : Fingerprint) :
    c.ListsOldestFirst c.ages live := by
  have hlisted : c.listed c.ages = c.slots := by
    refine List.mergeSort_of_pairwise (h.ascending.imp_of_mem fun he hf hlt => ?_)
    rw [decide_eq_true_eq, ages_of_mem h he, ages_of_mem h hf]
    exact Nat.le_of_lt hlt
  rw [ListsOldestFirst, staleKeys, hlisted]

/-- Without slots under other fingerprints every order will do. -/
theorem listsOldestFirst_of_live {live : Fingerprint} (h : ∀ j ∈ c.keys, j.fingerprint = live)
    (order : Listing) : c.ListsOldestFirst order live := by
  have hslots : (c.slots.filter fun e => e.1.fingerprint != live) = [] :=
    List.filter_eq_nil_iff.2 fun e he => by simpa using h e.1 (List.mem_map_of_mem he)
  rw [ListsOldestFirst, staleKeys_eq_nil h, hslots, List.map_nil]

/-- Room is made by dropping the first slots, as in a cache without stamps. -/
theorem makeRoom_eq (h : Settled c) (hlists : c.ListsOldestFirst order k.fingerprint) :
    let fresh := Cache.dropFirst (fun j => j.fingerprint != k.fingerprint)
      (c.slots.length - c.capacity) c.slots
    let kept := Cache.dropFirst (fun j => j != k) (fresh.length - c.capacity) fresh
    c.makeRoom order k =
      { c with slots := kept, evictions := c.evictions + (c.slots.length - kept.length) } := by
  intro fresh kept
  have hsub : fresh.Sublist c.slots := Cache.dropFirst_sublist _ _ _
  have hsub' : kept.Sublist fresh := Cache.dropFirst_sublist _ _ _
  let mid : SlotCache α :=
    { c with slots := fresh, evictions := c.evictions + (c.slots.length - fresh.length) }
  have hmid : c.evictWhileOver (c.staleKeys order k.fingerprint) = mid := by
    rw [hlists, evictWhileOver_eq h.nodup (List.filter_sublist.map _)]
    have hall : c.slots = [] ++ c.slots := rfl
    exact foldl_evict_eq (fun j => j.fingerprint != k.fingerprint) _ hall h.nodup
  have hsettled : Settled mid := h.drops ⟨hsub, Nat.le_refl _, rfl⟩
  have hevictions : c.evictions + (c.slots.length - fresh.length) + (fresh.length - kept.length) =
      c.evictions + (c.slots.length - kept.length) := by
    have hle := hsub.length_le
    have hle' := hsub'.length_le
    omega
  unfold makeRoom
  dsimp only
  rw [hmid, hsettled.candidates_eq, ← hevictions]
  have hall : mid.slots = [] ++ fresh := rfl
  exact foldl_evict_eq (fun j => j != k) _ hall hsettled.nodup

/-! ### Results and counts -/

/-- A cache without stamps holds the results of the slots, and counted the same. -/
structure Shows (c : SlotCache α) (d : Cache α) : Prop where
  contents : c.contents = d.entries.map fun e => (e.1, some e.2)
  capacity : c.capacity = d.capacity
  hits : c.hits = d.hits
  misses : c.misses = d.misses
  evictions : c.evictions = d.evictions

theorem dropFirst_map {β γ : Type} {f : CacheKey × β → CacheKey × γ} (hf : ∀ e, (f e).1 = e.1)
    (condition : CacheKey → Bool) (n : Nat) (es : List (CacheKey × β)) :
    (Cache.dropFirst condition n es).map f = Cache.dropFirst condition n (es.map f) := by
  induction es generalizing n with
  | nil => cases n <;> rfl
  | cons e es ih =>
    cases n with
    | zero => simp only [Cache.dropFirst]
    | succ n =>
      rw [Cache.dropFirst, List.map_cons, Cache.dropFirst, hf, apply_ite (List.map f),
        List.map_cons, ih, ih]

namespace Shows

theorem ofCapacity (capacity : Nat) :
    Shows (ofCapacity capacity : SlotCache α) (Cache.ofCapacity capacity) :=
  ⟨rfl, rfl, rfl, rfl, rfl⟩

theorem size_eq (h : Shows c d) : c.size = d.size := by
  change c.slots.length = d.entries.length
  simpa only [SlotCache.contents, List.length_map] using congrArg List.length h.contents

theorem stats (h : Shows c d) : c.stats = d.stats := by
  rw [SlotCache.stats, Cache.stats, h.capacity, h.hits, h.misses, h.evictions, h.size_eq]

theorem value?_eq (h : Shows c d) (k : CacheKey) : c.value? k = d.find? k := by
  have hcontents : c.value? k = (c.contents.find? fun e => e.1 == k).bind Prod.snd := by
    rw [value?, SlotCache.find?, SlotCache.contents, List.find?_map, Option.bind_map,
      Option.bind_map]
    rfl
  rw [hcontents, h.contents, Cache.find?, List.find?_map, Option.bind_map, Option.map_eq_bind]
  rfl

theorem keys_eq (h : Shows c d) : c.keys = d.keys := by
  have hcontents : c.keys = c.contents.map Prod.fst := by
    rw [keys, SlotCache.contents, List.map_map]
    rfl
  rw [hcontents, h.contents, List.map_map]
  rfl

theorem stamp (h : Shows c d) (k : CacheKey) (a : α) :
    Shows (c.stamp k (some a)) (d.touch k a) := by
  refine ⟨?_, h.capacity, h.hits, h.misses, h.evictions⟩
  have hcontents : (c.stamp k (some a)).contents =
      (c.contents.filter fun e => e.1 != k) ++ [(k, some a)] := by
    rw [SlotCache.contents, SlotCache.contents, List.filter_map]
    simp [SlotCache.stamp, put, remove, Function.comp_def]
  rw [hcontents, h.contents, List.filter_map, Cache.touch, Cache.without]
  simp [Function.comp_def]

theorem makeRoom (h : Shows c d) (hc : Settled c)
    (hlists : c.ListsOldestFirst order k.fingerprint) :
    Shows (c.makeRoom order k) (d.makeRoom k) := by
  have hlength {slots : List (CacheKey × Slot α)} {entries : List (CacheKey × α)}
      (hsame : slots.map (fun e => (e.1, e.2.value)) = entries.map fun e => (e.1, some e.2)) :
      slots.length = entries.length := by
    simpa only [List.length_map] using congrArg List.length hsame
  have hdrop (condition : CacheKey → Bool) {slots : List (CacheKey × Slot α)}
      {entries : List (CacheKey × α)}
      (hsame : slots.map (fun e => (e.1, e.2.value)) = entries.map fun e => (e.1, some e.2)) :
      (Cache.dropFirst condition (slots.length - c.capacity) slots).map
          (fun e => (e.1, e.2.value)) =
        (Cache.dropFirst condition (entries.length - d.capacity) entries).map
          fun e => (e.1, some e.2) := by
    rw [dropFirst_map (f := fun e : CacheKey × Slot α => (e.1, e.2.value)) fun _ => rfl,
      dropFirst_map (f := fun e : CacheKey × α => (e.1, some e.2)) fun _ => rfl, hsame,
      hlength hsame, h.capacity]
  have hkept := hdrop (fun j => j != k) (hdrop (fun j => j.fingerprint != k.fingerprint) h.contents)
  rw [makeRoom_eq hc hlists]
  refine ⟨hkept, h.capacity, h.hits, h.misses, ?_⟩
  exact congrArg₂ (· + ·) h.evictions (congrArg₂ (· - ·) h.size_eq (hlength hkept))

theorem computed (h : Shows c d) (k : CacheKey) (a : α) :
    Shows (c.computed k a) { d.touch k a with misses := d.misses + 1 } :=
  have hstamp := h.stamp k a
  ⟨hstamp.contents, hstamp.capacity, hstamp.hits, congrArg (· + 1) h.misses, hstamp.evictions⟩

end Shows

/-! ### Calls -/

/-- A purge keeps the slots under the live fingerprint, in whatever order they are listed. -/
theorem purge_eq (c : SlotCache α) (order : Listing) (live : Fingerprint) :
    (c.purge order live).2 =
      { c with slots := c.slots.filter fun e => e.1.fingerprint == live } := by
  have hspared (e : CacheKey × Slot α) (he : e ∈ c.slots) :
      (!(c.staleKeys order live).contains e.1) = (e.1.fingerprint == live) := by
    rw [Bool.eq_iff_iff, Bool.not_eq_true', List.contains_eq_mem, decide_eq_false_iff_not,
      mem_staleKeys_iff, beq_iff_eq, not_and_not_right]
    exact ⟨fun hlive => hlive (List.mem_map_of_mem he), fun hlive _ => hlive⟩
  rw [purge, removeAll_snd, List.filter_congr hspared]

namespace Shows

theorem purge (h : Shows c d) (hc : Settled c) (order : Listing) (live : Fingerprint) :
    (c.purge order live).1 = (d.purge live).1 ∧
      Shows (c.purge order live).2 (d.purge live).2 := by
  have hkept : Shows (c.purge order live).2 (d.purge live).2 := by
    rw [purge_eq]
    refine ⟨?_, h.capacity, h.hits, h.misses, h.evictions⟩
    calc (c.slots.filter fun e => e.1.fingerprint == live).map (fun e => (e.1, e.2.value))
      _ = c.contents.filter fun e => e.1.fingerprint == live := by
        rw [SlotCache.contents, List.filter_map]
        rfl
      _ = (d.purge live).2.entries.map fun e => (e.1, some e.2) := by
        rw [h.contents, List.filter_map]
        rfl
  have hcount : (c.purge order live).1 + (c.purge order live).2.size = c.size :=
    removeAll_fst_add_size hc.nodup _
  have hcount' : (d.purge live).1 = d.size - (d.purge live).2.size := rfl
  refine ⟨?_, hkept⟩
  rw [hcount', ← h.size_eq, ← hkept.size_eq]
  omega

/-- Every call hands out what it hands out without stamps, and leaves the same, if a new result is
added to slots the stale ones of which are listed the oldest stamp first. -/
theorem perform (h : Shows c d) (hc : Settled c) {call : Cache.Call α ε}
    (hlists : ∀ k a, call = .fetch k (.ok a) →
      (c.computed k a).ListsOldestFirst order k.fingerprint) :
    (c.perform order call).1 = call.answer d ∧
      Shows (c.perform order call).2 (call.after d) := by
  cases call with
  | get k =>
    cases hvalue : d.find? k with
    | some a =>
      simp only [SlotCache.perform, Cache.Call.answer, Cache.Call.after, Cache.get_of_some hvalue,
        get_of_some ((h.value?_eq k).trans hvalue), true_and]
      exact h.stamp k a
    | none =>
      simp only [SlotCache.perform, Cache.Call.answer, Cache.Call.after, Cache.get_of_none hvalue,
        get_of_none ((h.value?_eq k).trans hvalue), true_and]
      exact h
  | fetch k result =>
    cases hvalue : d.find? k with
    | some a =>
      simp only [SlotCache.perform, Cache.Call.answer, Cache.Call.after,
        Cache.fetch_of_some hvalue, fetch_of_some ((h.value?_eq k).trans hvalue), true_and]
      obtain ⟨hcontents, hcapacity, hhits, hmisses, hevictions⟩ := h.stamp k a
      exact ⟨hcontents, hcapacity, congrArg (· + 1) h.hits, hmisses, hevictions⟩
    | none =>
      have hnone := (h.value?_eq k).trans hvalue
      cases result with
      | error e =>
        simp only [SlotCache.perform, Cache.Call.answer, Cache.Call.after,
          Cache.fetch_error hvalue, fetch_error (hc.find?_eq_none hnone), true_and]
        exact ⟨h.contents, h.capacity, h.hits, h.misses, h.evictions⟩
      | ok a =>
        simp only [SlotCache.perform, Cache.Call.answer, Cache.Call.after, Cache.fetch_ok hvalue,
          fetch_ok hnone, true_and]
        exact (h.computed k a).makeRoom (hc.computed k a) (hlists k a rfl)
  | purge live =>
    obtain ⟨hcount, hkept⟩ := h.purge hc order live
    exact ⟨congrArg Cache.Answer.purged hcount, hkept⟩
  | clear => exact ⟨rfl, rfl, h.capacity, h.hits, h.misses, h.evictions⟩

/-! ### Some order -/

/-- For every call there is an order that lists the oldest stamp first. -/
theorem exists_perform (h : Shows c d) (hc : Settled c) (call : Cache.Call α ε) :
    ∃ order, (c.perform order call).1 = call.answer d ∧
      Shows (c.perform order call).2 (call.after d) := by
  by_cases hnew : ∃ k a, call = .fetch k (.ok a)
  · obtain ⟨k, a, rfl⟩ := hnew
    refine ⟨(c.computed k a).ages, h.perform hc fun j b heq => ?_⟩
    cases heq
    exact listsOldestFirst_ages (hc.computed k a) k.fingerprint
  · exact ⟨c.ages, h.perform hc fun k a heq => absurd ⟨k, a, heq⟩ hnew⟩

/-- However a cache without stamps is called, a map of slots hands out the same for some orders of
listing them, and holds the same results. -/
theorem exists_run (h : Shows c d) (hc : Settled c) (calls : List (Cache.Call α ε)) :
    ∃ listed : List (Listing × Cache.Call α ε), listed.map Prod.snd = calls ∧
      c.answers listed = d.answers calls ∧ Shows (c.run listed) (d.run calls) := by
  induction calls generalizing c d with
  | nil => exact ⟨[], rfl, rfl, h⟩
  | cons call calls ih =>
    obtain ⟨order, hanswer, hafter⟩ := h.exists_perform hc call
    obtain ⟨listed, rfl, hanswers, hrun⟩ := ih hafter (hc.perform order call)
    exact ⟨(order, call) :: listed, rfl, congrArg₂ List.cons hanswer hanswers, hrun⟩

/-! ### Every order -/

/-- Where no slot is under another fingerprint than a new result, every order will do. -/
theorem perform_of_current (h : Shows c d) (hc : Settled c) {call : Cache.Call α ε}
    (hcurrent : call.Current d) (order : Listing) :
    (c.perform order call).1 = call.answer d ∧
      Shows (c.perform order call).2 (call.after d) := by
  refine h.perform hc fun k a heq => ?_
  obtain rfl := heq
  refine listsOldestFirst_of_live (fun j hj => ?_) order
  have hkeys : (c.computed k a).keys = c.keys.filter (· != k) ++ [k] := keys_stamp c k (some a)
  rw [hkeys, h.keys_eq, List.mem_append, List.mem_singleton] at hj
  rcases hj with hj | rfl
  · exact hcurrent j (List.mem_filter.1 hj).1
  · rfl

/-- So do calls one after the other, whatever the orders are. -/
theorem run_of_current (h : Shows c d) (hc : Settled c)
    (calls : List (Listing × Cache.Call α ε)) (hcurrent : d.Current (calls.map Prod.snd)) :
    c.answers calls = d.answers (calls.map Prod.snd) ∧
      Shows (c.run calls) (d.run (calls.map Prod.snd)) := by
  induction calls generalizing c d with
  | nil => exact ⟨rfl, h⟩
  | cons call calls ih =>
    obtain ⟨hanswer, hafter⟩ := h.perform_of_current hc hcurrent.1 call.1
    obtain ⟨hanswers, hrun⟩ := ih hafter (hc.perform call.1 call.2) hcurrent.2
    exact ⟨congrArg₂ List.cons hanswer hanswers, hrun⟩

end Shows

end LintConfig.SlotCache
