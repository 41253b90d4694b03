import LintConfig.Proofs.Cache.Slots
import Mathlib

/-!
# What a cache counts

`fetchM` is `fetch` for a computation with effects, by which it can be seen whether the computation
runs.  A `Tally` counts what happens in calls of a cache, from outside: computations that ran and
succeeded, requests that were answered, and results that were dropped on request.  The counters of
the cache agree with it after any calls (`Accounted.run`), and a result that was computed is handed
out unchanged, and no computation runs in its place, until it is dropped (`run_accounts`).  In
whatever orders the map lists its slots, each slot that it takes out is counted once.
-/

namespace LintConfig.SlotCache

variable {α ε : Type} {c : SlotCache α} {k : CacheKey} {a : α} {order : Listing}

/-! ### Computations with effects -/

section Effects

variable {m : Type → Type} [Monad m]

/-- The result under a key, computed if it is missing; the effects of the computation take place if
it runs. -/
def fetchM (c : SlotCache α) (order : Listing) (k : CacheKey) (compute : m (Except ε α)) :
    m (Except ε α × SlotCache α) :=
  let c := (c.reserve k).touch k
  match c.value? k with
  | some a => pure (.ok a, { c with hits := c.hits + 1 })
  | none => do
    match ← compute with
    | .ok a => pure (.ok a, { c.fill k a with misses := c.misses + 1 }.makeRoom order k)
    | .error e => pure (.error e, c.discard k)

/-- A computation in whose place a result is kept does not run. -/
theorem fetchM_of_some (h : c.value? k = some a) (order : Listing) (compute : m (Except ε α)) :
    c.fetchM order k compute =
      pure (.ok a, { c.stamp k (some a) with hits := c.hits + 1 }) := by
  unfold fetchM
  simp only [touch_reserve, value?_stamp, h]
  rfl

/-- Otherwise it runs once, and what it results in is treated as by `fetch`. -/
theorem fetchM_of_none [LawfulMonad m] (h : c.value? k = none) (order : Listing)
    (compute : m (Except ε α)) : c.fetchM order k compute =
      (fun result => c.fetch order k fun _ => result) <$> compute := by
  unfold fetchM fetch
  simp only [touch_reserve, value?_stamp, h, map_eq_pure_bind]
  refine congrArg (compute >>= ·) (funext fun result => ?_)
  cases result <;> rfl

end Effects

/-! ### Tallies -/

/-- What happened in calls of a cache. -/
structure Tally where
  /-- Computations that ran and succeeded. -/
  computed : Nat := 0
  /-- Requests for a result that were answered with one. -/
  answered : Nat := 0
  /-- Results dropped by `purge`. -/
  purged : Nat := 0
  /-- Results dropped by `clear`. -/
  cleared : Nat := 0

/-- A computation that counts its successes. -/
def counting (result : Except ε α) : StateM Nat (Except ε α) := do
  if result.isOk then modify (· + 1)
  return result

/-- Adds a call to a tally. -/
def tallyCall (c : SlotCache α) (t : Tally) (order : Listing) : Cache.Call α ε → Tally
  | .get _ => t
  | .fetch k result =>
    let ((answer, _), computed) := (c.fetchM order k (counting result)).run t.computed
    { t with computed, answered := t.answered + if answer.isOk then 1 else 0 }
  | .purge live => { t with purged := t.purged + (c.purge order live).1 }
  | .clear => { t with cleared := t.cleared + c.size }

/-- Adds calls to a tally, one after the other. -/
def tally (c : SlotCache α) (t : Tally) : List (Listing × Cache.Call α ε) → Tally
  | [] => t
  | call :: calls => tally (c.perform call.1 call.2).2 (c.tallyCall t call.1 call.2) calls

/-- A computation that counts runs where no result is kept, and is treated as by `fetch`. -/
theorem run_fetchM_counting (c : SlotCache α) (order : Listing) (k : CacheKey)
    (result : Except ε α) (n : Nat) :
    (c.fetchM order k (counting result)).run n =
      (c.fetch order k fun _ => result,
        if c.value? k = none ∧ result.isOk = true then n + 1 else n) := by
  cases hvalue : c.value? k with
  | some a =>
    rw [fetchM_of_some hvalue, fetch_of_some hvalue]
    rfl
  | none =>
    rw [fetchM_of_none hvalue]
    cases result <;> rfl

theorem tallyCall_fetch_of_some (h : c.value? k = some a) (t : Tally) (order : Listing)
    (result : Except ε α) :
    c.tallyCall t order (.fetch k result) = { t with answered := t.answered + 1 } := by
  simp [tallyCall, run_fetchM_counting, fetch_of_some h, h, Except.isOk, Except.toBool]

theorem tallyCall_fetch_error (hc : Settled c) (h : c.value? k = none) (t : Tally)
    (order : Listing) (e : ε) :
    c.tallyCall t order (.fetch k (.error e : Except ε α)) = t := by
  simp [tallyCall, run_fetchM_counting, fetch_error (hc.find?_eq_none h), Except.isOk,
    Except.toBool]

theorem tallyCall_fetch_ok (h : c.value? k = none) (t : Tally) (order : Listing) (a : α) :
    c.tallyCall t order (.fetch k (.ok a : Except ε α)) =
      { t with computed := t.computed + 1, answered := t.answered + 1 } := by
  simp [tallyCall, run_fetchM_counting, fetch_ok h, h, Except.isOk, Except.toBool]

/-! ### The counters -/

/-- The counters of a cache agree with a tally. -/
structure Accounted (t : Tally) (c : SlotCache α) : Prop where
  misses : c.misses = t.computed
  requests : c.hits + c.misses = t.answered
  slots : c.misses = c.size + c.evictions + t.purged + t.cleared

namespace Accounted

variable {t : Tally}

theorem ofCapacity (capacity : Nat) : Accounted {} (ofCapacity capacity : SlotCache α) :=
  ⟨rfl, rfl, rfl⟩

/-- A call leaves the counters in agreement. -/
theorem perform (h : Accounted t c) (hc : Settled c) (order : Listing) (call : Cache.Call α ε) :
    Accounted (c.tallyCall t order call) (c.perform order call).2 := by
  obtain ⟨hmisses, hrequests, hslots⟩ := h
  cases call with
  | get k =>
    cases hvalue : c.value? k with
    | some a =>
      simp only [SlotCache.perform, get_of_some hvalue, tallyCall]
      refine ⟨hmisses, hrequests, ?_⟩
      rw [size_stamp_of_mem hc.nodup (mem_keys_of_value? hvalue)]
      exact hslots
    | none =>
      simp only [SlotCache.perform, get_of_none hvalue, tallyCall]
      exact ⟨hmisses, hrequests, hslots⟩
  | fetch k result =>
    cases hvalue : c.value? k with
    | some a =>
      simp only [SlotCache.perform, fetch_of_some hvalue, tallyCall_fetch_of_some hvalue]
      have hsize := size_stamp_of_mem hc.nodup (mem_keys_of_value? hvalue) (some a)
      refine ⟨hmisses, ?_, ?_⟩
      · change c.hits + 1 + c.misses = t.answered + 1
        omega
      · change c.misses = (c.stamp k (some a)).size + c.evictions + t.purged + t.cleared
        rw [hsize]
        exact hslots
    | none =>
      cases result with
      | error e =>
        simp only [SlotCache.perform, fetch_error (hc.find?_eq_none hvalue),
          tallyCall_fetch_error hc hvalue]
        exact ⟨hmisses, hrequests, hslots⟩
      | ok a =>
        simp only [SlotCache.perform, fetch_ok hvalue, tallyCall_fetch_ok hvalue]
        -- the new slot adds one to the misses and to the size, before room is made
        have hsize := size_computed (hc.find?_eq_none hvalue) a
        obtain ⟨-, -, -, hhits, hmisses', hevictions⟩ :=
          Evicted.makeRoom (hc.computed k a).nodup order k
        change _ = c.hits at hhits
        change _ = c.misses + 1 at hmisses'
        change _ = _ + c.evictions at hevictions
        refine ⟨?_, ?_, ?_⟩
        · change _ = t.computed + 1
          omega
        · change _ = t.answered + 1
          omega
        · change _ = _ + _ + t.purged + t.cleared
          omega
  | purge live =>
    have hcount : (c.purge order live).1 + (c.purge order live).2.size = c.size :=
      removeAll_fst_add_size hc.nodup _
    obtain ⟨hhits, hmisses', hevictions⟩ : (c.purge order live).2.hits = c.hits ∧
        (c.purge order live).2.misses = c.misses ∧
        (c.purge order live).2.evictions = c.evictions := by
      rw [purge, removeAll_snd]
      exact ⟨rfl, rfl, rfl⟩
    refine ⟨hmisses'.trans hmisses, ?_, ?_⟩
    · change (c.purge order live).2.hits + (c.purge order live).2.misses = t.answered
      omega
    · change (c.purge order live).2.misses = (c.purge order live).2.size +
        (c.purge order live).2.evictions + (t.purged + (c.purge order live).1) + t.cleared
      omega
  | clear =>
    refine ⟨hmisses, hrequests, ?_⟩
    change c.misses = 0 + c.evictions + t.purged + (t.cleared + c.size)
    omega

theorem run (h : Accounted t c) (hc : Settled c) (calls : List (Listing × Cache.Call α ε)) :
    Accounted (c.tally t calls) (c.run calls) := by
  induction calls generalizing t c with
  | nil => exact h
  | cons call calls ih => exact ih (h.perform hc call.1 call.2) (hc.perform call.1 call.2)

end Accounted

/-! ### Results that are kept -/

/-- Whether a call drops the result under a key: by an eviction, a purge or a clearing. -/
def Forgets (c : SlotCache α) (k : CacheKey) (order : Listing) : Cache.Call α ε → Prop
  | .get _ => False
  | .fetch j result =>
    c.evictions < (c.fetch order j fun _ => result).2.evictions ∧
      (c.fetch order j fun _ => result).2.find? k = none
  | .purge live => k.fingerprint ≠ live
  | .clear => True

theorem value?_eq_some_iff (hc : Settled c) :
    c.value? k = some a ↔ ∃ s, (k, s) ∈ c.slots ∧ s.value = some a := by
  constructor
  · intro h
    obtain ⟨s, hs, hvalue⟩ := Option.bind_eq_some_iff.1 h
    obtain ⟨⟨j, t⟩, hmem, rfl⟩ := Option.map_eq_some_iff.1 hs
    obtain rfl : j = k := by simpa using List.find?_some hmem
    exact ⟨t, List.mem_of_find?_eq_some hmem, hvalue⟩
  · rintro ⟨s, hmem, hvalue⟩
    rw [value?, hc.find?_of_mem hmem]
    exact hvalue

theorem mem_keys_stamp {j : CacheKey} {value : Option α} (h : k ∈ c.keys) :
    k ∈ (c.stamp j value).keys := by
  rw [keys_stamp, List.mem_append, List.mem_filter, List.mem_singleton]
  by_cases hjk : k = j
  · exact .inr hjk
  · exact .inl ⟨h, bne_iff_ne.2 hjk⟩

/-- Where nothing is evicted, making room takes out nothing. -/
theorem slots_makeRoom_of_evictions (hnodup : c.keys.Nodup)
    (h : (c.makeRoom order k).evictions ≤ c.evictions) : (c.makeRoom order k).slots = c.slots := by
  have hroom := Evicted.makeRoom hnodup order k
  have hcount := hroom.evictions
  exact hroom.slots.eq_of_length_le (by unfold size at hcount; omega)

/-- A key keeps its slot as long as no call drops it. -/
theorem mem_keys_perform (hc : Settled c) (h : k ∈ c.keys) {call : Cache.Call α ε}
    (hkept : ¬ c.Forgets k order call) : k ∈ (c.perform order call).2.keys := by
  cases call with
  | get j =>
    cases hvalue : c.value? j with
    | some b =>
      simp only [perform, get_of_some hvalue]
      exact mem_keys_stamp h
    | none =>
      simp only [perform, get_of_none hvalue]
      exact h
  | fetch j result =>
    rw [Forgets] at hkept
    cases hvalue : c.value? j with
    | some b =>
      simp only [perform, fetch_of_some hvalue]
      exact mem_keys_stamp h
    | none =>
      cases result with
      | error e =>
        simp only [perform, fetch_error (hc.find?_eq_none hvalue)]
        exact h
      | ok b =>
        simp only [perform, fetch_ok hvalue] at hkept ⊢
        by_cases hevicted : c.evictions < ((c.computed j b).makeRoom order j).evictions
        · exact mem_keys_iff.2 (Option.isSome_iff_ne_none.2 fun hnone => hkept ⟨hevicted, hnone⟩)
        · have hslots := slots_makeRoom_of_evictions (hc.computed j b).nodup
            (Nat.le_of_not_lt hevicted)
          rw [keys, hslots]
          exact mem_keys_stamp h
  | purge live =>
    have hlive : k.fingerprint = live := not_not.1 hkept
    obtain ⟨e, he, rfl⟩ := List.mem_map.1 h
    have hspared : ¬ e.1 ∈ c.staleKeys order live := fun hmem => (mem_staleKeys_iff.1 hmem).2 hlive
    simp only [perform, purge, removeAll_snd]
    exact List.mem_map_of_mem (List.mem_filter.2 ⟨he, by simpa using hspared⟩)
  | clear => exact absurd trivial hkept

/-- A result that is not dropped stays as it is. -/
theorem value?_perform (hc : Settled c) (h : c.value? k = some a) {call : Cache.Call α ε}
    (hkept : ¬ c.Forgets k order call) : (c.perform order call).2.value? k = some a := by
  have hafter := hc.perform order call
  obtain ⟨⟨_, s⟩, hs, rfl⟩ := List.mem_map.1 (mem_keys_perform hc (mem_keys_of_value? h) hkept)
  obtain ⟨b, hb⟩ := Option.isSome_iff_exists.1 (hafter.filled _ hs)
  rw [(value?_eq_some_iff hafter).2 ⟨s, hs, hb⟩, ← h]
  -- what is found was there before, or was found by the call itself
  rcases perform_cases hc order call with ⟨-, hdrops⟩ | ⟨j, d, -, hfound, hdrops⟩
  · exact ((value?_eq_some_iff hc).2 ⟨s, hdrops.slots.subset hs, hb⟩).symm
  · rcases List.mem_append.1 (hdrops.slots.subset hs) with hs | hs
    · exact ((value?_eq_some_iff hc).2 ⟨s, (List.mem_filter.1 hs).1, hb⟩).symm
    · obtain ⟨rfl, rfl⟩ := Prod.mk.inj (List.mem_singleton.1 hs)
      rcases hfound with hfound | hnone
      · exact hb.symm.trans hfound.symm
      · rw [h] at hnone
        cases hnone

/-- A result stays as it is through calls none of which drops it. -/
theorem value?_run (hc : Settled c) (h : c.value? k = some a)
    {calls : List (Listing × Cache.Call α ε)}
    (hkept : ∀ pre call post, calls = pre ++ call :: post →
      ¬ (c.run pre).Forgets k call.1 call.2) : (c.run calls).value? k = some a := by
  induction calls generalizing c with
  | nil => exact h
  | cons call calls ih =>
    refine ih (hc.perform call.1 call.2) (value?_perform hc h (hkept [] call calls rfl)) ?_
    rintro pre next post rfl
    exact hkept (call :: pre) next post rfl

/-! ### The slot that room is made for -/

theorem find?_evict_of_ne {j : CacheKey} (hne : j ≠ k) : (c.evict j).find? k = c.find? k := by
  have hremove : (c.remove j).find? k = c.find? k := by
    rw [find?, find?, remove, List.find?_filter]
    refine congrArg (Option.map Prod.snd) (congrArg (c.slots.find? ·) (funext fun e => ?_))
    by_cases he : e.1 = k <;> simp [he, hne.symm]
  rw [evict]
  split
  · exact hremove
  · rfl

theorem find?_foldl_evict {ks : List CacheKey} (hks : ∀ j ∈ ks, j ≠ k) :
    (ks.foldl evict c).find? k = c.find? k := by
  induction ks generalizing c with
  | nil => rfl
  | cons j ks ih =>
    obtain ⟨hj, hks⟩ := List.forall_mem_cons.1 hks
    rw [List.foldl_cons, ih hks, find?_evict_of_ne hj]

theorem find?_evictWhileOver {ks : List CacheKey} (hks : ∀ j ∈ ks, j ≠ k) :
    (c.evictWhileOver ks).find? k = c.find? k := by
  induction ks generalizing c with
  | nil => rfl
  | cons j ks ih =>
    obtain ⟨hj, hks⟩ := List.forall_mem_cons.1 hks
    rw [evictWhileOver]
    split
    · rfl
    · rw [ih hks, find?_evict_of_ne hj]

/-- Making room never takes out the slot that room is made for. -/
theorem find?_makeRoom (c : SlotCache α) (order : Listing) (k : CacheKey) :
    (c.makeRoom order k).find? k = c.find? k := by
  have hstale : ∀ j ∈ c.staleKeys order k.fingerprint, j ≠ k := fun j hj heq =>
    (mem_staleKeys_iff.1 hj).2 (heq ▸ rfl)
  have hcandidates (d : SlotCache α) : ∀ j ∈ d.candidates order k, j ≠ k := by
    simp only [candidates, List.mem_map, List.mem_mergeSort, List.mem_filter, Bool.and_eq_true,
      bne_iff_ne]
    rintro j ⟨e, ⟨-, hne, -⟩, rfl⟩
    exact hne
  unfold makeRoom
  dsimp only
  rw [find?_foldl_evict fun j hj => hcandidates _ j (List.mem_of_mem_take hj),
    find?_evictWhileOver hstale]

/-! ### Accounts -/

/-- However a new cache was used, and in whatever orders its slots were listed, its counters say
what happened: the misses are the computations that ran and succeeded, hits and misses together are
the requests that were answered, and of the results that were computed each one is still in a slot,
was evicted, or was dropped on request.  Every slot is filled.  And once a computation for a key has
succeeded, its result is handed out and no computation for the key runs, in whatever monad, until a
call drops it. -/
theorem run_accounts (capacity : Nat) (calls : List (Listing × Cache.Call α ε)) :
    let c := (ofCapacity capacity : SlotCache α).run calls
    let t := (ofCapacity capacity : SlotCache α).tally {} calls
    c.stats.misses = t.computed ∧ c.stats.hits + c.stats.misses = t.answered ∧
    c.stats.misses = c.stats.size + c.stats.evictions + t.purged + t.cleared ∧
    (∀ e ∈ c.slots, e.2.value.isSome = true) ∧
    ∀ order k a later, c.value? k = none →
      let kept := (c.fetch order k fun _ => (.ok a : Except ε α)).2
      (∀ pre call post, later = pre ++ call :: post →
        ¬ (kept.run pre).Forgets k call.1 (call.2 : Cache.Call α ε)) →
      ((kept.run later).get k).1 = some a ∧
      ∀ (m : Type → Type) [Monad m] (order : Listing) (compute : m (Except ε α)), ∃ c',
        (kept.run later).fetchM order k compute = pure (.ok a, c') := by
  intro c t
  have hempty : Settled (ofCapacity capacity : SlotCache α) := .ofCapacity capacity
  have hc : Settled c := hempty.run calls
  obtain ⟨hmisses, hrequests, hslots⟩ := (Accounted.ofCapacity capacity).run hempty calls
  refine ⟨hmisses, hrequests, hslots, hc.filled, fun order k a later hnew => ?_⟩
  intro kept hlater
  have hsettled : Settled kept := hc.perform order (.fetch k (.ok a : Except ε α))
  have hkept : kept.value? k = some a := by
    unfold kept
    rw [fetch_ok hnew, value?, find?_makeRoom]
    exact value?_stamp c k (some a)
  have hvalue := value?_run hsettled hkept hlater
  exact ⟨by rw [get_of_some hvalue],
    fun m _ order compute => ⟨_, fetchM_of_some hvalue order compute⟩⟩

/-- A key under the fingerprint that stays live. -/
def liveKey (path : String) : CacheKey := ⟨path, ⟨"live"⟩⟩

/-- Lists paths with later letters first. -/
def lastLetterFirst : Listing := fun k => 128 - (k.path.toList.headD 'a').toNat

/-- A hit, a failure and a purge that drops one of two results. -/
def mixedCalls : List (Listing × Cache.Call Nat String) :=
  [(lastLetterFirst, .fetch ⟨"a", ⟨"old"⟩⟩ (.ok 0)),
    (lastLetterFirst, .fetch (liveKey "a") (.ok 1)),
    (lastLetterFirst, .fetch (liveKey "b") (.error "fails")),
    (lastLetterFirst, .fetch (liveKey "a") (.ok 2)), (lastLetterFirst, .purge ⟨"live"⟩)]

/-- A result that is asked for between two computations, the second of which evicts another. -/
def sparingCalls : List (Listing × Cache.Call Nat String) :=
  [(lastLetterFirst, .fetch (liveKey "c") (.ok 3)), (lastLetterFirst, .get (liveKey "b")),
    (lastLetterFirst, .fetch (liveKey "d") (.ok 4))]

/-- The counters of a cache that hit, failed and dropped, and a result that survives an eviction. -/
theorem run_accounts_mixed :
    let c := (ofCapacity 3).run mixedCalls
    let kept := (c.fetch lastLetterFirst (liveKey "b") fun _ => (.ok 7 : Except String Nat)).2
    c.stats.misses = ((ofCapacity 3).tally {} mixedCalls).computed ∧ c.stats = ⟨1, 2, 0, 1, 3⟩ ∧
    c.value? (liveKey "b") = none ∧
    (∀ pre call post, sparingCalls = pre ++ call :: post →
      ¬ (kept.run pre).Forgets (liveKey "b") call.1 call.2) ∧
    (kept.run sparingCalls).evictions = 1 ∧
    ((kept.run sparingCalls).get (liveKey "b")).1 = some 7 := by
  intro c kept
  have hnew : c.value? (liveKey "b") = none := by unfold c; cbv
  have hkept : ∀ pre call post, sparingCalls = pre ++ call :: post →
      ¬ (kept.run pre).Forgets (liveKey "b") call.1 call.2 := by
    intro pre call post heq hdrops
    -- the first call finds room, the second drops nothing, and the third evicts another result
    rcases pre with _ | ⟨_, _ | ⟨_, _ | ⟨_, pre⟩⟩⟩ <;> simp [sparingCalls] at heq
    · obtain ⟨rfl, -⟩ := heq
      have hnone : (kept.fetch lastLetterFirst (liveKey "c") fun _ =>
        (.ok 3 : Except String Nat)).2.evictions = kept.evictions := by unfold kept c; cbv
      exact absurd hdrops.1 (hnone ▸ Nat.lt_irrefl _)
    · obtain ⟨rfl, rfl, -⟩ := heq
      exact hdrops
    · obtain ⟨rfl, rfl, rfl, -⟩ := heq
      have hfound : ((kept.run (sparingCalls.take 2)).fetch lastLetterFirst (liveKey "d") fun _ =>
        (.ok 4 : Except String Nat)).2.find? (liveKey "b") ≠ none := by
        unfold kept c
        cbv
        simp
      exact hfound hdrops.2
  obtain ⟨hmisses, -, -, -, hlater⟩ := run_accounts 3 mixedCalls
  exact ⟨hmisses, by unfold c; cbv, hnew, hkept, by unfold kept c; cbv,
    (hlater lastLetterFirst (liveKey "b") 7 sparingCalls hnew hkept).1⟩

end LintConfig.SlotCache
