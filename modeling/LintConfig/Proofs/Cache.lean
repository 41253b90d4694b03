import LintConfig.Cache
import Mathlib.Data.List.Basic

/-!
# What a cache keeps

A cache never makes results up: whatever holds of the results that are kept and of those that are
computed holds of the results that are handed out (`Cache.Holds`).  What was handed out is kept,
until its room is needed for another result (`find?_fetch`), and there is never more than there is
room for (`size_fetch_le`).
-/

namespace LintConfig.Cache

variable {α ε : Type} {P : CacheKey → α → Prop} {c : Cache α} {k : CacheKey}
  {compute : Unit → Except ε α} {a : α}

theorem mem_of_find? (h : c.find? k = some a) : (k, a) ∈ c.entries := by
  obtain ⟨⟨j, b⟩, hentry, rfl⟩ := Option.map_eq_some_iff.1 h
  obtain rfl : j = k := by simpa using List.find?_some hentry
  exact List.mem_of_find?_eq_some hentry

/-- A missing result is computed, and a kept one is the computed one if it agrees with it. -/
theorem fetch_eq_compute (h : ∀ a, (k, a) ∈ c.entries → compute () = .ok a) :
    (c.fetch k compute).1 = compute () := by
  unfold fetch
  cases hfind : c.find? k with
  | some a => exact (h a (mem_of_find? hfind)).symm
  | none => cases compute () <;> rfl

/-! ### A result that was handed out -/

theorem find?_touch (c : Cache α) (k : CacheKey) (a : α) : (c.touch k a).find? k = some a := by
  have hnone : (c.without k).find? (fun e => e.1 == k) = none := by
    rw [List.find?_eq_none]
    intro e he
    simpa [without] using (List.mem_filter.1 he).2
  simp [find?, touch, List.find?_append, hnone]

/-- What is dropped first is not what the condition spares. -/
theorem find?_dropFirst {condition : CacheKey → Bool} (hk : condition k = false) (n : Nat)
    (es : List (CacheKey × α)) :
    (dropFirst condition n es).find? (fun e => e.1 == k) = es.find? fun e => e.1 == k := by
  induction es generalizing n with
  | nil => cases n <;> rfl
  | cons e es ih =>
    cases n with
    | zero => rfl
    | succ n =>
      rw [dropFirst]
      split_ifs with hdrop
      · have hne : (e.1 == k) = false := by
          rw [beq_eq_false_iff_ne]
          rintro rfl
          rw [hk] at hdrop
          cases hdrop
        rw [ih, List.find?_cons, hne]
      · rw [List.find?_cons, List.find?_cons, ih]

/-- Making room never drops the result that room is made for. -/
theorem find?_makeRoom (c : Cache α) (k : CacheKey) : (c.makeRoom k).find? k = c.find? k := by
  unfold find? makeRoom
  rw [find?_dropFirst (by simp), find?_dropFirst (by simp)]

/-- What is handed out is kept. -/
theorem find?_fetch (h : (c.fetch k compute).1 = .ok a) : (c.fetch k compute).2.find? k = some a := by
  unfold fetch at h ⊢
  cases hfind : c.find? k with
  | some b =>
    rw [hfind] at h
    obtain rfl := Except.ok.inj h
    exact find?_touch c k b
  | none =>
    rw [hfind] at h
    cases hresult : compute () with
    | error error => simp [hresult] at h
    | ok b =>
      simp only [hresult, Except.ok.injEq] at h
      rw [h]
      exact (find?_makeRoom _ k).trans (find?_touch c k a)

/-- A purge spares what is kept under the live fingerprint. -/
theorem find?_purge (c : Cache α) {live : Fingerprint} (hk : k.fingerprint = live) :
    (c.purge live).2.find? k = c.find? k := by
  unfold find? purge
  rw [List.find?_filter]
  refine congrArg (Option.map Prod.snd) (congrArg (c.entries.find? ·) (funext fun e => ?_))
  by_cases he : e.1 = k
  · simp [he, hk]
  · simp [he]

theorem fetch_of_find? (h : c.find? k = some a) : (c.fetch k compute).1 = .ok a := by
  unfold fetch
  rw [h]

/-- An error is always computed, never kept. -/
theorem compute_of_fetch_eq_error {error : ε} (h : (c.fetch k compute).1 = .error error) :
    compute () = .error error := by
  unfold fetch at h
  cases hfind : c.find? k with
  | some a => simp [hfind] at h
  | none => cases hresult : compute () <;> simp_all

/-! ### Conditions on all that is kept -/

/-- Every result that is kept satisfies a condition on its key and itself. -/
def Holds (P : CacheKey → α → Prop) (c : Cache α) : Prop := ∀ e ∈ c.entries, P e.1 e.2

theorem dropFirst_sublist (condition : CacheKey → Bool) (n : Nat) (es : List (CacheKey × α)) :
    (dropFirst condition n es).Sublist es := by
  induction es generalizing n with
  | nil => cases n <;> exact List.Sublist.refl _
  | cons e es ih =>
    cases n with
    | zero => exact List.Sublist.refl _
    | succ n =>
      rw [dropFirst]
      split_ifs
      · exact (ih n).cons e
      · exact (ih (n + 1)).cons_cons e

theorem makeRoom_sublist (c : Cache α) (k : CacheKey) : (c.makeRoom k).entries.Sublist c.entries :=
  (dropFirst_sublist _ _ _).trans (dropFirst_sublist _ _ _)

namespace Holds

theorem ofCapacity (capacity : Nat) : (ofCapacity capacity : Cache α).Holds P :=
  fun _ h => absurd h List.not_mem_nil

theorem clear (c : Cache α) : c.clear.Holds P := fun _ h => absurd h List.not_mem_nil

theorem mono {Q : CacheKey → α → Prop} (h : c.Holds P) (hPQ : ∀ k a, P k a → Q k a) : c.Holds Q :=
  fun e he => hPQ e.1 e.2 (h e he)

theorem touch (h : c.Holds P) (ha : P k a) : (c.touch k a).Holds P := by
  intro e he
  rcases List.mem_append.1 he with he | he
  · exact h e (List.mem_filter.1 he).1
  · obtain rfl := List.mem_singleton.1 he
    exact ha

/-- What is kept after a purge was kept before, under the fingerprint that is live. -/
theorem purge (h : c.Holds P) (live : Fingerprint) :
    (c.purge live).2.Holds fun k a => k.fingerprint = live ∧ P k a := by
  intro e he
  obtain ⟨he, hlive⟩ := List.mem_filter.1 he
  exact ⟨by simpa using hlive, h e he⟩

/-- A condition that computed results satisfy stays true of all that is kept. -/
theorem fetch (h : c.Holds P) (hcompute : ∀ a, compute () = .ok a → P k a) :
    (c.fetch k compute).2.Holds P := by
  unfold Cache.fetch
  cases hfind : c.find? k with
  | some a => exact touch h (h _ (mem_of_find? hfind))
  | none =>
    cases hresult : compute () with
    | error error => exact h
    | ok a => exact fun e he => touch h (hcompute a hresult) e ((makeRoom_sublist _ k).subset he)

/-- A condition that computed results satisfy is true of what is handed out. -/
theorem of_fetch (h : c.Holds P) (hcompute : ∀ a, compute () = .ok a → P k a)
    (hfetch : (c.fetch k compute).1 = .ok a) : P k a := by
  unfold Cache.fetch at hfetch
  cases hfind : c.find? k with
  | some b =>
    rw [hfind] at hfetch
    obtain rfl := Except.ok.inj hfetch
    exact h _ (mem_of_find? hfind)
  | none =>
    rw [hfind] at hfetch
    cases hresult : compute () with
    | error error => simp [hresult] at hfetch
    | ok b =>
      simp only [hresult, Except.ok.injEq] at hfetch
      exact hcompute a (hfetch ▸ hresult)

end Holds

/-! ### The number of entries -/

/-- As many entries are dropped as asked for, if there are as many to drop. -/
theorem length_dropFirst (condition : CacheKey → Bool) (n : Nat) (es : List (CacheKey × α)) :
    (dropFirst condition n es).length = es.length - min n (es.countP fun e => condition e.1) := by
  induction es generalizing n with
  | nil => cases n <;> simp [dropFirst]
  | cons e es ih =>
    cases n with
    | zero => simp [dropFirst]
    | succ n =>
      have hle : es.countP (fun e => condition e.1) ≤ es.length := List.countP_le_length
      rw [dropFirst, List.countP_cons]
      split_ifs
      · rw [ih, List.length_cons]
        omega
      · rw [List.length_cons, ih, List.length_cons]
        omega

theorem countP_touch (c : Cache α) (k : CacheKey) (a : α) :
    (c.touch k a).entries.countP (fun e => e.1 == k) = 1 := by
  have hnone : (c.without k).countP (fun e => e.1 == k) = 0 := by
    rw [List.countP_eq_zero]
    intro e he
    simpa [without] using (List.mem_filter.1 he).2
  simp [touch, List.countP_append, hnone]

/-- Room is made for one entry by dropping others. -/
theorem size_makeRoom_le {c : Cache α} {k : CacheKey} (hcapacity : 1 ≤ c.capacity)
    (hk : c.entries.countP (fun e => e.1 == k) ≤ 1) : (c.makeRoom k).size ≤ c.capacity := by
  have hkept (fresh : List (CacheKey × α)) (hfresh : fresh.Sublist c.entries) :
      (dropFirst (fun j => j != k) (fresh.length - c.capacity) fresh).length ≤ c.capacity := by
    have hone : fresh.countP (fun e => e.1 == k) ≤ 1 := Nat.le_trans hfresh.countP_le hk
    have hothers : fresh.length = fresh.countP (fun e => e.1 == k) +
        fresh.countP (fun e => e.1 != k) := by
      rw [List.length_eq_countP_add_countP fun e : CacheKey × α => e.1 == k]
      simp only [bne, Bool.not_eq_true, Bool.decide_eq_false]
    rw [length_dropFirst]
    omega
  exact hkept _ (dropFirst_sublist _ _ _)

theorem size_touch_of_find? (h : c.find? k = some a) (b : α) : (c.touch k b).size ≤ c.size := by
  have hlt : (c.without k).length < c.entries.length := by
    rw [without, List.length_filter_lt_length_iff_exists]
    exact ⟨(k, a), mem_of_find? h, by simp⟩
  unfold size touch
  rw [List.length_append, List.length_singleton]
  exact hlt

theorem capacity_fetch (c : Cache α) (k : CacheKey) (compute : Unit → Except ε α) :
    (c.fetch k compute).2.capacity = c.capacity := by
  unfold fetch
  cases c.find? k with
  | some a => rfl
  | none => cases compute () <;> rfl

/-- A cache never outgrows its capacity. -/
theorem size_fetch_le (hcapacity : 1 ≤ c.capacity) (hsize : c.size ≤ c.capacity) :
    (c.fetch k compute).2.size ≤ c.capacity := by
  unfold fetch
  cases hfind : c.find? k with
  | some a => exact Nat.le_trans (size_touch_of_find? hfind a) hsize
  | none =>
    cases compute () with
    | error error => exact hsize
    | ok a => exact size_makeRoom_le hcapacity (Nat.le_of_eq (countP_touch c k a))

theorem size_purge_le (c : Cache α) (live : Fingerprint) : (c.purge live).2.size ≤ c.size :=
  List.length_filter_le _ _

/-- A purge drops all or nothing of what is kept under one fingerprint. -/
theorem purged_of_holds {fingerprint : Fingerprint}
    (h : c.Holds fun k _ => k.fingerprint = fingerprint) (live : Fingerprint) :
    (c.purge live).1 = if fingerprint = live then 0 else c.size := by
  have hfilter : (c.entries.filter fun e => e.1.fingerprint == live) =
      if fingerprint = live then c.entries else [] := by
    split_ifs with hlive
    · exact List.filter_eq_self.2 fun e he => by simp [h e he, hlive]
    · exact List.filter_eq_nil_iff.2 fun e he => by simp [h e he, hlive]
  unfold purge
  rw [hfilter]
  split_ifs <;> simp [size]

/-- A purge drops nothing if all is kept under the live fingerprint. -/
theorem purge_eq_self {live : Fingerprint} (h : c.Holds fun k _ => k.fingerprint = live) :
    c.purge live = (0, c) := by
  have hkept : c.entries.filter (fun e => e.1.fingerprint == live) = c.entries :=
    List.filter_eq_self.2 fun e he => by simpa using h e he
  rw [purge, hkept, Nat.sub_self]

theorem clear_eq_self (h : c.entries = []) : c.clear = c := by
  rw [clear, ← h]

end LintConfig.Cache
