import LintConfig.Engine
import LintConfig.Proofs.Table

/-!
# Invalidation

Dropping a fragment takes every fragment out of the store that is affected by it, itself included,
and leaves the others and what is known of their dependents alone (`get?_invalidateAll`,
`invalidateAll_frame`).
-/

namespace LintConfig.Store

theorem mem_reach {s : Store} {x : String} :
    ∀ {fuel : Nat} {pending : List String} {reached : Names}, x ∈ reached →
      x ∈ reach s fuel pending reached := by
  intro fuel
  induction fuel with
  | zero => exact fun h => h
  | succ fuel ih =>
    intro pending reached h
    cases pending with
    | nil => exact h
    | cons id pending =>
      rw [reach]
      split_ifs
      · exact ih h
      · exact ih ((Names.mem_insert reached id x).2 (.inr h))

/-- A fragment is affected by itself. -/
theorem mem_affected_self (s : Store) (id : String) : id ∈ s.affected id := by
  unfold affected
  rw [reach]
  simp only [List.contains_nil, Bool.false_eq_true, if_false]
  exact mem_reach ((Names.mem_insert [] id id).2 (.inl rfl))

theorem get?_invalidate (s : Store) (id k : String) :
    Table.get? (s.invalidate id).2.fragments k =
      if k ∈ s.affected id then none else Table.get? s.fragments k := by
  have h := Table.get?_filter s.fragments
    (fun j => !((s.affected id).filter s.has).contains j) k
  refine h.trans ?_
  by_cases hk : k ∈ s.affected id
  · cases hhas : s.has k with
    | true => simp [hk, hhas]
    | false =>
      have hnone : Table.get? s.fragments k = none := by
        simpa [Store.has, Table.has] using hhas
      simp [hk, hnone]
  · simp [hk]

/-- What is affected depends on who extends whom only. -/
theorem affected_congr {s s' : Store} (h : s'.dependents = s.dependents) (id : String) :
    s'.affected id = s.affected id := by
  have hdeps (j : String) : s'.dependentsOf j = s.dependentsOf j := by simp [dependentsOf, h]
  have hreach (fuel : Nat) (pending : List String) (reached : Names) :
      reach s' fuel pending reached = reach s fuel pending reached := by
    induction fuel generalizing pending reached with
    | zero => rfl
    | succ fuel ih =>
      cases pending with
      | nil => rfl
      | cons j pending => rw [reach, reach, hdeps, ih, ih]
  unfold affected edgeCount
  rw [hreach, h]

theorem affected_invalidate (s : Store) (id k : String) :
    (s.invalidate id).2.affected k = s.affected k := by
  have h : (s.invalidate id).2.dependents = s.dependents := rfl
  exact affected_congr h k

/-- Dropping one fragment after the other drops what any of them affects. -/
theorem get?_invalidateAll (s : Store) (ids : List String) (k : String) :
    Table.get? (Engine.invalidateAll s ids).2.fragments k =
      if ∃ id ∈ ids, k ∈ s.affected id then none else Table.get? s.fragments k := by
  induction ids generalizing s with
  | nil => simp [Engine.invalidateAll]
  | cons id ids ih =>
    have hstep : (Engine.invalidateAll s (id :: ids)).2 =
        (Engine.invalidateAll (s.invalidate id).2 ids).2 := rfl
    rw [hstep, ih, get?_invalidate]
    simp only [affected_invalidate, List.mem_cons, exists_eq_or_imp]
    by_cases h : k ∈ s.affected id <;> simp [h]

theorem has_invalidate (s : Store) (id k : String) :
    (s.invalidate id).2.has k = true ↔ s.has k = true ∧ k ∉ s.affected id := by
  unfold has Table.has
  rw [get?_invalidate]
  split_ifs with hk <;> simp [hk]

/-- What is dropped are the fragments in the store that are affected. -/
theorem mem_invalidateAll_iff {s : Store} {ids : List String} {k : String} :
    k ∈ (Engine.invalidateAll s ids).1 ↔ s.has k = true ∧ ∃ id ∈ ids, k ∈ s.affected id := by
  induction ids generalizing s with
  | nil => simp [Engine.invalidateAll]
  | cons id ids ih =>
    have hstep : (Engine.invalidateAll s (id :: ids)).1 =
        Names.union (s.invalidate id).1 (Engine.invalidateAll (s.invalidate id).2 ids).1 := rfl
    have hfirst : k ∈ (s.invalidate id).1 ↔ k ∈ s.affected id ∧ s.has k = true := List.mem_filter
    rw [hstep, Names.mem_union, ih, hfirst, has_invalidate]
    simp only [affected_invalidate, List.mem_cons, exists_eq_or_imp]
    tauto

/-- Nothing but the fragments that are dropped leaves the store. -/
theorem invalidateAll_frame (s : Store) (ids : List String) :
    (Engine.invalidateAll s ids).2 = { s with
      fragments := s.fragments.filter fun e => !(Engine.invalidateAll s ids).1.contains e.1 } := by
  induction ids generalizing s with
  | nil =>
    have hall : s.fragments.filter (fun e => !([] : Names).contains e.1) = s.fragments :=
      List.filter_eq_self.2 fun _ _ => rfl
    exact (congrArg (fun fragments => { s with fragments }) hall).symm
  | cons id ids ih =>
    have hstep : (Engine.invalidateAll s (id :: ids)).2 =
        (Engine.invalidateAll (s.invalidate id).2 ids).2 := rfl
    have hdropped : (Engine.invalidateAll s (id :: ids)).1 =
        Names.union (s.invalidate id).1 (Engine.invalidateAll (s.invalidate id).2 ids).1 := rfl
    have hsame : (s.invalidate id).2 = { s with
        fragments := s.fragments.filter fun e => !(s.invalidate id).1.contains e.1 } := rfl
    rw [hstep, ih, hdropped, hsame]
    dsimp only
    rw [List.filter_filter]
    congr 2
    funext e
    rw [Bool.eq_iff_iff]
    simp [Names.mem_union, and_comm]

end LintConfig.Store
