import LintConfig.Proofs.Table.Alike
import LintConfig.Proofs.Text.Units

/-!
# Sorted tables

`Table.sorted` puts the entries of a table in the order of their keys.  Entries of one key keep the
order in which they stand, so two tables are sorted to the same one just if they have the same
values under each key (`sorted_eq_iff`).
-/

namespace LintConfig.Table

variable {α : Type}

/-- Whether an entry may stand before another. -/
abbrev keyLe (e e' : String × α) : Bool := Text.leByUnits e.1 e'.1

/-- The entries in the order of their keys. -/
def sorted (t : Table α) : Table α := t.mergeSort keyLe

theorem keyLe_trans (a b c : String × α) (h : keyLe a b = true) (h' : keyLe b c = true) :
    keyLe a c = true :=
  Text.leByUnits_trans h h'

theorem keyLe_total (a b : String × α) : (keyLe a b || keyLe b a) = true := by
  rw [Bool.or_eq_true]
  exact Text.leByUnits_total a.1 b.1

theorem pairwise_sorted (t : Table α) : (sorted t).Pairwise fun a b => keyLe a b = true :=
  List.pairwise_mergeSort keyLe_trans keyLe_total t

/-- Sorting keeps the entries of one key in their order. -/
theorem values_sorted (t : Table α) (k : String) : values (sorted t) k = values t k := by
  have hsorted : (t.filter fun e => e.1 = k).Pairwise fun a b => keyLe a b = true := by
    rw [List.pairwise_filter]
    refine List.pairwise_of_forall fun a b ha hb => ?_
    rw [decide_eq_true_eq] at ha hb
    rw [keyLe, ha, hb]
    exact Text.leByUnits_refl k
  -- the sort is stable, so a part that is sorted already stays as it is
  have hsub := (List.sublist_mergeSort keyLe_trans keyLe_total hsorted
    List.filter_sublist).filter fun e => e.1 = k
  rw [List.filter_filter] at hsub
  simp only [Bool.and_self] at hsub
  have hlength := ((List.mergeSort_perm t keyLe).filter fun e => e.1 = k).length_eq
  unfold values sorted
  rw [hsub.eq_of_length hlength.symm]

theorem leByUnits_of_mem_values {e : String × α} {t : Table α}
    (ht : (e :: t).Pairwise fun a b => keyLe a b = true) {k : String} {v : α}
    (h : v ∈ values (e :: t) k) : Text.leByUnits e.1 k = true := by
  rcases List.mem_cons.1 (mem_of_mem_values h) with rfl | h
  · exact Text.leByUnits_refl k
  · exact List.rel_of_pairwise_cons ht h

/-- Sorted tables are determined by what stands under each key. -/
theorem eq_of_values_eq {t u : Table α} (ht : t.Pairwise fun a b => keyLe a b = true)
    (hu : u.Pairwise fun a b => keyLe a b = true) (h : ∀ k, values t k = values u k) : t = u := by
  induction t generalizing u with
  | nil =>
    cases u with
    | nil => rfl
    | cons e u =>
      have hk := h e.1
      simp [values_cons, values_nil] at hk
  | cons e t ih =>
    cases u with
    | nil =>
      have hk := h e.1
      simp [values_cons, values_nil] at hk
    | cons e' u =>
      have hmem : e'.2 ∈ values (e :: t) e'.1 := by
        rw [h, values_cons, if_pos rfl]
        exact List.mem_cons_self
      have hmem' : e.2 ∈ values (e' :: u) e.1 := by
        rw [← h, values_cons, if_pos rfl]
        exact List.mem_cons_self
      have hname : e.1 = e'.1 :=
        Text.leByUnits_antisymm (leByUnits_of_mem_values ht hmem) (leByUnits_of_mem_values hu hmem')
      have hvalue := h e.1
      rw [values_cons, values_cons, if_pos rfl, if_pos hname.symm, List.cons.injEq] at hvalue
      have hrest (k : String) : values t k = values u k := by
        have hk := h k
        rw [values_cons, values_cons, ← hname] at hk
        split_ifs at hk with heq
        · exact (List.cons.inj hk).2
        · exact hk
      rw [ih ht.of_cons hu.of_cons hrest, Prod.ext hname hvalue.1]

/-- Tables are sorted to the same one just if they have the same values under each key. -/
theorem sorted_eq_iff {t u : Table α} : sorted t = sorted u ↔ ∀ k, values t k = values u k := by
  refine ⟨fun h k => ?_, fun h => ?_⟩
  · rw [← values_sorted, h, values_sorted]
  · refine eq_of_values_eq (pairwise_sorted t) (pairwise_sorted u) fun k => ?_
    rw [values_sorted, values_sorted, h]

end LintConfig.Table
