import LintConfig.Proofs.Table
import LintConfig.Store
import Mathlib.Logic.Relation

/-!
# What a fragment affects

`Store.Noted` is the relation between a fragment and those that are noted as extending it.
`Store.affected` collects what is reached along it: `mem_affected_iff` says that nothing is missed
and nothing else is taken, whatever cycles the notes have.  The bound on the number of steps is
never met, since each of them takes up a note that was not looked at before (`unseen`).
-/

namespace LintConfig

open Relation

namespace Store

variable {s : Store} {reached : Names} {pending : List String} {id x : String}

/-- A fragment is noted as extending another. -/
def Noted (s : Store) (base dependent : String) : Prop := dependent ∈ s.dependentsOf base

/-- The number of notes about names that were not reached. -/
def unseen (reached : Names) (dependents : Table Names) : Nat :=
  dependents.foldr (fun e n => if e.1 ∈ reached then n else e.2.length + n) 0

theorem unseen_nil (s : Store) : unseen [] s.dependents = s.edgeCount := by
  simp [unseen, edgeCount]

theorem unseen_insert_le (reached : Names) (id : String) (t : Table Names) :
    unseen (Names.insert reached id) t ≤ unseen reached t := by
  induction t with
  | nil => exact Nat.le_refl 0
  | cons e t ih =>
    have hkept (h : e.1 ∈ reached) : e.1 ∈ Names.insert reached id :=
      (Names.mem_insert reached id e.1).2 (.inr h)
    simp only [unseen, List.foldr_cons] at ih ⊢
    split_ifs with hnew hold hold
    · exact ih
    · omega
    · exact absurd (hkept hold) hnew
    · omega

/-- Reaching a name takes its notes from those that are unseen. -/
theorem length_add_unseen_insert_le (t : Table Names) (hid : id ∉ reached) :
    ((Table.get? t id).getD []).length + unseen (Names.insert reached id) t ≤ unseen reached t := by
  induction t with
  | nil => simp [Table.get?, unseen]
  | cons e t ih =>
    have hle := unseen_insert_le reached id t
    obtain ⟨k, v⟩ := e
    by_cases hk : k = id
    · subst hk
      simpa [Table.get?, unseen, Names.mem_insert, hid] using hle
    · by_cases hmem : k ∈ reached
      · simpa [Table.get?, unseen, Names.mem_insert, hk, hmem] using ih
      · simp only [Table.get?, unseen, Names.mem_insert, hk, hmem, List.foldr_cons, or_self,
          if_false] at ih ⊢
        omega

/-- Every note about what was reached was reached itself or is pending. -/
def Settling (s : Store) (reached : Names) (pending : List String) : Prop :=
  ∀ a ∈ reached, ∀ b, s.Noted a b → b ∈ reached ∨ b ∈ pending

/-- What is reached from a name goes through what is pending, or was reached already. -/
theorem Settling.of_path (h : s.Settling reached pending) (hid : id ∈ reached)
    (hpath : ReflTransGen s.Noted id x) :
    x ∈ reached ∨ ∃ p ∈ pending, ReflTransGen s.Noted p x := by
  induction hpath with
  | refl => exact .inl hid
  | tail _ hnoted ih =>
    rcases ih with hb | ⟨p, hp, hpath⟩
    · exact (h _ hb _ hnoted).imp_right fun hc => ⟨_, hc, .refl⟩
    · exact .inr ⟨p, hp, hpath.tail hnoted⟩

theorem mem_reach_iff {fuel : Nat} (hfuel : pending.length + unseen reached s.dependents < fuel)
    (h : s.Settling reached pending) :
    x ∈ reach s fuel pending reached ↔
      x ∈ reached ∨ ∃ p ∈ pending, ReflTransGen s.Noted p x := by
  induction fuel generalizing pending reached with
  | zero => omega
  | succ fuel ih =>
    match pending with
    | [] => simp [reach]
    | id :: pending =>
      rw [List.length_cons] at hfuel
      rw [reach]
      by_cases hid : id ∈ reached
      · -- what is noted about the name is already reached or pending
        have hsettling : s.Settling reached pending := by
          intro a ha b hb
          rcases h a ha b hb with hb | hb
          · exact .inl hb
          · rcases List.mem_cons.1 hb with rfl | hb
            · exact .inl hid
            · exact .inr hb
        rw [if_pos (by simpa using hid), ih (by omega) hsettling]
        constructor
        · exact Or.imp_right fun ⟨p, hp, hpath⟩ => ⟨p, List.mem_cons_of_mem _ hp, hpath⟩
        · rintro (hx | ⟨p, hp, hpath⟩)
          · exact .inl hx
          · rcases List.mem_cons.1 hp with rfl | hp
            · exact hsettling.of_path hid hpath
            · exact .inr ⟨p, hp, hpath⟩
      · have hsettling :
            s.Settling (Names.insert reached id) (s.dependentsOf id ++ pending) := by
          intro a ha b hb
          simp only [Names.mem_insert, List.mem_append] at ha ⊢
          rcases ha with rfl | ha
          · exact .inr (.inl hb)
          · rcases h a ha b hb with hb | hb
            · exact .inl (.inr hb)
            · exact (List.mem_cons.1 hb).imp .inl .inr
        have hless := length_add_unseen_insert_le s.dependents hid
        rw [if_neg (by simpa using hid), ih ?_ hsettling]
        · simp only [Names.mem_insert, List.mem_append, List.mem_cons]
          constructor
          · rintro ((rfl | hx) | ⟨p, hp | hp, hpath⟩)
            · exact .inr ⟨x, .inl rfl, .refl⟩
            · exact .inl hx
            · exact .inr ⟨id, .inl rfl, hpath.head hp⟩
            · exact .inr ⟨p, .inr hp, hpath⟩
          · rintro (hx | ⟨p, rfl | hp, hpath⟩)
            · exact .inl (.inr hx)
            · rcases ReflTransGen.cases_head hpath with rfl | ⟨c, hc, hpath⟩
              · exact .inl (.inl rfl)
              · exact .inr ⟨c, .inl hc, hpath⟩
            · exact .inr ⟨p, .inr hp, hpath⟩
        · rw [List.length_append, dependentsOf]
          omega

/-- What is affected by a fragment is what is reached from it along the notes. -/
theorem mem_affected_iff : x ∈ s.affected id ↔ ReflTransGen s.Noted id x := by
  have hfuel : [id].length + unseen [] s.dependents < s.edgeCount + 2 := by
    rw [unseen_nil, List.length_singleton]
    omega
  have h : s.Settling [] [id] := fun a ha => by cases ha
  rw [affected, mem_reach_iff hfuel h]
  simp

theorem sorted_reach {fuel : Nat} (h : reached.Pairwise (· < ·)) :
    (reach s fuel pending reached).Pairwise (· < ·) := by
  fun_induction reach s fuel pending reached with
  | case1 => exact h
  | case2 => exact h
  | case3 _ _ _ _ _ ih => exact ih h
  | case4 _ _ _ _ _ ih => exact ih (Names.sorted_insert h _)

theorem sorted_affected (s : Store) (id : String) : (s.affected id).Pairwise (· < ·) :=
  sorted_reach .nil

end Store

end LintConfig
