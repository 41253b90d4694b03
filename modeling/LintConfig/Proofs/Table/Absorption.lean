import LintConfig.Proofs.Absorption
import LintConfig.Proofs.Table.Alike

/-!
# Absorption in tables

What is put together key by key is absorbed if it is under each key (`Absorbed.keyed`), and there
one value is laid onto the list of those that stand under the key (`Absorbed.slot`).
-/

namespace LintConfig

open Table (Alike values)

variable {α β : Type} {text : α → β}

/-- Lists of values that look alike. -/
abbrev AlikeValues (text : α → β) (ws ws' : List α) : Prop := ws.map text = ws'.map text

namespace Absorbed

/-- A value that is absorbed by `lay` is absorbed where it is laid onto the first value of a list,
or onto a blank one if the list is empty. -/
theorem slot {lay : α → α → α} {P : α → Prop} {v : α}
    (h : Absorbed (fun a a' => text a = text a') lay P v) (blank : α) (rest : List α → List α)
    (hrest : ∀ a ws, rest (a :: rest ws) = rest ws) :
    Absorbed (AlikeValues text) (fun ws v => lay (ws.headD blank) v :: rest ws) P v where
  again ws := by simp [AlikeValues, hrest, h.again]
  skip ws x hx := by simp [AlikeValues, hrest, h.skip _ x hx]

/-- A table with distinct keys is absorbed if each of its values is under its key. -/
theorem keyed {step : Table α → String → α → Table α} {g : String → List α → α → List α}
    (hstep : ∀ t k v k', values (step t k v) k' =
      if k = k' then g k (values t k) v else values t k') {P : α → Prop} {u : Table α}
    (hnodup : (Table.keys u).Nodup) (hu : ∀ e ∈ u, Absorbed (AlikeValues text) (g e.1) P e.2) :
    Absorbed (Alike text) (fun t u => u.foldl (fun acc e => step acc e.1 e.2) t)
      (fun x => (Table.keys x).Nodup ∧ ∀ e ∈ x, P e.2) u where
  again t k := by
    rw [Table.values_foldl hstep, Table.values_foldl hstep]
    obtain hnil | ⟨v, hv, hone⟩ := Table.values_eq_nil_or_singleton hnodup k
    · rw [hnil]
      rfl
    · rw [hone]
      exact (hu _ hv).again (values t k)
  skip t x hx k := by
    simp only [Table.values_foldl hstep]
    obtain hnil | ⟨v, hv, hone⟩ := Table.values_eq_nil_or_singleton hnodup k
    · rw [hnil]
      rfl
    · obtain hnil' | ⟨y, hy, hone'⟩ := Table.values_eq_nil_or_singleton hx.1 k
      · rw [hone, hnil']
        exact (hu _ hv).again (values t k)
      · rw [hone, hone']
        exact (hu _ hv).skip (values t k) y (hx.2 _ hy)

end Absorbed

namespace Table

/-- What stands under a key after a table was laid on: the last value that was laid there, in place
of the first one that stood there. -/
theorem values_overlay (t u : Table α) (k : String) :
    values (overlay t u) k = match (values u k).getLast? with
      | some v => v :: (values t k).tail
      | none => values t k := by
  unfold overlay
  rw [values_foldl (g := fun _ ws v => v :: ws.tail) values_put]
  generalize values t k = ws
  induction values u k generalizing ws with
  | nil => rfl
  | cons v vs ih =>
    rw [List.foldl_cons, ih, List.getLast?_cons]
    cases vs.getLast? <;> rfl

/-- Of several tables that are laid on, those that come again might as well be left out. -/
theorem absorbs_overlay (text : α → β) : Absorbs (Alike text) overlay fun _ => True where
  equivalence := ⟨.refl text, fun h k => (h k).symm, fun h h' k => (h k).trans (h' k)⟩
  congr u h := h.overlay (.refl text u)
  absorbed := by
    intro d _
    constructor
    · intro t k
      simp only [values_overlay]
      cases (values d k).getLast? <;> rfl
    · intro t x _ k
      simp only [values_overlay]
      cases (values d k).getLast? <;> cases (values x k).getLast? <;> rfl

end Table

end LintConfig
