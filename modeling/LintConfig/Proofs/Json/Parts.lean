import LintConfig.Json
import LintConfig.Proofs.Table

/-!
# Parts of a JSON value

A value stands in another one at some depth (`Json.Within`).  Where null stands nowhere the value is
free of nulls, and where no object repeats a name it is keyed; settling repeated names changes
nothing of a keyed value (`Keyed.collapse_eq_self`).
-/

namespace LintConfig.Json

variable {j v : Json} {items : List Json} {members : List (String × Json)}

/-- What holds of every value whose items or members it holds of, holds of all values. -/
@[elab_as_elim]
theorem induction {P : Json → Prop} (null : P .null) (bool : ∀ b, P (.bool b))
    (num : ∀ n, P (.num n)) (str : ∀ s, P (.str s))
    (arr : ∀ items, (∀ j ∈ items, P j) → P (.arr items))
    (obj : ∀ members, (∀ m ∈ members, P m.2) → P (.obj members)) (j : Json) : P j := by
  refine Json.rec (motive_1 := P) (motive_2 := fun items => ∀ j ∈ items, P j)
    (motive_3 := fun members => ∀ m ∈ members, P m.2) (motive_4 := fun m => P m.2)
    null bool num str arr obj ?_ ?_ ?_ ?_ ?_ j
  · simp
  · exact fun j js hj hjs => List.forall_mem_cons.2 ⟨hj, hjs⟩
  · simp
  · exact fun m ms hm hms => List.forall_mem_cons.2 ⟨hm, hms⟩
  · exact fun _ _ hj => hj

/-- A value stands in another one: it is that value, or stands in an item or a member of it. -/
inductive Within (j : Json) : Json → Prop where
  | self : Within j j
  | item {i : Json} {items : List Json} (h : Within j i) (hmem : i ∈ items) : Within j (.arr items)
  | member {m : String × Json} {members : List (String × Json)} (h : Within j m.2)
    (hmem : m ∈ members) : Within j (.obj members)

/-! ### Values without nulls -/

/-- No null occurs, at any depth. -/
def NullFree (v : Json) : Prop := ¬ Within .null v

theorem not_nullFree_null : ¬ NullFree .null := fun h => h .self

theorem nullFree_bool (b : Bool) : NullFree (.bool b) := nofun

theorem nullFree_num (n : Number) : NullFree (.num n) := nofun

theorem nullFree_str (s : String) : NullFree (.str s) := nofun

theorem nullFree_arr_iff : NullFree (.arr items) ↔ ∀ j ∈ items, NullFree j := by
  constructor
  · exact fun h j hj hnull => h (.item hnull hj)
  · rintro h (_ | ⟨hnull, hj⟩)
    exact h _ hj hnull

theorem nullFree_obj_iff : NullFree (.obj members) ↔ ∀ m ∈ members, NullFree m.2 := by
  constructor
  · exact fun h m hm hnull => h (.member hnull hm)
  · rintro h (_ | _ | ⟨hnull, hm⟩)
    exact h _ hm hnull

/-! ### Values without repeated names -/

/-- No object repeats a name, at any depth. -/
def Keyed (v : Json) : Prop := ∀ members, Within (.obj members) v → (Table.keys members).Nodup

theorem keyed_str (s : String) : Keyed (.str s) := nofun

theorem keyed_num (n : Number) : Keyed (.num n) := nofun

theorem keyed_arr_iff : Keyed (.arr items) ↔ ∀ j ∈ items, Keyed j := by
  constructor
  · exact fun h j hj members hmembers => h members (.item hmembers hj)
  · rintro h members (_ | ⟨hmembers, hj⟩)
    exact h _ hj members hmembers

theorem keyed_obj_iff :
    Keyed (.obj members) ↔ (Table.keys members).Nodup ∧ ∀ m ∈ members, Keyed m.2 := by
  constructor
  · exact fun h => ⟨h members .self, fun m hm inner hinner => h inner (.member hinner hm)⟩
  · rintro ⟨hnodup, h⟩ inner (_ | _ | ⟨hinner, hm⟩)
    · exact hnodup
    · exact h _ hm inner hinner

theorem collapseItems_eq_map (items : List Json) : collapseItems items = items.map collapse := by
  induction items with
  | nil => rfl
  | cons j items ih => rw [collapseItems, ih, List.map_cons]

theorem collapseMembers_eq_mapValues (members : List (String × Json)) :
    collapseMembers members = Table.mapValues collapse members := by
  induction members with
  | nil => rfl
  | cons m members ih => rw [collapseMembers, ih, Table.mapValues, Table.mapValues, List.map_cons]

/-- There is nothing to settle where no name is repeated. -/
theorem Keyed.collapse_eq_self (h : v.Keyed) : v.collapse = v := by
  induction v using Json.induction with
  | null => rfl
  | bool b => rfl
  | num n => rfl
  | str s => rfl
  | arr items ih =>
    have hsame : items.map collapse = items :=
      (List.map_congr_left fun j hj => ih j hj (keyed_arr_iff.1 h j hj)).trans (List.map_id items)
    rw [collapse, collapseItems_eq_map, hsame]
  | obj members ih =>
    obtain ⟨hnodup, hvalues⟩ := keyed_obj_iff.1 h
    have hsame : Table.mapValues collapse members = members := by
      refine (List.map_congr_left fun m hm => ?_).trans (List.map_id members)
      rw [ih m hm (hvalues m hm)]
      rfl
    rw [collapse, collapseMembers_eq_mapValues, hsame, Table.ofEntries_eq_self hnodup]

end LintConfig.Json
