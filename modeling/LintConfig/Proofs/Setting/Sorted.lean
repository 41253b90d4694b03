import LintConfig.Proofs.Setting

/-!
# Settings with sorted keys

`Setting.sorted` sorts the keys of every map of a setting, at every depth, and leaves everything
else as it is; so two settings are equal up to the order of keys just if their sorted forms are
equal.  It shows of a map what it shows of the values under each key (`shows_sorted`).
-/

namespace LintConfig.Setting

mutual

/-- The setting with the keys of every map in order. -/
def sorted : Setting → Setting
  | .bool b => .bool b
  | .num n => .num n
  | .str s => .str s
  | .list items => .list (sortedItems items)
  | .map entries => .map (Table.sorted (sortedEntries entries))

/-- The items with the keys of every map in order. -/
def sortedItems : List Setting → List Setting
  | [] => []
  | s :: ss => sorted s :: sortedItems ss

/-- The entries in their order, each value with the keys of every map in order. -/
def sortedEntries : List (String × Setting) → List (String × Setting)
  | [] => []
  | (k, s) :: es => (k, sorted s) :: sortedEntries es

end

theorem values_sortedEntries (es : Settings) (k : String) :
    Table.values (sortedEntries es) k = (Table.values es k).map sorted := by
  induction es with
  | nil => rfl
  | cons e es ih => by_cases h : e.1 = k <;> simp [sortedEntries, Table.values_cons, h, ih]

theorem kind_sorted (s : Setting) : s.sorted.kind = s.kind := by
  cases s <;> rw [sorted] <;> rfl

theorem shows_sorted : Shows sorted where
  kind_eq {s s'} h := by rw [← kind_sorted, h, kind_sorted]
  map_iff {es es'} := by
    rw [sorted, sorted, map.injEq, Table.sorted_eq_iff]
    simp only [values_sortedEntries]
    rfl

/-- Neither the order of the keys of a map shows, nor of those of a map within it. -/
example : sorted (.map [("b", .map [("y", .bool true), ("x", .str "")]), ("a", .list [])]) =
    sorted (.map [("a", .list []), ("b", .map [("x", .str ""), ("y", .bool true)])]) := by
  cbv

end LintConfig.Setting
