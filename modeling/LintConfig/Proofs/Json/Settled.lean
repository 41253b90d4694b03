import LintConfig.Json.Relaxed
import LintConfig.Proofs.Table

/-!
# What the relaxed reader makes of a node

`Settled n j` says that `j` is the value of the node `n` of a strict text, with repeated names
settled and an integer for every whole double.  Where the strict reader found a part that it cannot
read, anything may stand.
-/

namespace LintConfig.Json

mutual

/-- A node and its value with names settled and integers for whole doubles. -/
inductive Settled : Node → Json → Prop where
  | null : Settled .null .null
  | bool (b : Bool) : Settled (.bool b) (.bool b)
  | num (x : Number) : Settled (.num x) (.num (wholeNumber x))
  | str (s : String) : Settled (.str s) (.str s)
  | seq {ns : List Node} {js : List Json} (h : SettledItems ns js) : Settled (.seq ns) (.arr js)
  | map {es : List (Node × Node)} {ms : List (String × Json)} (h : SettledMembers es ms) :
      Settled (.map es) (.obj (Table.ofEntries ms))
  | unreadable (j : Json) : Settled .unreadable j

/-- Items one by one. -/
inductive SettledItems : List Node → List Json → Prop where
  | nil : SettledItems [] []
  | cons {n : Node} {ns : List Node} {j : Json} {js : List Json} (h : Settled n j)
      (hs : SettledItems ns js) : SettledItems (n :: ns) (j :: js)

/-- Members one by one, before repeated names are settled. -/
inductive SettledMembers : List (Node × Node) → List (String × Json) → Prop where
  | nil : SettledMembers [] []
  | cons {name : String} {n : Node} {es : List (Node × Node)} {j : Json}
      {ms : List (String × Json)} (h : Settled n j) (hs : SettledMembers es ms) :
      SettledMembers ((.str name, n) :: es) ((name, j) :: ms)

end

theorem SettledItems.length_eq {ns : List Node} {js : List Json} (h : SettledItems ns js) :
    (Node.ofItems js).length = ns.length := by
  induction ns generalizing js with
  | nil =>
    cases h
    rfl
  | cons n ns ih =>
    cases h with
    | cons hn hns => exact congrArg (· + 1) (ih hns)

theorem wholeMembers_eq (ms : List (String × Json)) :
    wholeMembers ms = Table.mapValues wholeNumbers ms := by
  induction ms with
  | nil => rfl
  | cons m ms ih => rw [wholeMembers, ih]; rfl

end LintConfig.Json
