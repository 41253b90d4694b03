import LintConfig.Proofs.Json.Settled
import LintConfig.Setting

/-!
# Settings with integers for whole doubles

`Setting.wholeNumbers` makes integers of the whole doubles of a setting at every depth.  A settled
value is read as the setting that its node is read as, with the whole doubles made integers.
-/

namespace LintConfig.Setting

open Json (Settled SettledItems SettledMembers)

mutual

/-- Makes integers of whole doubles at every depth. -/
def wholeNumbers : Setting → Setting
  | .num x => .num (Json.wholeNumber x)
  | .list items => .list (wholeItems items)
  | .map entries => .map (wholeEntries entries)
  | .bool b => .bool b
  | .str s => .str s

/-- Makes integers of whole doubles in every item. -/
def wholeItems : List Setting → List Setting
  | [] => []
  | s :: ss => wholeNumbers s :: wholeItems ss

/-- Makes integers of whole doubles in every value. -/
def wholeEntries : List (String × Setting) → List (String × Setting)
  | [] => []
  | (k, s) :: es => (k, wholeNumbers s) :: wholeEntries es

end

theorem wholeItems_eq_map (ss : List Setting) : wholeItems ss = ss.map wholeNumbers := by
  induction ss with
  | nil => rfl
  | cons s ss ih => rw [wholeItems, ih, List.map_cons]

theorem wholeEntries_eq_mapValues (es : List (String × Setting)) :
    wholeEntries es = Table.mapValues wholeNumbers es := by
  induction es with
  | nil => rfl
  | cons e es ih => rw [wholeEntries, ih, Table.mapValues, Table.mapValues, List.map_cons]

theorem entriesOf?_ofMembers_eq {ms : List (String × Json)} {l : List (String × Setting)}
    (h : Table.Matched (fun _ j s => ofNode? (.ofJson j) = some (wholeNumbers s)) ms l) :
    entriesOf? (Node.ofMembers ms) = some (Table.mapValues wholeNumbers l) := by
  induction h with
  | nil => rfl
  | @cons m e ms l h _ ih =>
    rw [Node.ofMembers, entriesOf?, h.2, ih, h.1]
    rfl

mutual

theorem ofNode?_settled : ∀ (n : Node) (j : Json) (s : Setting), Settled n j →
    ofNode? n = some s → ofNode? (.ofJson j) = some s.wholeNumbers
  | .bool b, _, s, .bool _, h => by cases h; rfl
  | .num x, _, s, .num _, h => by cases h; rfl
  | .str t, _, s, .str _, h => by cases h; rfl
  | .seq ns, _, s, .seq hs, h => by
    obtain ⟨ss, hss, rfl⟩ := Option.map_eq_some_iff.1 h
    exact congrArg (Option.map Setting.list) (itemsOf?_settled ns _ ss hs hss)
  | .map es, _, s, .map hs, h => by
    obtain ⟨l, hl, rfl⟩ := Option.map_eq_some_iff.1 h
    have hmatched := (entriesOf?_settled es _ l hs hl).ofEntries
    rw [Node.ofJson, ofNode?, entriesOf?_ofMembers_eq hmatched, Option.map_some,
      ← Table.mapValues_ofEntries, Table.ofEntries_eq_self (Table.nodup_keys_ofEntries l),
      wholeNumbers, wholeEntries_eq_mapValues]

theorem itemsOf?_settled : ∀ (ns : List Node) (js : List Json) (ss : List Setting),
    SettledItems ns js → itemsOf? ns = some ss → itemsOf? (Node.ofItems js) = some (wholeItems ss)
  | [], _, ss, .nil, h => by cases h; rfl
  | n :: ns, _, ss, .cons hn hns, h => by
    obtain ⟨s, hs, h⟩ := Option.bind_eq_some_iff.1 h
    obtain ⟨rest, hrest, h⟩ := Option.bind_eq_some_iff.1 h
    cases h
    rw [Node.ofItems, itemsOf?, ofNode?_settled n _ s hn hs, itemsOf?_settled ns _ rest hns hrest]
    rfl

theorem entriesOf?_settled : ∀ (es : List (Node × Node)) (ms : List (String × Json))
    (l : List (String × Setting)), SettledMembers es ms → entriesOf? es = some l →
    Table.Matched (fun _ j s => ofNode? (.ofJson j) = some (wholeNumbers s)) ms l
  | [], _, l, .nil, h => by cases h; exact .nil
  | (.str name, v) :: es, _, l, .cons hv hes, h => by
    obtain ⟨s, hs, h⟩ := Option.bind_eq_some_iff.1 h
    obtain ⟨rest, hrest, h⟩ := Option.bind_eq_some_iff.1 h
    cases h
    exact .cons ⟨rfl, ofNode?_settled v _ s hv hs⟩ (entriesOf?_settled es _ rest hes hrest)

end

end LintConfig.Setting
