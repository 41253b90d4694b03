import LintConfig.Proofs.Json.Canonical

/-!
# The order of keys

`Permuted j j'` says that two values differ in the order of the members of their objects only, at
any depth, where no object repeats a name.  Such values have one canonical form
(`Permuted.canonicalChars_eq`).
-/

namespace LintConfig.Json

mutual

/-- Values that differ in the order of the members of their objects only. -/
inductive Permuted : Json → Json → Prop where
  | null : Permuted .null .null
  | bool (b : Bool) : Permuted (.bool b) (.bool b)
  | num (n : Number) : Permuted (.num n) (.num n)
  | str (s : String) : Permuted (.str s) (.str s)
  | arr {js js' : List Json} (h : PermutedItems js js') : Permuted (.arr js) (.arr js')
  /-- The values are permuted in place, and then the members. -/
  | obj {ms mid ms' : List (String × Json)} (h : PermutedMembers ms mid) (hperm : mid.Perm ms')
      (hnodup : (Table.keys ms).Nodup) : Permuted (.obj ms) (.obj ms')

/-- Items one by one. -/
inductive PermutedItems : List Json → List Json → Prop where
  | nil : PermutedItems [] []
  | cons {j j' : Json} {js js' : List Json} (h : Permuted j j') (hs : PermutedItems js js') :
      PermutedItems (j :: js) (j' :: js')

/-- Members one by one. -/
inductive PermutedMembers : List (String × Json) → List (String × Json) → Prop where
  | nil : PermutedMembers [] []
  | cons (name : String) {j j' : Json} {ms ms' : List (String × Json)} (h : Permuted j j')
      (hs : PermutedMembers ms ms') : PermutedMembers ((name, j) :: ms) ((name, j') :: ms')

end

theorem permutedMembers_iff {ms ms' : List (String × Json)} :
    PermutedMembers ms ms' ↔ Table.Matched (fun _ => Permuted) ms ms' := by
  constructor
  · intro h
    induction ms generalizing ms' with
    | nil =>
      cases h
      exact .nil
    | cons m ms ih =>
      cases h with
      | cons name h hs => exact .cons ⟨rfl, h⟩ (ih hs)
  · intro h
    induction h with
    | nil => exact .nil
    | @cons m m' ms ms' h _ ih =>
      obtain ⟨name, j⟩ := m
      obtain ⟨name', j'⟩ := m'
      obtain rfl : name = name' := h.1
      exact .cons name h.2 ih

theorem PermutedMembers.keys_eq {ms ms' : List (String × Json)} (h : PermutedMembers ms ms') :
    Table.keys ms = Table.keys ms' :=
  (permutedMembers_iff.1 h).keys_eq

/-! ### Canonical forms -/

mutual

/-- The order of keys does not show in the canonical form, at any depth. -/
theorem Permuted.canonicalChars_eq :
    ∀ {j j' : Json}, Permuted j j' → canonicalChars j = canonicalChars j'
  | .null, _, .null => rfl
  | .bool b, _, .bool _ => rfl
  | .num n, _, .num _ => rfl
  | .str s, _, .str _ => rfl
  | .arr js, _, .arr h => canonical_arr_iff.2 h.map_canonicalChars
  | .obj ms, _, .obj h hperm hnodup => by
    refine canonical_obj_iff.2 fun k => ?_
    rw [h.values_canonicalChars k]
    exact Table.Alike.of_perm canonicalChars hperm (h.keys_eq ▸ hnodup) k

theorem PermutedItems.map_canonicalChars :
    ∀ {js js' : List Json}, PermutedItems js js' → js.map canonicalChars = js'.map canonicalChars
  | [], _, .nil => rfl
  | j :: js, _, .cons h hs => by
    rw [List.map_cons, List.map_cons, h.canonicalChars_eq, hs.map_canonicalChars]

theorem PermutedMembers.values_canonicalChars :
    ∀ {ms ms' : List (String × Json)}, PermutedMembers ms ms' → ∀ k,
      (Table.values ms k).map canonicalChars = (Table.values ms' k).map canonicalChars
  | [], _, .nil, _ => rfl
  | (name, j) :: ms, _, .cons _ h hs, k => by
    rw [Table.values_cons, Table.values_cons]
    split_ifs
    · rw [List.map_cons, List.map_cons, h.canonicalChars_eq, hs.values_canonicalChars k]
    · exact hs.values_canonicalChars k

end

end LintConfig.Json
