import LintConfig.Document.Decode
import LintConfig.Proofs.Decode.Settled
import LintConfig.Proofs.Json.Permuted
import LintConfig.Proofs.Setting

/-!
# Decoding permuted values

`Respects decoder R` says that where a value can be read, so can every value that differs from it in
the order of keys only, and that what is read is related by `R`.  Simple values are read as they
are; what is read of a setting or a table differs in the order of keys only when it is written again
(`Rewritten`).  A record does not depend on the order of its fields, if reading one of them does not
depend on reading another (`Record.respects`).
-/

namespace LintConfig.Decode

open Json (Permuted PermutedItems PermutedMembers permutedMembers_iff)

variable {α β : Type} {decoder : Decoder α} {R : α → α → Prop} {write : α → Json}

/-- Whatever is read from a value is read from the value with its keys in another order, up to `R`. -/
def Respects (decoder : Decoder α) (R : α → α → Prop) : Prop :=
  ∀ (j j' : Json) (a : α), Permuted j j' → decoder (.ofJson j) = .ok a →
    ∃ b, decoder (.ofJson j') = .ok b ∧ R a b

/-- What is written differs in the order of keys only. -/
def Rewritten (write : α → Json) (a b : α) : Prop := Permuted (write a) (write b)

/-! ### Simple values -/

theorem respects_string : Respects string Eq := by
  intro j j' a h ha
  cases h with
  | str s => exact ⟨a, ha, rfl⟩
  | _ => cases ha

theorem respects_boolean : Respects boolean Eq := by
  intro j j' a h ha
  cases h with
  | bool b => exact ⟨a, ha, rfl⟩
  | _ => cases ha

theorem Respects.mono {S : α → α → Prop} (h : Respects decoder R) (hRS : ∀ a b, R a b → S a b) :
    Respects decoder S := by
  intro j j' a hj ha
  obtain ⟨b, hb, hab⟩ := h j j' a hj ha
  exact ⟨b, hb, hRS a b hab⟩

theorem Respects.optional (h : Respects decoder Eq) : Respects (optional decoder) Eq := by
  intro j j' a hj ha
  have hsome (hread : (decoder (.ofJson j)).map some = .ok a) :
      ∃ b, (decoder (.ofJson j')).map some = .ok b ∧ a = b := by
    obtain ⟨b, hb, rfl⟩ := exists_of_map_eq_ok hread
    obtain ⟨_, hb', rfl⟩ := h j j' b hj hb
    exact ⟨some b, by rw [hb']; rfl, rfl⟩
  cases hj with
  | null => exact ⟨a, ha, rfl⟩
  | bool | num | str | arr | obj => exact hsome ha

/-! ### Containers -/

theorem Respects.items (h : Respects decoder R) {js js' : List Json} {as : List α}
    (hjs : PermutedItems js js') (has : items decoder (Node.ofItems js) = .ok as) :
    ∃ bs, items decoder (Node.ofItems js') = .ok bs ∧ List.Forall₂ R as bs := by
  induction js generalizing js' as with
  | nil =>
    cases hjs
    cases has
    exact ⟨[], rfl, .nil⟩
  | cons j js ih =>
    cases hjs with
    | @cons _ j' _ js' hj hjs =>
      obtain ⟨a, ha, has⟩ := exists_of_bind_eq_ok has
      obtain ⟨rest, hrest, has⟩ := exists_of_bind_eq_ok has
      obtain rfl := Except.ok.inj has
      obtain ⟨b, hb, hab⟩ := h j j' a hj ha
      obtain ⟨bs, hbs, habs⟩ := ih hjs hrest
      exact ⟨b :: bs, by rw [Node.ofItems, Decode.items, hb, hbs]; rfl, .cons hab habs⟩

theorem Respects.list (h : Respects decoder R) : Respects (list decoder) (List.Forall₂ R) := by
  intro j j' as hj has
  cases hj with
  | arr hjs => exact h.items hjs has
  | _ => cases has

theorem Respects.list_eq (h : Respects decoder Eq) : Respects (Decode.list decoder) Eq :=
  h.list.mono fun _ _ hab => List.forall₂_eq_eq_eq ▸ hab

theorem entries_ofMembers_cons_eq_ok_iff {m : String × Json} {ms : List (String × Json)}
    {t : List (String × α)} : entries decoder (Node.ofMembers (m :: ms)) = .ok t ↔
      ∃ a rest, decoder (.ofJson m.2) = .ok a ∧
        entries decoder (Node.ofMembers ms) = .ok rest ∧ t = (m.1, a) :: rest := by
  have hcons : entries decoder (Node.ofMembers (m :: ms)) = (decoder (.ofJson m.2)).bind fun a =>
      (entries decoder (Node.ofMembers ms)).map fun rest => (m.1, a) :: rest := by
    rw [Node.ofMembers, entries]
    cases decoder (.ofJson m.2) <;> cases entries decoder (Node.ofMembers ms) <;> rfl
  rw [hcons]
  cases decoder (.ofJson m.2) with
  | error fault => simp [Except.bind]
  | ok a => cases entries decoder (Node.ofMembers ms) <;> simp [Except.bind, Except.map, eq_comm]

theorem Respects.entries (h : Respects decoder R) {ms ms' : List (String × Json)}
    {t : List (String × α)} (hms : PermutedMembers ms ms')
    (ht : entries decoder (Node.ofMembers ms) = .ok t) :
    ∃ u, entries decoder (Node.ofMembers ms') = .ok u ∧ Table.Matched (fun _ => R) t u := by
  induction ms generalizing ms' t with
  | nil =>
    cases hms
    cases ht
    exact ⟨[], rfl, .nil⟩
  | cons m ms ih =>
    cases hms with
    | @cons name j j' _ ms' hj hms =>
      obtain ⟨a, rest, ha, hrest, rfl⟩ := entries_ofMembers_cons_eq_ok_iff.1 ht
      obtain ⟨b, hb, hab⟩ := h j j' a hj ha
      obtain ⟨u, hu, hrestu⟩ := ih hms hrest
      exact ⟨(name, b) :: u, entries_ofMembers_cons_eq_ok_iff.2 ⟨b, u, hb, hu, rfl⟩,
        .cons ⟨rfl, hab⟩ hrestu⟩

theorem entries_perm {ms ms' : List (String × Json)} (h : ms.Perm ms') {t : List (String × α)}
    (ht : entries decoder (Node.ofMembers ms) = .ok t) :
    ∃ u, entries decoder (Node.ofMembers ms') = .ok u ∧ t.Perm u := by
  induction h generalizing t with
  | nil => exact ⟨t, ht, .refl t⟩
  | cons m _ ih =>
    obtain ⟨a, rest, ha, hrest, rfl⟩ := entries_ofMembers_cons_eq_ok_iff.1 ht
    obtain ⟨u, hu, hperm⟩ := ih hrest
    exact ⟨(m.1, a) :: u, entries_ofMembers_cons_eq_ok_iff.2 ⟨a, u, ha, hu, rfl⟩, hperm.cons _⟩
  | swap m' m ms =>
    obtain ⟨a, rest, ha, hrest, rfl⟩ := entries_ofMembers_cons_eq_ok_iff.1 ht
    obtain ⟨a', rest', ha', hrest', rfl⟩ := entries_ofMembers_cons_eq_ok_iff.1 hrest
    have hfirst := entries_ofMembers_cons_eq_ok_iff.2 ⟨a, rest', ha, hrest', rfl⟩
    exact ⟨(m'.1, a') :: (m.1, a) :: rest',
      entries_ofMembers_cons_eq_ok_iff.2 ⟨a', _, ha', hfirst, rfl⟩, .swap _ _ _⟩
  | trans _ _ ih ih' =>
    obtain ⟨u, hu, hperm⟩ := ih ht
    obtain ⟨v, hv, hperm'⟩ := ih' hu
    exact ⟨v, hv, hperm.trans hperm'⟩

theorem keys_of_entries {ms : List (String × Json)} {t : List (String × α)}
    (h : entries decoder (Node.ofMembers ms) = .ok t) : Table.keys t = Table.keys ms := by
  induction ms generalizing t with
  | nil =>
    cases h
    rfl
  | cons m ms ih =>
    obtain ⟨a, rest, -, hrest, rfl⟩ := entries_ofMembers_cons_eq_ok_iff.1 h
    exact congrArg (m.1 :: ·) (ih hrest)

/-- Entries that are matched and then put into another order make tables that differ in it only. -/
theorem rewritten_ofEntries {t mid u : Table α}
    (h : Table.Matched (fun _ => Rewritten write) t mid) (hperm : mid.Perm u)
    (hnodup : (Table.keys t).Nodup) : Rewritten (fun t => .obj (Table.mapValues write t))
      (Table.ofEntries t) (Table.ofEntries u) := by
  have hmembers : Table.Matched (fun _ => Permuted) (Table.mapValues write t)
      (Table.mapValues write mid) := by
    unfold Table.Matched Table.mapValues
    rw [List.forall₂_map_left_iff, List.forall₂_map_right_iff]
    exact h
  have hkeys : (Table.keys mid).Perm (Table.keys u) := hperm.map Prod.fst
  have hnodup' : (Table.keys u).Nodup := hkeys.nodup_iff.1 (h.keys_eq ▸ hnodup)
  rw [Table.ofEntries_eq_self hnodup, Table.ofEntries_eq_self hnodup']
  refine .obj (permutedMembers_iff.2 hmembers) (hperm.map _) ?_
  rwa [Table.keys, Table.mapValues, List.map_map]

/-- A table is read with its keys in the other order. -/
theorem Respects.table (h : Respects decoder (Rewritten write)) :
    Respects (table decoder) (Rewritten fun t => .obj (Table.mapValues write t)) := by
  intro j j' t hj ht
  cases hj with
  | @obj ms mid ms' hms hperm hnodup =>
    obtain ⟨l, hl, rfl⟩ := exists_of_map_eq_ok ht
    obtain ⟨mid, hmid, hmatched⟩ := h.entries hms hl
    obtain ⟨u, hu, hperm'⟩ := entries_perm hperm hmid
    refine ⟨Table.ofEntries u, ?_, rewritten_ofEntries hmatched hperm' ?_⟩
    · change (Decode.entries decoder (Node.ofMembers ms')).map Table.ofEntries = _
      rw [hu]
      rfl
    · rwa [keys_of_entries hl]
  | _ => cases ht

/-! ### Records -/

namespace Record

variable {r : Record α}

/-- A field is read from permuted values into related records alike. -/
def RespectsField (r : Record α) (R : α → α → Prop) (name : String) : Prop :=
  ∀ (j j' : Json) (a a' b : α), Permuted j j' → R a a' → r.read name (.ofJson j) a = .ok b →
    ∃ b', r.read name (.ofJson j') a' = .ok b' ∧ R b b'

theorem RespectsField.of_respects {decoder : Decoder β} {S : β → β → Prop}
    (h : Respects decoder S) {name : String} {set : α → β → α}
    (hread : ∀ n a, r.read name n a = decoder n >>= fun v => pure (set a v))
    (hset : ∀ a a' v v', R a a' → S v v' → R (set a v) (set a' v')) : RespectsField r R name := by
  intro j j' a a' b hj ha hb
  rw [hread] at hb
  obtain ⟨v, hv, rfl⟩ := exists_of_read hb
  obtain ⟨v', hv', hvv'⟩ := h j j' v hj hv
  exact ⟨set a' v', by rw [hread, hv']; rfl, hset a a' v v' ha hvv'⟩

/-- Reading one field and then another may be done in the other order. -/
def Commutes (r : Record α) (name name' : String) : Prop :=
  ∀ (n n' : Node) (a b c : α), r.read name n a = .ok b → r.read name' n' b = .ok c →
    ∃ b', r.read name' n' a = .ok b' ∧ r.read name n b' = .ok c

/-- Fields that are set apart from each other are read in any order. -/
theorem Commutes.of_set {γ : Type} {decoder : Decoder β} {decoder' : Decoder γ}
    {name name' : String} {set : α → β → α} {set' : α → γ → α}
    (hread : ∀ n a, r.read name n a = decoder n >>= fun v => pure (set a v))
    (hread' : ∀ n a, r.read name' n a = decoder' n >>= fun v => pure (set' a v))
    (hset : ∀ a v v', set' (set a v) v' = set (set' a v') v) : Commutes r name name' := by
  intro n n' a b c hb hc
  rw [hread] at hb
  obtain ⟨v, hv, rfl⟩ := exists_of_read hb
  rw [hread'] at hc
  obtain ⟨v', hv', rfl⟩ := exists_of_read hc
  exact ⟨set' a v', by rw [hread', hv']; rfl, by rw [hread, hv, hset]; rfl⟩

/-- What the first member does: it is a new field, or it is skipped. -/
theorem readEntries_ofMembers_cons_eq_ok_iff {m : String × Json} {ms : List (String × Json)}
    {seen : List String} {a b : α} : r.readEntries seen a (Node.ofMembers (m :: ms)) = .ok b ↔
      (m.1 ∈ r.fields ∧ m.1 ∉ seen ∧ ∃ c, r.read m.1 (.ofJson m.2) a = .ok c ∧
        r.readEntries (m.1 :: seen) c (Node.ofMembers ms) = .ok b) ∨
      (m.1 ∉ r.fields ∧ r.skipsUnknown = true ∧
        r.readEntries seen a (Node.ofMembers ms) = .ok b) := by
  rw [readEntries_ofMembers_cons]
  by_cases hknown : m.1 ∈ r.fields
  · by_cases hseen : m.1 ∈ seen
    · simp [hknown, hseen]
    · cases r.read m.1 (.ofJson m.2) a <;> simp [hknown, hseen, bind, Except.bind]
  · cases hskips : r.skipsUnknown <;> simp [hknown]

/-- Only which fields were read before matters, and not in which order. -/
theorem readEntries_congr {es : List (Node × Node)} {seen seen' : List String}
    (h : ∀ k, k ∈ seen ↔ k ∈ seen') (a : α) :
    r.readEntries seen a es = r.readEntries seen' a es := by
  have hcontains (k : String) : seen.contains k = seen'.contains k := by
    rw [Bool.eq_iff_iff, List.contains_iff_mem, List.contains_iff_mem, h k]
  induction es generalizing seen seen' a with
  | nil => simp only [readEntries, hcontains]
  | cons e es ih =>
    have hrest (name : String) (b : α) :
        r.readEntries (name :: seen) b es = r.readEntries (name :: seen') b es :=
      ih (fun k => by rw [List.mem_cons, List.mem_cons, h k]) b fun k => by
        rw [List.contains_cons, List.contains_cons, hcontains k]
    simp only [readEntries, hcontains, hrest, ih h a hcontains]

theorem readEntries_permuted (hfields : ∀ name ∈ r.fields, RespectsField r R name)
    {ms ms' : List (String × Json)} (hms : PermutedMembers ms ms') {seen : List String}
    {a a' b : α} (ha : R a a') (h : r.readEntries seen a (Node.ofMembers ms) = .ok b) :
    ∃ b', r.readEntries seen a' (Node.ofMembers ms') = .ok b' ∧ R b b' := by
  induction ms generalizing ms' seen a a' with
  | nil =>
    cases hms
    rw [Node.ofMembers, readEntries] at h ⊢
    split at h
    · cases h
    · cases h
      exact ⟨a', rfl, ha⟩
  | cons m ms ih =>
    cases hms with
    | @cons name j j' _ ms' hj hms =>
      rcases readEntries_ofMembers_cons_eq_ok_iff.1 h with ⟨hknown, hnew, c, hc, h⟩ |
        ⟨hknown, hskips, h⟩
      · obtain ⟨c', hc', hcc'⟩ := hfields name hknown j j' a a' c hj ha hc
        obtain ⟨b', hb', hbb'⟩ := ih hms hcc' h
        exact ⟨b', readEntries_ofMembers_cons_eq_ok_iff.2 (.inl ⟨hknown, hnew, c', hc', hb'⟩),
          hbb'⟩
      · obtain ⟨b', hb', hbb'⟩ := ih hms ha h
        exact ⟨b', readEntries_ofMembers_cons_eq_ok_iff.2 (.inr ⟨hknown, hskips, hb'⟩), hbb'⟩

/-- A record does not depend on the order of its fields. -/
theorem readEntries_perm (hcommutes : ∀ name ∈ r.fields, ∀ name' ∈ r.fields, name ≠ name' →
      Commutes r name name') {ms ms' : List (String × Json)} (hperm : ms.Perm ms')
    {seen : List String} {a b : α} (h : r.readEntries seen a (Node.ofMembers ms) = .ok b) :
    r.readEntries seen a (Node.ofMembers ms') = .ok b := by
  induction hperm generalizing seen a with
  | nil => exact h
  | cons m _ ih =>
    refine readEntries_ofMembers_cons_eq_ok_iff.2 ?_
    rcases readEntries_ofMembers_cons_eq_ok_iff.1 h with ⟨hknown, hnew, c, hc, h⟩ |
      ⟨hknown, hskips, h⟩
    · exact .inl ⟨hknown, hnew, c, hc, ih h⟩
    · exact .inr ⟨hknown, hskips, ih h⟩
  | swap m' m ms =>
    simp only [readEntries_ofMembers_cons_eq_ok_iff] at h ⊢
    rcases h with ⟨hknown, hnew, c, hc, ⟨hknown', hnew', d, hd, h⟩ | ⟨hknown', hskips, h⟩⟩ |
      ⟨hknown, hskips, ⟨hknown', hnew', d, hd, h⟩ | ⟨hknown', -, h⟩⟩
    · -- both are fields: what was read of one is read after the other
      rw [List.mem_cons, not_or] at hnew'
      obtain ⟨c', hc', hd'⟩ :=
        hcommutes m.1 hknown m'.1 hknown' (Ne.symm hnew'.1) _ _ a c d hc hd
      refine .inl ⟨hknown', hnew'.2, c', hc', .inl ⟨hknown, ?_, d, hd', ?_⟩⟩
      · rw [List.mem_cons, not_or]
        exact ⟨Ne.symm hnew'.1, hnew⟩
      · have hseen (k : String) : k ∈ m.1 :: m'.1 :: seen ↔ k ∈ m'.1 :: m.1 :: seen := by
          simp [or_left_comm]
        rw [readEntries_congr hseen]
        exact h
    · exact .inr ⟨hknown', hskips, .inl ⟨hknown, hnew, c, hc, h⟩⟩
    · exact .inl ⟨hknown', hnew', d, hd, .inr ⟨hknown, hskips, h⟩⟩
    · exact .inr ⟨hknown', hskips, .inr ⟨hknown, hskips, h⟩⟩
  | trans _ _ ih ih' => exact ih' (ih h)

theorem readItems_permuted (hfields : ∀ name ∈ r.fields, RespectsField r R name)
    {names : List String} (hnames : names ⊆ r.fields) {js js' : List Json}
    (hjs : PermutedItems js js') {a a' b : α} (ha : R a a')
    (h : r.readItems a names (Node.ofItems js) = .ok b) :
    ∃ b', r.readItems a' names (Node.ofItems js') = .ok b' ∧ R b b' := by
  induction js generalizing names js' a a' with
  | nil =>
    cases hjs
    cases names <;> cases h <;> exact ⟨a', rfl, ha⟩
  | cons j js ih =>
    cases hjs with
    | @cons _ j' _ js' hj hjs =>
      cases names with
      | nil =>
        cases h
        exact ⟨a', rfl, ha⟩
      | cons name names =>
        rw [List.cons_subset] at hnames
        obtain ⟨c, hc, h⟩ := exists_of_bind_eq_ok h
        obtain ⟨c', hc', hcc'⟩ := hfields name hnames.1 j j' a a' c hj ha hc
        obtain ⟨b', hb', hbb'⟩ := ih hnames.2 hjs hcc' h
        exact ⟨b', by rw [Node.ofItems, readItems, hc']; exact hb', hbb'⟩

theorem length_ofItems_eq {js js' : List Json} (h : PermutedItems js js') :
    (Node.ofItems js).length = (Node.ofItems js').length := by
  induction js generalizing js' with
  | nil =>
    cases h
    rfl
  | cons j js ih =>
    cases h with
    | cons _ hjs => rw [Node.ofItems, Node.ofItems, List.length_cons, List.length_cons, ih hjs]

/-- A record is read from permuted values alike if each of its fields is, in any order. -/
theorem respects (hblank : R r.blank r.blank)
    (hfields : ∀ name ∈ r.fields, RespectsField r R name)
    (hcommutes : ∀ name ∈ r.fields, ∀ name' ∈ r.fields, name ≠ name' → Commutes r name name')
    (shape : Shape) : Respects (r.decode shape) R := by
  intro j j' a hj ha
  cases hj with
  | obj hms hperm _ =>
    obtain ⟨b, hb, hab⟩ := readEntries_permuted hfields hms hblank ha
    exact ⟨b, readEntries_perm hcommutes hperm hb, hab⟩
  | arr hjs =>
    cases shape with
    | plain => cases ha
    | liberal =>
      obtain ⟨hread, hrequired, hlength⟩ := decode_seq_eq_ok_iff.1 ha
      obtain ⟨b, hb, hab⟩ :=
        readItems_permuted hfields (List.Subset.refl r.fields) hjs hblank hread
      rw [length_ofItems_eq hjs] at hrequired hlength
      exact ⟨b, decode_seq_eq_ok_iff.2 ⟨hb, hrequired, hlength⟩, hab⟩
  | _ => cases ha

end Record

end LintConfig.Decode

namespace LintConfig

open Decode
open Json (Permuted PermutedItems PermutedMembers)

/-! ### Settings -/

namespace Setting

theorem setting_eq_ok_iff {n : Node} {s : Setting} : setting n = .ok s ↔ ofNode? n = some s := by
  rw [setting]
  cases ofNode? n <;> simp

theorem entriesOf?_eq_some_iff {ms : List (String × Json)} {es : List (String × Setting)} :
    entriesOf? (Node.ofMembers ms) = some es ↔ entries setting (Node.ofMembers ms) = .ok es := by
  induction ms generalizing es with
  | nil => simp [Node.ofMembers, entriesOf?, entries]
  | cons m ms ih =>
    rw [entries_ofMembers_cons_eq_ok_iff]
    simp [setting_eq_ok_iff, ← ih, Node.ofMembers, entriesOf?, Node.keyAtom?,
      Option.bind_eq_some_iff, eq_comm (a := es)]

mutual

/-- A setting is read with its keys in the other order, at any depth. -/
theorem ofNode?_permuted : ∀ (j j' : Json) (s : Setting), Permuted j j' →
    ofNode? (.ofJson j) = some s →
    ∃ s', ofNode? (.ofJson j') = some s' ∧ Rewritten toJson s s'
  | .null, _, s, .null, h => by cases h
  | .bool b, _, s, .bool _, h => by
    cases h
    exact ⟨.bool b, rfl, .bool b⟩
  | .num n, _, s, .num _, h => by
    cases h
    exact ⟨.num n, rfl, .num n⟩
  | .str t, _, s, .str _, h => by
    cases h
    exact ⟨.str t, rfl, .str t⟩
  | .arr js, _, s, .arr hjs, h => by
    obtain ⟨ss, hss, rfl⟩ := Option.map_eq_some_iff.1 h
    obtain ⟨ss', hss', hpermuted⟩ := itemsOf?_permuted js _ ss hjs hss
    exact ⟨.list ss', congrArg (Option.map Setting.list) hss', .arr hpermuted⟩
  | .obj ms, .obj ms', s, .obj hms hperm hnodup, h => by
    obtain ⟨es, hes, rfl⟩ := Option.map_eq_some_iff.1 h
    obtain ⟨mid, hmid, hmatched⟩ := entriesOf?_permuted ms _ es hms hes
    obtain ⟨u, hu, hperm'⟩ := entries_perm hperm (entriesOf?_eq_some_iff.1 hmid)
    refine ⟨.map (Table.ofEntries u), ?_, ?_⟩
    · change (entriesOf? (Node.ofMembers ms')).map (fun es => Setting.map (Table.ofEntries es)) = _
      rw [entriesOf?_eq_some_iff.2 hu]
      rfl
    · rw [Rewritten, toJson, toJson, entriesJson_eq_mapValues, entriesJson_eq_mapValues]
      refine rewritten_ofEntries hmatched hperm' ?_
      rwa [keys_of_entries (entriesOf?_eq_some_iff.1 hes)]

theorem itemsOf?_permuted : ∀ (js js' : List Json) (ss : List Setting), PermutedItems js js' →
    itemsOf? (Node.ofItems js) = some ss →
    ∃ ss', itemsOf? (Node.ofItems js') = some ss' ∧ PermutedItems (itemsJson ss) (itemsJson ss')
  | [], _, ss, .nil, h => by
    cases h
    exact ⟨[], rfl, .nil⟩
  | j :: js, _, ss, .cons hj hjs, h => by
    obtain ⟨s, hs, h⟩ := Option.bind_eq_some_iff.1 h
    obtain ⟨rest, hrest, h⟩ := Option.bind_eq_some_iff.1 h
    cases h
    obtain ⟨s', hs', hpermuted⟩ := ofNode?_permuted j _ s hj hs
    obtain ⟨rest', hrest', hpermuteds⟩ := itemsOf?_permuted js _ rest hjs hrest
    exact ⟨s' :: rest', by rw [Node.ofItems, itemsOf?, hs', hrest']; rfl,
      .cons hpermuted hpermuteds⟩

theorem entriesOf?_permuted : ∀ (ms ms' : List (String × Json)) (es : List (String × Setting)),
    PermutedMembers ms ms' → entriesOf? (Node.ofMembers ms) = some es →
    ∃ es', entriesOf? (Node.ofMembers ms') = some es' ∧
      Table.Matched (fun _ => Rewritten toJson) es es'
  | [], _, es, .nil, h => by
    cases h
    exact ⟨[], rfl, .nil⟩
  | (name, j) :: ms, _, es, .cons _ hj hms, h => by
    obtain ⟨s, hs, h⟩ := Option.bind_eq_some_iff.1 h
    obtain ⟨rest, hrest, h⟩ := Option.bind_eq_some_iff.1 h
    cases h
    obtain ⟨s', hs', hpermuted⟩ := ofNode?_permuted j _ s hj hs
    obtain ⟨rest', hrest', hmatched⟩ := entriesOf?_permuted ms _ rest hms hrest
    exact ⟨(name, s') :: rest', by rw [Node.ofMembers, entriesOf?, hs', hrest']; rfl,
      .cons ⟨rfl, hpermuted⟩ hmatched⟩

end

theorem respects : Respects setting (Rewritten toJson) := by
  intro j j' s hj h
  obtain ⟨s', hs', hpermuted⟩ := ofNode?_permuted j j' s hj (setting_eq_ok_iff.1 h)
  exact ⟨s', setting_eq_ok_iff.2 hs', hpermuted⟩

end Setting

theorem Settings.toJson_eq (t : Settings) : t.toJson = .obj (Table.mapValues Setting.toJson t) :=
  congrArg Json.obj (Setting.entriesJson_eq_mapValues t)

theorem Settings.respects : Respects Settings.decode (Rewritten Settings.toJson) := by
  rw [funext Settings.toJson_eq]
  exact Setting.respects.table

theorem respects_environment : Respects (table boolean) (Rewritten Written.environment) :=
  Respects.table (respects_boolean.mono fun a _ h => h ▸ .bool a)

/-! ### Texts and rule entries -/

namespace Setting

theorem eq_num_of_rewritten {n : Number} {s : Setting} (h : Rewritten toJson (.num n) s) : s = .num n := by
  cases s <;> cases h
  rfl

theorem eq_str_of_rewritten {t : String} {s : Setting} (h : Rewritten toJson (.str t) s) : s = .str t := by
  cases s <;> cases h
  rfl

theorem exists_list_of_rewritten {ss : List Setting} {s : Setting} (h : Rewritten toJson (.list ss) s) :
    ∃ ss', s = .list ss' ∧ PermutedItems (itemsJson ss) (itemsJson ss') := by
  cases s <;> cases h
  exact ⟨_, rfl, ‹_›⟩

theorem mapM_str?_permuted {ss ss' : List Setting} {ts : List String}
    (h : PermutedItems (itemsJson ss) (itemsJson ss')) (hts : ss.mapM str? = some ts) :
    ss'.mapM str? = some ts := by
  induction ss generalizing ss' ts with
  | nil =>
    cases ss' with
    | nil => exact hts
    | cons => cases h
  | cons s ss ih =>
    cases ss' with
    | nil => cases h
    | cons s' ss' =>
      cases h with
      | cons hs hss =>
        rw [List.mapM_cons] at hts ⊢
        obtain ⟨t, ht, htail⟩ := Option.bind_eq_some_iff.1 hts
        obtain ⟨rest, hrest, hall⟩ := Option.bind_eq_some_iff.1 htail
        obtain rfl : s = .str t := by
          cases s <;> cases ht
          rfl
        obtain rfl := eq_str_of_rewritten hs
        rw [ih hss hrest]
        exact hall

end Setting

/-- What is read off a setting is read off a setting with its keys in another order. -/
theorem Decode.respects_of_ofNode? {α : Type} {decoder : Decoder α} {R : α → α → Prop}
    (hnone : ∀ n a, Setting.ofNode? n = none → decoder n ≠ .ok a)
    (hsome : ∀ n n' s s' a, Setting.ofNode? n = some s → Setting.ofNode? n' = some s' →
      Rewritten Setting.toJson s s' → decoder n = .ok a → ∃ b, decoder n' = .ok b ∧ R a b) :
    Respects decoder R := by
  intro j j' a hj ha
  cases hs : Setting.ofNode? (.ofJson j) with
  | none => exact absurd ha (hnone _ a hs)
  | some s =>
    obtain ⟨s', hs', hpermuted⟩ := Setting.ofNode?_permuted j j' s hj hs
    exact hsome _ _ s s' a hs hs' hpermuted ha

theorem OneOrMany.respects : Respects OneOrMany.decode Eq := by
  refine respects_of_ofNode? ?_ ?_
  · intro n o hn h
    rw [OneOrMany.decode, hn] at h
    cases h
  · intro n n' s s' o hn hn' hs h
    refine ⟨o, ?_, rfl⟩
    rw [OneOrMany.decode, hn] at h
    rw [OneOrMany.decode, hn']
    cases s with
    | str t =>
      obtain rfl := Setting.eq_str_of_rewritten hs
      exact h
    | list ss =>
      obtain ⟨ss', rfl, hss⟩ := Setting.exists_list_of_rewritten hs
      dsimp only at h ⊢
      cases hts : ss.mapM Setting.str? with
      | none => simp [hts] at h
      | some ts =>
        rw [hts] at h
        rw [Setting.mapM_str?_permuted hss hts]
        exact h
    | _ => cases h

namespace RuleEntry

theorem permuted_severity (severity : RawSeverity) : Permuted severity.toJson severity.toJson := by
  cases severity with
  | code n => exact .num n
  | word w => exact .str w

/-- An entry is written like the list that it was read from, unless it has no options. -/
theorem ofList_permuted {ss ss' : List Setting} {e : RuleEntry}
    (h : PermutedItems (Setting.itemsJson ss) (Setting.itemsJson ss')) (he : ofList ss = .ok e) :
    ∃ e', ofList ss' = .ok e' ∧ Rewritten toJson e e' := by
  cases ss with
  | nil => cases he
  | cons s rest =>
    cases ss' with
    | nil => cases h
    | cons s' rest' =>
      cases h with
      | cons hs hrest =>
        have hoptions (severity : RawSeverity) : Rewritten toJson
            ⟨severity, if rest.isEmpty then none else some rest⟩
            ⟨severity, if rest'.isEmpty then none else some rest'⟩ := by
          cases rest <;> cases rest'
          · exact permuted_severity severity
          · cases hrest
          · cases hrest
          · exact .arr (.cons (permuted_severity severity) hrest)
        cases s with
        | num n =>
          obtain rfl := Setting.eq_num_of_rewritten hs
          cases he
          exact ⟨_, rfl, hoptions (.code n)⟩
        | str w =>
          obtain rfl := Setting.eq_str_of_rewritten hs
          cases he
          exact ⟨_, rfl, hoptions (.word w)⟩
        | _ => cases he

theorem respects : Respects RuleEntry.decode (Rewritten toJson) := by
  refine respects_of_ofNode? ?_ ?_
  · intro n e hn h
    rw [RuleEntry.decode, hn] at h
    cases h
  · intro n n' s s' e hn hn' hs h
    rw [RuleEntry.decode, hn] at h
    rw [RuleEntry.decode, hn']
    cases s with
    | num n =>
      obtain rfl := Setting.eq_num_of_rewritten hs
      cases h
      exact ⟨_, rfl, permuted_severity (.code n)⟩
    | str w =>
      obtain rfl := Setting.eq_str_of_rewritten hs
      cases h
      exact ⟨_, rfl, permuted_severity (.word w)⟩
    | list ss =>
      obtain ⟨ss', rfl, hss⟩ := Setting.exists_list_of_rewritten hs
      exact ofList_permuted hss h
    | _ => cases h

end RuleEntry

theorem RuleMap.respects : Respects RuleMap.decode (Rewritten RuleMap.toJson) :=
  RuleEntry.respects.table

end LintConfig
