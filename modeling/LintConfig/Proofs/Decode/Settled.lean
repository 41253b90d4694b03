import LintConfig.Proofs.Decode
import LintConfig.Proofs.Setting.WholeNumbers

/-!
# Decoding settled values

`Keeps decoder whole` says that what a decoder makes of a node it also makes of the settled value of
that node, up to `whole`.  The decoders of simple values keep what they read as it is, a setting is
kept with its whole doubles made integers, and containers and records are kept part by part.
-/

namespace LintConfig.Decode

open Json (Settled SettledItems SettledMembers)

variable {α β : Type}

/-- Whatever is read from a node is read from its settled value, up to `whole`; a part that cannot
be read is refused. -/
structure Keeps (decoder : Decoder α) (whole : α → α) : Prop where
  keeps : ∀ {n : Node} {j : Json} {a : α}, Settled n j → decoder n = .ok a →
    decoder (.ofJson j) = .ok (whole a)
  refuses : ∀ a : α, decoder .unreadable ≠ .ok a

theorem exists_of_map_eq_ok {x : Result α} {f : α → β} {b : β} (h : x.map f = .ok b) :
    ∃ a, x = .ok a ∧ f a = b := by
  cases x with
  | error fault => cases h
  | ok a => exact ⟨a, rfl, Except.ok.inj h⟩

/-! ### Simple values -/

theorem keeps_string : Keeps string id where
  keeps hs h := by
    cases hs with
    | str s => exact h
    | _ => cases h
  refuses a h := by cases h

theorem keeps_path : Keeps path id where
  keeps hs h := by
    cases hs with
    | str s => exact h
    | _ => cases h
  refuses a h := by cases h

theorem keeps_boolean : Keeps boolean id where
  keeps hs h := by
    cases hs with
    | bool b => exact h
    | _ => cases h
  refuses a h := by cases h

theorem keeps_natural : Keeps natural id where
  keeps hs h := by
    cases hs with
    | num x =>
      cases x with
      | int n => exact h
      | float d => cases h
    | _ => cases h
  refuses a h := by cases h

/-- What is read from the setting of a node is kept if it is read alike from the setting with
integers for whole doubles. -/
theorem keeps_of_ofNode? {decoder : Decoder α} {whole : α → α}
    (hnone : ∀ n a, Setting.ofNode? n = none → decoder n ≠ .ok a)
    (hsome : ∀ n n' s a, Setting.ofNode? n = some s → Setting.ofNode? n' = some s.wholeNumbers →
      decoder n = .ok a → decoder n' = .ok (whole a)) : Keeps decoder whole where
  keeps {n j a} hs h := by
    cases hn : Setting.ofNode? n with
    | none => exact absurd h (hnone n a hn)
    | some s => exact hsome n (.ofJson j) s a hn (Setting.ofNode?_settled n j s hs hn) h
  refuses a := hnone .unreadable a rfl

theorem keeps_setting : Keeps setting Setting.wholeNumbers := by
  refine keeps_of_ofNode? ?_ ?_
  · intro n a hn h
    rw [setting, hn] at h
    cases h
  · intro n n' s a hn hn' h
    rw [setting, hn] at h
    rw [setting, hn', Except.ok.inj h]

theorem keeps_variant (shape : Shape) (known : List String) (ofWord? : String → Option α) :
    Keeps (variant shape known ofWord?) id where
  keeps {n j a} hs h := by
    cases hs with
    | str s => exact h
    | @map es ms hs =>
      -- a variant may be a map from its word to null
      match shape, hs, h with
      | .liberal, @SettledMembers.cons _ v _ _ _ hv .nil, h =>
        obtain ⟨_, -, hv'⟩ := exists_of_bind_eq_ok h
        obtain ⟨_, -, hv'⟩ := exists_of_bind_eq_ok hv'
        cases v with
        | null =>
          cases hv
          exact h
        | _ => cases hv'
      | .liberal, .nil, h => cases h
      | .liberal, .cons _ (.cons _ _), h => cases h
      | .plain, _, h => cases h
    | _ => cases h
  refuses a h := by cases h

variable {decoder : Decoder α} {whole : α → α}

theorem Keeps.optional (h : Keeps decoder whole) : Keeps (optional decoder) (Option.map whole) where
  keeps {n j a} hs ha := by
    have hsome (hread : (decoder n).map some = .ok a) :
        (decoder (.ofJson j)).map some = .ok (a.map whole) := by
      obtain ⟨b, hb, rfl⟩ := exists_of_map_eq_ok hread
      rw [h.keeps hs hb]
      rfl
    cases hs with
    | null =>
      obtain rfl := Except.ok.inj ha
      rfl
    | unreadable j =>
      obtain ⟨b, hb, -⟩ := exists_of_map_eq_ok ha
      exact absurd hb (h.refuses b)
    | bool | num | str | seq | map => exact hsome ha
  refuses a ha := by
    obtain ⟨b, hb, -⟩ := exists_of_map_eq_ok ha
    exact h.refuses b hb

/-! ### Containers -/

theorem Keeps.items (h : Keeps decoder whole) {ns : List Node} {js : List Json} {as : List α}
    (hs : SettledItems ns js) (has : items decoder ns = .ok as) :
    items decoder (Node.ofItems js) = .ok (as.map whole) := by
  induction ns generalizing js as with
  | nil =>
    cases hs
    cases has
    rfl
  | cons n ns ih =>
    cases hs with
    | cons hn hns =>
      obtain ⟨a, ha, has⟩ := exists_of_bind_eq_ok has
      obtain ⟨rest, hrest, has⟩ := exists_of_bind_eq_ok has
      obtain rfl := Except.ok.inj has
      rw [Node.ofItems, Decode.items, h.keeps hn ha, ih hns hrest]
      rfl

theorem Keeps.list (h : Keeps decoder whole) : Keeps (list decoder) (List.map whole) where
  keeps hs has := by
    cases hs with
    | seq hs => exact h.items hs has
    | _ => cases has
  refuses a ha := by cases ha

theorem Keeps.entries (h : Keeps decoder whole) {es : List (Node × Node)}
    {ms : List (String × Json)} {l : List (String × α)} (hs : SettledMembers es ms)
    (hl : entries decoder es = .ok l) :
    Table.Matched (fun _ j a => decoder (.ofJson j) = .ok (whole a)) ms l := by
  induction es generalizing ms l with
  | nil =>
    cases hs
    cases hl
    exact .nil
  | cons e es ih =>
    cases hs with
    | cons hv hes =>
      obtain ⟨key, hkey, hl⟩ := exists_of_bind_eq_ok hl
      obtain rfl := Except.ok.inj hkey
      obtain ⟨a, ha, hl⟩ := exists_of_bind_eq_ok hl
      obtain ⟨rest, hrest, hl⟩ := exists_of_bind_eq_ok hl
      obtain rfl := Except.ok.inj hl
      exact .cons ⟨rfl, h.keeps hv ha⟩ (ih hes hrest)

theorem entries_ofMembers_of_matched {ms : List (String × Json)} {l : List (String × α)}
    (h : Table.Matched (fun _ j a => decoder (.ofJson j) = .ok (whole a)) ms l) :
    entries decoder (Node.ofMembers ms) = .ok (Table.mapValues whole l) := by
  induction h with
  | nil => rfl
  | @cons m e ms l h _ ih =>
    rw [Node.ofMembers, entries, h.2, ih, h.1]
    rfl

theorem Keeps.table (h : Keeps decoder whole) : Keeps (table decoder) (Table.mapValues whole) where
  keeps hs ht := by
    cases hs with
    | map hs =>
      obtain ⟨l, hl, rfl⟩ := exists_of_map_eq_ok ht
      have hmatched := (h.entries hs hl).ofEntries
      change (Decode.entries decoder (Node.ofMembers _)).map Table.ofEntries = _
      rw [entries_ofMembers_of_matched hmatched]
      change Except.ok _ = _
      rw [← Table.mapValues_ofEntries, Table.ofEntries_eq_self (Table.nodup_keys_ofEntries l)]
    | _ => cases ht
  refuses a ha := by cases ha

/-! ### Records -/

namespace Record

variable {r : Record α}

/-- A field that is read from a node is read from its settled value, up to `whole`. -/
def KeepsField (r : Record α) (whole : α → α) (name : String) : Prop :=
  ∀ (n : Node) (j : Json) (a b : α), Settled n j → r.read name n a = .ok b →
    r.read name (.ofJson j) (whole a) = .ok (whole b)

theorem KeepsField.of_keeps {decoder : Decoder β} {part : β → β} (h : Keeps decoder part)
    {name : String} {set : α → β → α}
    (hread : ∀ n a, r.read name n a = decoder n >>= fun v => pure (set a v))
    (hset : ∀ a v, whole (set a v) = set (whole a) (part v)) : KeepsField r whole name := by
  intro n j a b hs hb
  rw [hread] at hb ⊢
  obtain ⟨v, hv, rfl⟩ := exists_of_read hb
  rw [h.keeps hs hv, hset]
  rfl

theorem readItems_settled (hfields : ∀ name ∈ r.fields, KeepsField r whole name)
    {names : List String} (hnames : names ⊆ r.fields) {ns : List Node} {js : List Json}
    (hs : SettledItems ns js) {a b : α} (h : r.readItems a names ns = .ok b) :
    r.readItems (whole a) names (Node.ofItems js) = .ok (whole b) := by
  induction ns generalizing names js a with
  | nil =>
    cases hs
    cases names <;> cases h <;> rfl
  | cons n ns ih =>
    cases hs with
    | cons hn hns =>
      cases names with
      | nil =>
        cases h
        rfl
      | cons name names =>
        rw [List.cons_subset] at hnames
        obtain ⟨c, hc, h⟩ := exists_of_bind_eq_ok h
        rw [Node.ofItems, readItems, hfields name hnames.1 n _ a c hn hc]
        exact ih hnames.2 hns h

theorem readEntries_ofMembers_cons {m : String × Json} {ms : List (String × Json)}
    {seen : List String} {a : α} : r.readEntries seen a (Node.ofMembers (m :: ms)) =
      if r.fields.contains m.1 then
        if seen.contains m.1 then .error (.duplicateField m.1)
        else r.read m.1 (.ofJson m.2) a >>= fun b =>
          r.readEntries (m.1 :: seen) b (Node.ofMembers ms)
      else if r.skipsUnknown then r.readEntries seen a (Node.ofMembers ms)
      else .error (.unknownField m.1 r.fields) := rfl

theorem readEntries_settled (hfields : ∀ name ∈ r.fields, KeepsField r whole name)
    {es : List (Node × Node)} {ms : List (String × Json)} (hs : SettledMembers es ms)
    {seen : List String} {a b : α} (h : r.readEntries seen a es = .ok b) :
    r.readEntries seen (whole a) (Node.ofMembers ms) = .ok (whole b) := by
  induction es generalizing ms seen a with
  | nil =>
    cases hs
    rw [readEntries] at h
    rw [Node.ofMembers, readEntries]
    split at h
    · cases h
    · cases h
      rfl
  | cons e es ih =>
    cases hs with
    | @cons name n _ j ms hn hes =>
      rw [readEntries_ofMembers_cons]
      rw [readEntries] at h
      change (if r.fields.contains name = true then _ else _) = _ at h
      split_ifs at h ⊢ with hknown
      · obtain ⟨c, hc, h⟩ := exists_of_bind_eq_ok h
        rw [hfields name (by simpa using hknown) n j a c hn hc]
        exact ih hes h
      · exact ih hes h

/-- Fields that a record does not have are skipped, or there are none. -/
theorem readEntries_eq_ok_iff {ms : List (String × Json)} {seen : List String} {a b : α} :
    r.readEntries seen a (Node.ofMembers ms) = .ok b ↔
      (∀ m ∈ ms, r.fields.contains m.1 = false → r.skipsUnknown = true) ∧
        r.readEntries seen a (Node.ofMembers (ms.filter fun m => r.fields.contains m.1)) =
          .ok b := by
  induction ms generalizing seen a with
  | nil => simp
  | cons m ms ih =>
    rw [List.forall_mem_cons, readEntries_ofMembers_cons]
    by_cases hknown : r.fields.contains m.1 = true
    · have hfilter : ((m :: ms).filter fun m => r.fields.contains m.1) =
          m :: ms.filter fun m => r.fields.contains m.1 := List.filter_cons_of_pos hknown
      rw [hfilter, readEntries_ofMembers_cons, if_pos hknown, if_pos hknown]
      split_ifs with hseen
      · simp
      · cases hread : r.read m.1 (.ofJson m.2) a with
        | error fault => simp [bind, Except.bind]
        | ok c =>
          have hmem : m.1 ∈ r.fields := by simpa using hknown
          simpa [bind, Except.bind, hmem] using ih
    · have hfilter : ((m :: ms).filter fun m => r.fields.contains m.1) =
          ms.filter fun m => r.fields.contains m.1 := List.filter_cons_of_neg hknown
      rw [hfilter, if_neg hknown]
      split_ifs with hskips
      · rw [ih]
        simp [hskips]
      · have hmem : m.1 ∉ r.fields := by simpa using hknown
        simp [hskips, hmem]

/-- No field is read twice. -/
theorem nodup_of_readEntries {ms : List (String × Json)}
    (hknown : ∀ m ∈ ms, r.fields.contains m.1 = true) {seen : List String} {a b : α}
    (h : r.readEntries seen a (Node.ofMembers ms) = .ok b) :
    (Table.keys ms).Nodup ∧ ∀ k ∈ Table.keys ms, k ∉ seen := by
  induction ms generalizing seen a with
  | nil => simp [Table.keys]
  | cons m ms ih =>
    rw [List.forall_mem_cons] at hknown
    rw [readEntries_ofMembers_cons, if_pos hknown.1] at h
    split_ifs at h with hseen
    obtain ⟨c, -, h⟩ := exists_of_bind_eq_ok h
    obtain ⟨hnodup, hnew⟩ := ih hknown.2 h
    have hkeys : Table.keys (m :: ms) = m.1 :: Table.keys ms := rfl
    rw [hkeys, List.nodup_cons, List.forall_mem_cons]
    refine ⟨⟨fun hmem => hnew m.1 hmem List.mem_cons_self, hnodup⟩, by simpa using hseen, ?_⟩
    intro k hk hmem
    exact hnew k hk (List.mem_cons_of_mem m.1 hmem)

/-- Settling the names of members changes nothing for a record that can be read from them. -/
theorem readEntries_ofEntries {ms : List (String × Json)} {seen : List String} {a b : α}
    (h : r.readEntries seen a (Node.ofMembers ms) = .ok b) :
    r.readEntries seen a (Node.ofMembers (Table.ofEntries ms)) = .ok b := by
  obtain ⟨hskips, h⟩ := readEntries_eq_ok_iff.1 h
  have hknown : ∀ m ∈ ms.filter fun m => r.fields.contains m.1, r.fields.contains m.1 = true :=
    fun m hm => (List.mem_filter.1 hm).2
  have hnodup := (nodup_of_readEntries hknown h).1
  have hfilter := Table.filter_ofEntries (fun name => r.fields.contains name) ms
  rw [Table.ofEntries_eq_self hnodup] at hfilter
  refine readEntries_eq_ok_iff.2 ⟨fun m hm => hskips m (Table.mem_of_mem_ofEntries hm), ?_⟩
  rw [hfilter]
  exact h

/-- What a record that is given as a sequence is read from: enough fields, and not too many. -/
theorem decode_seq_eq_ok_iff {ns : List Node} {a : α} : r.decode .liberal (.seq ns) = .ok a ↔
    r.readItems r.blank r.fields ns = .ok a ∧
      (∀ name ∈ r.required, name ∈ r.fields.take ns.length) ∧ ns.length ≤ r.fields.length := by
  have hmissing : (∀ name ∈ r.required, name ∈ r.fields.take ns.length) ↔
      (r.required.find? fun f => !(r.fields.take ns.length).contains f) = none := by
    simp [List.find?_eq_none]
  rw [hmissing, ← Nat.not_lt, decode]
  cases r.readItems r.blank r.fields ns with
  | error fault => simp [bind, Except.bind]
  | ok b =>
    cases r.required.find? fun f => !(r.fields.take ns.length).contains f with
    | some name => simp [bind, Except.bind]
    | none => by_cases hlong : r.fields.length < ns.length <;>
        simp [bind, Except.bind, pure, Except.pure, hlong]

/-- A record is kept if each of its fields is. -/
theorem keeps (hblank : whole r.blank = r.blank)
    (hfields : ∀ name ∈ r.fields, KeepsField r whole name) (shape : Shape) :
    Keeps (r.decode shape) whole where
  keeps hs h := by
    cases hs with
    | map hs =>
      have hread := readEntries_ofEntries (readEntries_settled hfields hs h)
      rwa [hblank] at hread
    | @seq ns js hs =>
      cases shape with
      | plain => cases h
      | liberal =>
        obtain ⟨hb, hrequired, hlength⟩ := decode_seq_eq_ok_iff.1 h
        have hread := readItems_settled hfields (List.Subset.refl r.fields) hs hb
        rw [hblank] at hread
        rw [← hs.length_eq] at hrequired hlength
        exact decode_seq_eq_ok_iff.2 ⟨hread, hrequired, hlength⟩
    | _ => cases h
  refuses a h := by cases h

end Record

end LintConfig.Decode
