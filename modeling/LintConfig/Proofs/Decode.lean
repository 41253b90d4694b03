import LintConfig.Document
import LintConfig.Proofs.Table

/-!
# Reading back what is written

`Recovers` says of one value that a decoder reads it back from its written form, `RoundTrips` of a
decoder that it does so with every value it can give.  Not every value is recovered, a table with
repeated keys for one, so containers are recovered item by item.  A record is written as those of
its fields that are not empty; `Fills` follows a reader through them, from a record without fields
to the one that was written.
-/

namespace LintConfig

variable {ε α β : Type}

/-- What a step that succeeds was given and what it made of it. -/
theorem exists_of_bind_eq_ok {x : Except ε α} {f : α → Except ε β} {b : β}
    (h : x >>= f = .ok b) : ∃ a, x = .ok a ∧ f a = .ok b := by
  cases x with
  | error e => cases h
  | ok a => exact ⟨a, rfl, h⟩

namespace Decode

/-- A value is read back from its written form. -/
def Recovers (decoder : Decoder α) (write : α → Json) (a : α) : Prop :=
  decoder (.ofJson (write a)) = .ok a

/-- Whatever is read is read back from its written form. -/
def RoundTrips (decoder : Decoder α) (write : α → Json) : Prop :=
  ∀ n a, decoder n = .ok a → Recovers decoder write a

variable {decoder : Decoder α} {write : α → Json} {a : α}

theorem RoundTrips.of_recovers (h : ∀ a, Recovers decoder write a) : RoundTrips decoder write :=
  fun _ a _ => h a

/-- What a field that was read as a value made of it. -/
theorem exists_of_read {x : Result α} {set : α → β} {b : β}
    (h : (x >>= fun a => pure (set a)) = .ok b) : ∃ a, x = .ok a ∧ set a = b := by
  obtain ⟨a, ha, hset⟩ := exists_of_bind_eq_ok h
  exact ⟨a, ha, Except.ok.inj hset⟩

/-! ### Scalars -/

theorem recovers_string (s : String) : Recovers string .str s := rfl

theorem recovers_boolean (b : Bool) : Recovers boolean .bool b := rfl

theorem roundTrips_natural : RoundTrips natural .nat := by
  have hof (i : Int) (n : Nat) (h : naturalOf i = .ok n) : (n : Int) ≤ Number.maxInt := by
    unfold naturalOf at h
    split_ifs at h with hneg hle
    · obtain rfl := Except.ok.inj h
      omega
    · cases h
  intro n k h
  have hle : (k : Int) ≤ Number.maxInt := by
    unfold natural at h
    split at h
    · exact hof _ _ h
    · split at h
      · exact hof _ _ h
      · cases h
    · cases h
  change naturalOf k = .ok k
  rw [naturalOf, if_neg (by omega), if_pos hle, Int.toNat_natCast]

/-- A word is read as the variant whose word it is. -/
theorem recovers_variant (shape : Shape) (known : List String) {ofWord? : String → Option α}
    {word : α → String} (hword : ∀ a, ofWord? (word a) = some a) (a : α) :
    Recovers (variant shape known ofWord?) (fun a => .str (word a)) a := by
  change variantOf known ofWord? (word a) = .ok a
  rw [variantOf, hword]

/-- A value that is not written as null is recovered where it may be absent. -/
theorem optional_eq (h : Recovers decoder write a) (hnull : write a ≠ .null) :
    optional decoder (.ofJson (write a)) = .ok (some a) := by
  unfold Recovers at h
  unfold optional
  split
  next hn => cases hj : write a <;> rw [hj] at hn hnull <;> first | exact absurd rfl hnull | cases hn
  next s hn => cases hj : write a <;> rw [hj] at hn <;> cases hn
  next => rw [h]; rfl

theorem exists_of_optional {n : Node} (h : optional decoder n = .ok (some a)) :
    ∃ n, decoder n = .ok a := by
  have hmap {x : Result α} (h : x.map some = .ok (some a)) : x = .ok a := by
    cases x with
    | error fault => cases h
    | ok b => exact congrArg Except.ok (Option.some.inj (Except.ok.inj h))
  unfold optional at h
  split at h
  · cases h
  next =>
    split at h
    · cases h
    · exact ⟨_, hmap h⟩
    · cases h
  next => exact ⟨_, hmap h⟩

/-! ### Containers -/

theorem exists_of_items {ns : List Node} {as : List α} (h : items decoder ns = .ok as) :
    ∀ a ∈ as, ∃ n, decoder n = .ok a := by
  induction ns generalizing as with
  | nil =>
    obtain rfl := Except.ok.inj h
    simp
  | cons n ns ih =>
    obtain ⟨a, ha, h⟩ := exists_of_bind_eq_ok h
    obtain ⟨rest, hrest, h⟩ := exists_of_bind_eq_ok h
    obtain rfl := Except.ok.inj h
    intro b hb
    rcases List.mem_cons.1 hb with rfl | hb
    · exact ⟨n, ha⟩
    · exact ih hrest b hb

theorem items_ofItems {as : List α} (h : ∀ a ∈ as, Recovers decoder write a) :
    items decoder (Node.ofItems (as.map write)) = .ok as := by
  induction as with
  | nil => rfl
  | cons a as ih =>
    have ha : decoder (.ofJson (write a)) = .ok a := h a List.mem_cons_self
    rw [List.map_cons, Node.ofItems, items, ha, ih fun b hb => h b (List.mem_cons_of_mem a hb)]
    rfl

theorem recovers_list {as : List α} (h : ∀ a ∈ as, Recovers decoder write a) :
    Recovers (list decoder) (fun as => .arr (as.map write)) as :=
  items_ofItems h

theorem exists_of_list {n : Node} {as : List α} (h : list decoder n = .ok as) :
    ∀ a ∈ as, ∃ n, decoder n = .ok a := by
  unfold list at h
  split at h
  · exact exists_of_items h
  · exact exists_of_items h
  · split_ifs at h
    · obtain rfl := Except.ok.inj h
      simp
    · cases h
  · cases h

theorem RoundTrips.list (h : RoundTrips decoder write) :
    RoundTrips (list decoder) fun as => .arr (as.map write) := by
  intro n as has
  refine recovers_list fun a ha => ?_
  obtain ⟨n, hn⟩ := exists_of_list has a ha
  exact h n a hn

theorem exists_of_entries {es : List (Node × Node)} {t : List (String × α)}
    (h : entries decoder es = .ok t) : ∀ e ∈ t, ∃ n, decoder n = .ok e.2 := by
  induction es generalizing t with
  | nil =>
    obtain rfl := Except.ok.inj h
    simp
  | cons e es ih =>
    obtain ⟨k, hk, h⟩ := exists_of_bind_eq_ok h
    obtain ⟨a, ha, h⟩ := exists_of_bind_eq_ok h
    obtain ⟨rest, hrest, h⟩ := exists_of_bind_eq_ok h
    obtain rfl := Except.ok.inj h
    intro f hf
    rcases List.mem_cons.1 hf with rfl | hf
    · exact ⟨e.2, ha⟩
    · exact ih hrest f hf

theorem entries_ofMembers {t : Table α} (h : ∀ e ∈ t, Recovers decoder write e.2) :
    entries decoder (Node.ofMembers (Table.mapValues write t)) = .ok t := by
  induction t with
  | nil => rfl
  | cons e t ih =>
    have he : decoder (.ofJson (write e.2)) = .ok e.2 := h e List.mem_cons_self
    have hrest := ih fun f hf => h f (List.mem_cons_of_mem e hf)
    unfold Table.mapValues at hrest ⊢
    rw [List.map_cons, Node.ofMembers, entries, he, hrest]
    rfl

theorem recovers_table {t : Table α} (hnodup : (Table.keys t).Nodup)
    (h : ∀ e ∈ t, Recovers decoder write e.2) :
    Recovers (table decoder) (fun t => .obj (Table.mapValues write t)) t := by
  change (entries decoder (Node.ofMembers (Table.mapValues write t))).map Table.ofEntries = _
  rw [entries_ofMembers h]
  exact congrArg Except.ok (Table.ofEntries_eq_self hnodup)

/-- A table that was read has its keys once each, and values that were read. -/
theorem exists_of_table {n : Node} {t : Table α} (h : table decoder n = .ok t) :
    (Table.keys t).Nodup ∧ ∀ e ∈ t, ∃ n, decoder n = .ok e.2 := by
  have hmap {es : List (Node × Node)} (h : (entries decoder es).map Table.ofEntries = .ok t) :
      (Table.keys t).Nodup ∧ ∀ e ∈ t, ∃ n, decoder n = .ok e.2 := by
    cases hl : entries decoder es with
    | error fault =>
      rw [hl] at h
      cases h
    | ok l =>
      rw [hl] at h
      obtain rfl := Except.ok.inj h
      exact ⟨Table.nodup_keys_ofEntries l, fun e he =>
        exists_of_entries hl e (Table.mem_of_mem_ofEntries he)⟩
  unfold table at h
  split at h
  · exact hmap h
  · exact hmap h
  · split_ifs at h
    · obtain rfl := Except.ok.inj h
      simp [Table.keys]
    · cases h
  · cases h

theorem RoundTrips.table (h : RoundTrips decoder write) :
    RoundTrips (table decoder) fun t => .obj (Table.mapValues write t) := by
  intro n t ht
  obtain ⟨hnodup, hvalues⟩ := exists_of_table ht
  refine recovers_table hnodup fun e he => ?_
  obtain ⟨n, hn⟩ := hvalues e he
  exact h n e.2 hn

/-! ### Records -/

namespace Record

variable {r : Record α}

/-- What a record without fields has, and reading a field keeps, everything read has. -/
theorem holds_of_decode {P : α → Prop} (hblank : P r.blank)
    (hread : ∀ name n a b, P a → r.read name n a = .ok b → P b) {shape : Shape} {n : Node}
    (h : r.decode shape n = .ok a) : P a := by
  have hentries (es : List (Node × Node)) : ∀ (seen : List String) (a b : α), P a →
      r.readEntries seen a es = .ok b → P b := by
    induction es with
    | nil =>
      intro seen a b ha h
      rw [readEntries] at h
      split at h
      · cases h
      · exact Except.ok.inj h ▸ ha
    | cons e es ih =>
      intro seen a b ha h
      rw [readEntries] at h
      obtain ⟨name, -, h⟩ := exists_of_bind_eq_ok h
      split_ifs at h
      · obtain ⟨c, hc, h⟩ := exists_of_bind_eq_ok h
        exact ih _ c b (hread name e.2 a c ha hc) h
      · exact ih seen a b ha h
  have hitems (ns : List Node) : ∀ (names : List String) (a b : α), P a →
      r.readItems a names ns = .ok b → P b := by
    induction ns with
    | nil =>
      intro names a b ha h
      cases names <;> exact Except.ok.inj h ▸ ha
    | cons n ns ih =>
      intro names a b ha h
      cases names with
      | nil => exact Except.ok.inj h ▸ ha
      | cons name names =>
        obtain ⟨c, hc, h⟩ := exists_of_bind_eq_ok h
        exact ih names c b (hread name n a c ha hc) h
  unfold decode at h
  split at h
  · exact hentries _ _ _ _ hblank h
  · exact hentries _ _ _ _ hblank h
  · split at h
    · cases h
    · obtain ⟨b, hb, h⟩ := exists_of_bind_eq_ok h
      have hholds := hitems _ _ _ _ hblank hb
      split at h
      · cases h
      · split_ifs at h
        exact Except.ok.inj h ▸ hholds
  · split_ifs at h
    · exact hentries _ _ _ _ hblank h
    · cases h
  · cases h

/-- What reading keeps is enough for a record to be read back. -/
theorem roundTrips {P : α → Prop} {shape : Shape} (hblank : P r.blank)
    (hread : ∀ {name n a b}, P a → r.read name n a = .ok b → P b)
    (hrecovers : ∀ {a}, P a → Recovers (r.decode shape) write a) :
    RoundTrips (r.decode shape) write := fun _ _ h =>
  hrecovers (holds_of_decode hblank (fun _ _ _ _ => hread) h)

/-- Members of a written record are fields of it in order, and reading them one after the other
leads from one record to another. -/
structure Fills (r : Record α) (fields : List String) (members : List (String × Json)) (a b : α) :
    Prop where
  names : (Table.keys members).Sublist fields
  reads : members.foldlM (fun a m => r.read m.1 (.ofJson m.2) a) a = .ok b

namespace Fills

variable {fields : List String} {members : List (String × Json)} {a b : α}

theorem nil (r : Record α) : Fills r [] [] r.blank r.blank := ⟨List.Sublist.slnil, rfl⟩

theorem skip (h : Fills r fields members a b) (name : String) :
    Fills r (fields ++ [name]) (members ++ []) a b where
  names := by
    rw [List.append_nil]
    exact h.names.trans (List.sublist_append_left fields [name])
  reads := by
    rw [List.append_nil]
    exact h.reads

/-- A member that is always written. -/
theorem always (h : Fills r fields members a b) (name : String) {decoder : Decoder β}
    {set : β → α} (hread : ∀ n, r.read name n b = decoder n >>= fun v => pure (set v))
    {write : β → Json} {v : β} (hv : Recovers decoder write v) :
    Fills r (fields ++ [name]) (members ++ [(name, write v)]) a (set v) where
  names := by
    rw [Table.keys, List.map_append]
    exact h.names.append (List.Sublist.refl [name])
  reads := by
    rw [List.foldlM_append, h.reads]
    change [(name, write v)].foldlM (fun a m => r.read m.1 (.ofJson m.2) a) b = .ok (set v)
    rw [List.foldlM_cons, hread, hv]
    rfl

/-- A member that is left out where it is empty. -/
theorem unlessEmpty (h : Fills r fields members a b) (name : String) {decoder : Decoder (List β)}
    {set : List β → α} (hread : ∀ n, r.read name n b = decoder n >>= fun v => pure (set v))
    {write : List β → Json} {items : List β} (hitems : Recovers decoder write items)
    (hempty : set [] = b) : Fills r (fields ++ [name])
      (members ++ Written.unlessEmpty name items (write items)) a (set items) := by
  cases items with
  | nil =>
    rw [hempty]
    exact h.skip name
  | cons => exact h.always name hread hitems

/-- A member that is left out where it is absent. -/
theorem ifPresent (h : Fills r fields members a b) (name : String) {decoder : Decoder β}
    {set : Option β → α}
    (hread : ∀ n, r.read name n b = optional decoder n >>= fun v => pure (set v))
    {write : β → Json} (hv : ∀ v, Recovers decoder write v) (hnull : ∀ v, write v ≠ .null)
    (value : Option β) (hnone : set none = b) : Fills r (fields ++ [name])
      (members ++ Written.ifPresent name value write) a (set value) := by
  cases value with
  | none =>
    rw [hnone]
    exact h.skip name
  | some v =>
    have hsome : Recovers (optional decoder) (fun value => (value.map write).getD .null) (some v) :=
      optional_eq (hv v) (hnull v)
    exact h.always name hread hsome

end Fills

theorem readEntries_ofMembers {members : List (String × Json)} (hnodup : (Table.keys members).Nodup)
    (hknown : ∀ name ∈ Table.keys members, name ∈ r.fields) {seen : List String}
    (hseen : ∀ name ∈ Table.keys members, name ∉ seen)
    (hrequired : ∀ name ∈ r.required, name ∈ seen ∨ name ∈ Table.keys members) {a b : α}
    (h : members.foldlM (fun a m => r.read m.1 (.ofJson m.2) a) a = .ok b) :
    r.readEntries seen a (Node.ofMembers members) = .ok b := by
  induction members generalizing seen a with
  | nil =>
    obtain rfl := Except.ok.inj h
    have hnone : (r.required.find? fun name => !seen.contains name) = none := by
      rw [List.find?_eq_none]
      intro name hname
      simpa [Table.keys] using hrequired name hname
    rw [Node.ofMembers, readEntries, hnone]
  | cons m members ih =>
    rw [List.foldlM_cons] at h
    obtain ⟨c, hc, h⟩ := exists_of_bind_eq_ok h
    have hkeys : Table.keys (m :: members) = m.1 :: Table.keys members := rfl
    rw [hkeys] at hnodup hknown hseen hrequired
    obtain ⟨hnot, hnodup⟩ := List.nodup_cons.1 hnodup
    have hname : m.1 ∈ r.fields := hknown m.1 List.mem_cons_self
    have hnew : m.1 ∉ seen := hseen m.1 List.mem_cons_self
    -- the keys that are left are still new once this one is seen
    have hseen' : ∀ name ∈ Table.keys members, name ∉ m.1 :: seen := by
      intro name hmem
      rw [List.mem_cons, not_or]
      exact ⟨fun heq => hnot (heq ▸ hmem), hseen name (List.mem_cons_of_mem _ hmem)⟩
    have hrequired' : ∀ name ∈ r.required, name ∈ m.1 :: seen ∨ name ∈ Table.keys members := by
      intro name hmem
      rw [List.mem_cons]
      have hcases := hrequired name hmem
      rw [List.mem_cons] at hcases
      tauto
    have hrest := ih hnodup (fun name hmem => hknown name (List.mem_cons_of_mem _ hmem)) hseen'
      hrequired' h
    rw [Node.ofMembers, readEntries]
    simpa [string, bind, Except.bind, hname, hnew, hc] using hrest

/-- A record is read back if its members lead to it from the record without fields. -/
theorem decode_ofMembers {members : List (String × Json)} (hfields : r.fields.Nodup)
    (h : Fills r r.fields members r.blank a) (hrequired : r.required ⊆ Table.keys members)
    (shape : Shape) : r.decode shape (.ofJson (.obj members)) = .ok a :=
  readEntries_ofMembers (h.names.nodup hfields) (fun _ hname => h.names.subset hname)
    (fun _ _ => List.not_mem_nil) (fun _ hname => .inr (hrequired hname)) h.reads

end Record

end Decode

end LintConfig
