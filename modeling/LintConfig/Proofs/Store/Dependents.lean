import LintConfig.Proofs.Store.Affected
import LintConfig.Proofs.Store.Walk

/-!
# Who extends whom

A store notes for every fragment which others extend it.  Notes about a fragment outlive it: they
are forgotten when it is read again.  `Store.Linked` says what may be relied on in between: what is
noted about a fragment that is held is listed in it, and is held itself.  Reading a fragment, noting
it and dropping it keep a store linked; and `Store.Keeps` says that a store still has what an
earlier one had, and the notes about that.
-/

namespace LintConfig.Store

variable {s s' s'' : Store} {id base : String} {f : Fragment}

/-! ### Notes -/

theorem dependentsOf_forgetEdges (h : (Table.keys s.dependents).Nodup) (id base : String) :
    (s.forgetEdges id).dependentsOf base = (s.dependentsOf base).filter fun p => p != id := by
  unfold forgetEdges dependentsOf
  dsimp only
  generalize s.dependents = t at h
  induction t with
  | nil => rfl
  | cons e t ih =>
    obtain ⟨k, v⟩ := e
    rw [Table.keys, List.map_cons, List.nodup_cons] at h
    obtain ⟨hk, ht⟩ := h
    by_cases hkey : k = base
    · subst hkey
      cases hempty : v.filter fun p => p != id with
      | nil =>
        -- the entry is gone, and there is no other one under its key
        have hnone : Table.get? ((t.map fun e => (e.1, e.2.filter fun p => p != id)).filter
            fun e => !e.2.isEmpty) k = none := by
          rw [Table.get?_eq_none_iff]
          intro hmem
          obtain ⟨_, hfiltered, rfl⟩ := List.mem_map.1 hmem
          obtain ⟨e, he, rfl⟩ := List.mem_map.1 (List.mem_of_mem_filter hfiltered)
          exact hk (List.mem_map.2 ⟨e, he, rfl⟩)
        simp [hempty, hnone, Table.get?]
      | cons p ps => simp [hempty, Table.get?]
    · cases hempty : v.filter fun p => p != id with
      | nil => simpa [hempty, Table.get?, hkey] using ih ht
      | cons p ps => simpa [hempty, Table.get?, hkey] using ih ht

theorem noted_keep (h : (Table.keys s.dependents).Nodup) {dependent : String} :
    (s.keep f).Noted base dependent ↔ s.Noted base dependent ∧ dependent ≠ f.id := by
  have heq : (s.keep f).dependentsOf base = (s.forgetEdges f.id).dependentsOf base := rfl
  rw [Noted, heq, dependentsOf_forgetEdges h]
  simp [Noted]

theorem noted_noteDependent {b dependent : String} :
    (s.noteDependent base id).Noted b dependent ↔
      s.Noted b dependent ∨ b = base ∧ dependent = id := by
  unfold Noted noteDependent
  simp only [dependentsOf, Table.get?_put]
  split_ifs with hb
  · subst hb
    simp [Names.mem_insert, or_comm]
  · simp [Ne.symm hb]

theorem nodup_keys_keep (h : (Table.keys s.dependents).Nodup) :
    (Table.keys (s.keep f).dependents).Nodup := by
  have hsublist := (List.filter_sublist (p := fun e : String × Names => !e.2.isEmpty)
    (l := s.dependents.map fun e => (e.1, e.2.filter fun p => p != f.id))).map Prod.fst
  refine hsublist.nodup ?_
  rwa [List.map_map]

theorem nodup_keys_noteDependent (h : (Table.keys s.dependents).Nodup) (base id : String) :
    (Table.keys (s.noteDependent base id).dependents).Nodup :=
  Table.nodup_keys_overlay h [(base, Names.insert (s.dependentsOf base) id)]

theorem has_iff : s.has id = true ↔ ∃ f, Table.get? s.fragments id = some f :=
  Option.isSome_iff_exists

theorem has_keep : (s.keep f).has id = true ↔ f.id = id ∨ s.has id = true := by
  unfold has Table.has
  rw [get?_keep]
  split_ifs with h <;> simp [h]

/-! ### Linked stores -/

/-- What is noted about a fragment that is held is listed in it, and is held itself. -/
structure Linked (s : Store) : Prop where
  nodup : (Table.keys s.dependents).Nodup
  id_eq : ∀ id f, Table.get? s.fragments id = some f → f.id = id
  listed : ∀ base id f, s.Noted base id → Table.get? s.fragments id = some f →
    base ∈ f.references ∧ s.has base = true

theorem linked_empty : Linked {} where
  nodup := List.nodup_nil
  id_eq id f h := by cases h
  listed base id f h := by cases h

namespace Linked

/-- A fragment that is read again has no notes yet. -/
theorem keep (h : Linked s) (f : Fragment) : Linked (s.keep f) where
  nodup := nodup_keys_keep h.nodup
  id_eq id g hg := by
    rw [get?_keep] at hg
    split_ifs at hg with hid
    · obtain rfl := Option.some.inj hg
      exact hid
    · exact h.id_eq id g hg
  listed base id g hnoted hg := by
    obtain ⟨hnoted, hne⟩ := (noted_keep h.nodup).1 hnoted
    rw [get?_keep, if_neg hne.symm] at hg
    obtain ⟨hlisted, hhas⟩ := h.listed base id g hnoted hg
    exact ⟨hlisted, has_keep.2 (.inr hhas)⟩

theorem noteDependent (h : Linked s) (hf : Table.get? s.fragments id = some f)
    (hbase : base ∈ f.references) (hhas : s.has base = true) :
    Linked (s.noteDependent base id) where
  nodup := nodup_keys_noteDependent h.nodup base id
  id_eq := h.id_eq
  listed b q g hnoted hg := by
    rcases noted_noteDependent.1 hnoted with hnoted | ⟨rfl, rfl⟩
    · exact h.listed b q g hnoted hg
    · obtain rfl := Option.some.inj (hf.symm.trans hg)
      exact ⟨hbase, hhas⟩

/-- A fragment is noted as extending another one, which is then read. -/
theorem noteDependent_keep (h : Linked s) {g : Fragment} (hf : Table.get? s.fragments id = some f)
    (hbase : g.id ∈ f.references) : Linked ((s.noteDependent g.id id).keep g) where
  nodup := nodup_keys_keep (nodup_keys_noteDependent h.nodup _ _)
  id_eq := (h.keep g).id_eq
  listed b q g' hnoted hg' := by
    obtain ⟨hnoted, hne⟩ := (noted_keep (nodup_keys_noteDependent h.nodup _ _)).1 hnoted
    rcases noted_noteDependent.1 hnoted with hnoted | ⟨rfl, rfl⟩
    · exact (h.keep g).listed b q g' ((noted_keep h.nodup).2 ⟨hnoted, hne⟩) hg'
    · have hf' : Table.get? ((s.noteDependent g.id q).keep g).fragments q = some f := by
        rw [get?_keep, if_neg hne.symm]
        exact hf
      obtain rfl := Option.some.inj (hf'.symm.trans hg')
      exact ⟨hbase, has_keep.2 (.inl rfl)⟩

theorem invalidate (h : Linked s) (id : String) : Linked (s.invalidate id).2 := by
  have hfilter (k : String) : Table.get? (s.invalidate id).2.fragments k =
      if !(s.invalidate id).1.contains k then Table.get? s.fragments k else none :=
    Table.get?_filter s.fragments (fun j => !(s.invalidate id).1.contains j) k
  have hkept {k : String} {f : Fragment}
      (hf : Table.get? (s.invalidate id).2.fragments k = some f) :
      k ∉ (s.invalidate id).1 ∧ Table.get? s.fragments k = some f := by
    rw [hfilter] at hf
    split_ifs at hf with hk
    exact ⟨by simpa using hk, hf⟩
  refine ⟨h.nodup, fun k f hf => h.id_eq k f (hkept hf).2, fun b q f hnoted hf => ?_⟩
  obtain ⟨hq, hf⟩ := hkept hf
  obtain ⟨hlisted, hhas⟩ := h.listed b q f hnoted hf
  refine ⟨hlisted, ?_⟩
  obtain ⟨g, hg⟩ := has_iff.1 hhas
  -- what extends an affected fragment is affected too
  have hb : b ∉ (s.invalidate id).1 := fun hb => by
    refine hq (List.mem_filter.2 ⟨?_, has_iff.2 ⟨f, hf⟩⟩)
    exact mem_affected_iff.2 ((mem_affected_iff.1 (List.mem_of_mem_filter hb)).tail hnoted)
  refine has_iff.2 ⟨g, ?_⟩
  rw [hfilter, if_pos (by simpa using hb)]
  exact hg

end Linked

/-! ### Stores that keep what they hold -/

/-- What a store holds, and what is noted about that, stays. -/
structure Keeps (s s' : Store) : Prop where
  held : ∀ id f, Table.get? s.fragments id = some f → Table.get? s'.fragments id = some f
  noted : ∀ base id, s.Noted base id → s.has id = true → s'.Noted base id

namespace Keeps

theorem refl (s : Store) : Keeps s s := ⟨fun _ _ h => h, fun _ _ h _ => h⟩

theorem has (h : Keeps s s') (hid : s.has id = true) : s'.has id = true := by
  obtain ⟨f, hf⟩ := has_iff.1 hid
  exact has_iff.2 ⟨f, h.held id f hf⟩

theorem trans (h : Keeps s s') (h' : Keeps s' s'') : Keeps s s'' where
  held id f hf := h'.held id f (h.held id f hf)
  noted base id hnoted hid := h'.noted base id (h.noted base id hnoted hid) (h.has hid)

theorem noteDependent (s : Store) (base id : String) : Keeps s (s.noteDependent base id) where
  held _ _ h := h
  noted _ _ h _ := noted_noteDependent.2 (.inl h)

/-- Nothing is noted about a fragment that was not held. -/
theorem keep (h : (Table.keys s.dependents).Nodup) (hf : Table.get? s.fragments f.id = none) :
    Keeps s (s.keep f) where
  held id g hg := by
    rw [get?_keep, if_neg]
    · exact hg
    · rintro rfl
      cases hf.symm.trans hg
  noted base id hnoted hid := by
    refine (noted_keep h).2 ⟨hnoted, ?_⟩
    rintro rfl
    obtain ⟨g, hg⟩ := has_iff.1 hid
    cases hf.symm.trans hg

end Keeps

end LintConfig.Store
