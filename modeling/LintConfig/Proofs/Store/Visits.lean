import LintConfig.Proofs.Store.Dependents

/-!
# Visits

Loading from memory is a sequence of visits (`Store.Visit`): the root is fetched, and then from a
fragment that is held another one, which it extends and which is noted.  A visit keeps a store linked,
and keeps what it holds with the notes about it (`Visit.linked`, `Visit.keeps`).  A load that
succeeds has noted all that the fragments of its chain extend (`visited_load`).
-/

namespace LintConfig

open Relation

namespace Store

variable {lib : Library} {s s' : Store} {id base : String} {f : Fragment}

/-- What a load does to a store: it fetches its root, or goes from a fragment to one that this
extends, which it notes and fetches. -/
inductive Visit (lib : Library) : Store → Store → Prop
  | root {s : Store} {id : String} (hd : (lib.document? id).isSome) :
      Visit lib s (fetch lib s id).2
  | base {s : Store} {id base : String} {f : Fragment} (hf : Table.get? s.fragments id = some f)
      (hbase : base ∈ f.references) (hd : (lib.document? base).isSome) :
      Visit lib s (fetch lib (s.noteDependent base id) base).2

/-- Fetching a document gives what the store then holds. -/
theorem fetch_cases (h : lib.InMemory) (hd : (lib.document? id).isSome) (s : Store) :
    (∃ f, Table.get? s.fragments id = some f ∧ fetch lib s id = (.ok f, s)) ∨
      (Table.get? s.fragments id = none ∧
        ∃ f, f.id = id ∧ fetch lib s id = (.ok f, s.keep f)) := by
  obtain ⟨d, hd⟩ := Option.isSome_iff_exists.1 hd
  unfold fetch
  cases hs : Table.get? s.fragments id with
  | some f => exact .inl ⟨f, rfl, rfl⟩
  | none => exact .inr ⟨rfl, .ofDocument id d, rfl, by simp [h.read_eq hd]⟩

/-- What was fetched is held, beside all that was held before. -/
theorem exists_fetch_eq (hm : lib.InMemory) (hd : (lib.document? id).isSome) (s : Store) :
    ∃ f s', fetch lib s id = (.ok f, s') ∧ Table.get? s'.fragments id = some f ∧
      ∀ l, s.has l = true → s'.has l = true := by
  rcases fetch_cases hm hd s with ⟨f, hf, hfetch⟩ | ⟨-, f, rfl, hfetch⟩
  · exact ⟨f, s, hfetch, hf, fun _ h => h⟩
  · refine ⟨f, s.keep f, hfetch, ?_, fun l h => has_keep.2 (.inr h)⟩
    rw [get?_keep, if_pos rfl]

theorem Keeps.fetch (hm : lib.InMemory) (h : (Table.keys s.dependents).Nodup)
    (hd : (lib.document? id).isSome) : Keeps s (Store.fetch lib s id).2 := by
  rcases fetch_cases hm hd s with ⟨f, -, hfetch⟩ | ⟨hnone, f, rfl, hfetch⟩ <;> rw [hfetch]
  · exact .refl s
  · exact .keep h hnone

namespace Visit

theorem linked (hm : lib.InMemory) (h : Visit lib s s') (hl : Linked s) : Linked s' := by
  cases h with
  | root hd =>
    rcases fetch_cases hm hd s with ⟨f, -, hfetch⟩ | ⟨-, f, -, hfetch⟩ <;> rw [hfetch]
    · exact hl
    · exact hl.keep f
  | @base id base f hf hbase hd =>
    rcases fetch_cases hm hd (s.noteDependent base id) with
      ⟨g, hg, hfetch⟩ | ⟨-, g, rfl, hfetch⟩ <;> rw [hfetch]
    · exact hl.noteDependent hf hbase (has_iff.2 ⟨g, hg⟩)
    · exact hl.noteDependent_keep hf hbase

theorem keeps (hm : lib.InMemory) (h : Visit lib s s') (hl : Linked s) : Keeps s s' := by
  cases h with
  | root hd => exact .fetch hm hl.nodup hd
  | @base id base f hf hbase hd =>
    have hnodup := nodup_keys_noteDependent hl.nodup base id
    exact (Keeps.noteDependent s base id).trans (.fetch hm hnodup hd)

end Visit

/-- Any number of visits. -/
abbrev Visits (lib : Library) : Store → Store → Prop := ReflTransGen (Visit lib)

theorem Visits.linked_keeps (hm : lib.InMemory) (h : Visits lib s s') (hl : Linked s) :
    Linked s' ∧ Keeps s s' := by
  induction h with
  | refl => exact ⟨hl, .refl s⟩
  | tail _ hvisit ih => exact ⟨hvisit.linked hm ih.1, ih.2.trans (hvisit.keeps hm ih.1)⟩

/-! ### Loading -/

/-- A fragment is held, and noted about all that it extends. -/
def Recorded (s : Store) (f : Fragment) : Prop :=
  Table.get? s.fragments f.id = some f ∧ ∀ base ∈ f.references, s.Noted base f.id

theorem Recorded.keeps (h : s.Recorded f) (hk : Keeps s s') : s'.Recorded f :=
  ⟨hk.held f.id f h.1, fun base hb => hk.noted base f.id (h.2 base hb) (has_iff.2 ⟨f, h.1⟩)⟩

/-- A load came by visits to its store, where the fragments that it gives are recorded. -/
structure Visited (lib : Library) (s : Store) (x : Except Error (List Fragment) × Store) :
    Prop where
  visits : Visits lib s x.2
  recorded : ∀ fs, x.1 = .ok fs → ∀ f ∈ fs, x.2.Recorded f

/-- The result is not that the bound on the depth was met. -/
def Bounded (x : Except Error (List Fragment) × Store) : Prop :=
  ∀ text, x.1 ≠ .error (.internal text)

theorem Visited.error {e : Error} (h : Visits lib s s') : Visited lib s (.error e, s') :=
  ⟨h, fun fs hfs => by cases hfs⟩

theorem visited_loadBases (hm : lib.InMemory)
    {visit : String → Store → Except Error (List Fragment) × Store} {held : List String}
    (hvisit : ∀ base s, (lib.document? base).isSome → (∀ l ∈ held, s.has l = true) →
      Linked (fetch lib s base).2 → Bounded (visit base s) →
      Visited lib (fetch lib s base).2 (visit base s))
    (hf : Table.get? s.fragments id = some f) (references : List String)
    (hreferences : ∀ r ∈ references, r ∈ f.references) (hl : Linked s)
    (hheld : ∀ l ∈ held, s.has l = true)
    (hbounded : Bounded (loadBases lib visit id references s)) :
    Visited lib s (loadBases lib visit id references s) ∧
      ∀ fs, (loadBases lib visit id references s).1 = .ok fs →
        ∀ r ∈ references, (loadBases lib visit id references s).2.Noted r id := by
  induction references generalizing s with
  | nil =>
    refine ⟨⟨.refl, ?_⟩, ?_⟩
    · rintro fs ⟨⟩ f hf
      cases hf
    · rintro fs - r hr
      cases hr
  | cons r rs ih =>
    rw [loadBases, hm.locate_eq] at hbounded ⊢
    cases hd : lib.document? r with
    | none => exact ⟨.error .refl, by rintro fs ⟨⟩⟩
    | some d =>
      rw [hd] at hbounded
      dsimp only at hbounded ⊢
      have hsome : (lib.document? r).isSome := by simp [hd]
      have hstep : Visit lib s (fetch lib (s.noteDependent r id) r).2 :=
        .base hf (hreferences r List.mem_cons_self) hsome
      have hlinked := hstep.linked hm hl
      have hkeeps := hstep.keeps hm hl
      have hnoted : (fetch lib (s.noteDependent r id) r).2.Noted r id := by
        have hnodup := nodup_keys_noteDependent hl.nodup r id
        have hnote : (s.noteDependent r id).Noted r id := noted_noteDependent.2 (.inr ⟨rfl, rfl⟩)
        exact (Keeps.fetch hm hnodup hsome).noted r id hnote (has_iff.2 ⟨f, hf⟩)
      have hbase := hvisit r (s.noteDependent r id) hsome hheld hlinked
      generalize visit r (s.noteDependent r id) = x at hbase hbounded ⊢
      obtain ⟨e | fs, s₁⟩ := x
      · exact ⟨.error ((hbase hbounded).visits.head hstep), by rintro fs ⟨⟩⟩
      · obtain ⟨hvisits, hrecorded⟩ := hbase fun text htext => by cases htext
        obtain ⟨hlinked₁, hkeeps₁⟩ := Visits.linked_keeps hm hvisits hlinked
        have hrest := ih (hkeeps₁.held id f (hkeeps.held id f hf))
          (fun q hq => hreferences q (List.mem_cons_of_mem r hq)) hlinked₁
          (fun l hmem => hkeeps₁.has (hkeeps.has (hheld l hmem)))
        dsimp only at hbounded ⊢
        generalize loadBases lib visit id rs s₁ = y at hrest hbounded ⊢
        obtain ⟨e | gs, s₂⟩ := y
        · obtain ⟨hrest, -⟩ := hrest hbounded
          exact ⟨.error ((hvisits.trans hrest.visits).head hstep), by rintro fs ⟨⟩⟩
        · obtain ⟨hrest, hnotes⟩ := hrest fun text htext => by cases htext
          obtain ⟨-, hkeeps₂⟩ := Visits.linked_keeps hm hrest.visits hlinked₁
          refine ⟨⟨(hvisits.trans hrest.visits).head hstep, ?_⟩, ?_⟩
          · rintro _ ⟨⟩ g hg
            rcases List.mem_append.1 hg with hg | hg
            · exact (hrecorded fs rfl g hg).keeps hkeeps₂
            · exact hrest.recorded gs rfl g hg
          · rintro _ - q hq
            rcases List.mem_cons.1 hq with rfl | hq
            · have hid : s.has id = true := has_iff.2 ⟨f, hf⟩
              exact hkeeps₂.noted q id (hkeeps₁.noted q id hnoted (hkeeps.has hid))
                (hkeeps₁.has (hkeeps.has hid))
            · exact hnotes gs rfl q hq

theorem visited_loadFrom (hm : lib.InMemory) (fuel : Nat) (loading : List String) {id : String}
    (hd : (lib.document? id).isSome) (s : Store) (hloading : ∀ l ∈ loading, s.has l = true)
    (hl : Linked (fetch lib s id).2) (hbounded : Bounded (loadFrom lib fuel loading id s)) :
    Visited lib (fetch lib s id).2 (loadFrom lib fuel loading id s) := by
  induction fuel generalizing loading id s with
  | zero => exact absurd rfl (hbounded _)
  | succ fuel ih =>
    rw [loadFrom] at hbounded ⊢
    split_ifs at hbounded ⊢ with hid
    · -- what is being loaded is held, so that fetching it changes nothing
      rcases fetch_cases hm hd s with ⟨f, -, hfetch⟩ | ⟨hnone, -⟩
      · rw [hfetch]
        exact .error .refl
      · obtain ⟨f, hf⟩ := has_iff.1 (hloading id (by simpa using hid))
        cases hnone.symm.trans hf
    · obtain ⟨f, s₁, hfetch, hf, hkeeps⟩ := exists_fetch_eq hm hd s
      rw [hfetch] at hl hbounded ⊢
      dsimp only at hl hbounded ⊢
      have hheld : ∀ l ∈ loading ++ [id], s₁.has l = true := by
        intro l hmem
        rcases List.mem_append.1 hmem with hmem | hmem
        · exact hkeeps l (hloading l hmem)
        · obtain rfl := List.mem_singleton.1 hmem
          exact has_iff.2 ⟨f, hf⟩
      have hbases := visited_loadBases hm
        (fun base s hd hheld hl hb => ih (loading ++ [id]) hd s hheld hl hb) hf f.references
        (fun _ h => h) hl hheld
      generalize loadBases lib (fun base s => loadFrom lib fuel (loading ++ [id]) base s) id
        f.references s₁ = x at hbases hbounded ⊢
      obtain ⟨e | fs, s₂⟩ := x
      · exact .error (hbases hbounded).1.visits
      · obtain ⟨⟨hvisits, hrecorded⟩, hnotes⟩ := hbases fun text htext => by cases htext
        obtain ⟨-, hkeeps₂⟩ := Visits.linked_keeps hm hvisits hl
        refine ⟨hvisits, ?_⟩
        rintro _ ⟨⟩ g hg
        rcases List.mem_append.1 hg with hg | hg
        · exact hrecorded fs rfl g hg
        · obtain rfl := List.mem_singleton.1 hg
          obtain rfl := hl.id_eq id g hf
          exact ⟨hkeeps₂.held g.id g hf, hnotes fs rfl⟩

/-- A walk does not meet the bound on the depth of a load. -/
theorem ne_internal_of_walk {c : Catalog} {loading rs : List String} {e : Error}
    (h : Walk c loading rs (.error e)) (text : String) : e ≠ .internal text := by
  generalize hx : (Except.error e : Except Error (List Fragment)) = x at h
  induction h generalizing e with
  | done => cases hx
  | missing => cases hx; simp
  | closes => cases hx; simp
  | inside _ _ _ ih => exact ih hx
  | later _ _ _ _ _ ih => exact ih hx
  | visited => cases hx

/-- A load from memory is a sequence of visits, and the store has noted all that the fragments of
its chain extend. -/
theorem visited_load (hm : lib.InMemory) (hl : Linked s) (reference : String) :
    Visits lib s (load lib s reference).2 ∧ ∀ c, (load lib s reference).1 = .ok c →
      ∀ f ∈ c.fragments, (load lib s reference).2.Recorded f := by
  have hbounded : ∀ text, (load lib s reference).1 ≠ .error (.internal text) := by
    obtain ⟨x, s', hload, hwalk, -⟩ := load_walk hm s reference
    intro text hinternal
    rw [hload] at hinternal
    cases x with
    | ok fs => cases hinternal
    | error e =>
      cases hinternal
      exact ne_internal_of_walk hwalk text rfl
  unfold load at hbounded ⊢
  rw [hm.locate_eq] at hbounded ⊢
  cases hd : lib.document? reference with
  | none => exact ⟨.refl, by rintro c ⟨⟩⟩
  | some d =>
    rw [hd] at hbounded
    have hsome : (lib.document? reference).isSome := by simp [hd]
    have hroot : Visit lib s (fetch lib s reference).2 := .root hsome
    have hfrom := visited_loadFrom hm (depthBound lib s) [] hsome s (by simp) (hroot.linked hm hl)
    dsimp only at hbounded ⊢
    generalize loadFrom lib (depthBound lib s) [] reference s = x at hfrom hbounded ⊢
    obtain ⟨e | fs, s'⟩ := x
    · have hbounded' : Bounded (.error e, s') := fun text htext => by
        cases htext
        exact hbounded text rfl
      exact ⟨(hfrom hbounded').visits.head hroot, by rintro c ⟨⟩⟩
    · obtain ⟨hvisits, hrecorded⟩ := hfrom fun text htext => by cases htext
      refine ⟨hvisits.head hroot, ?_⟩
      rintro _ ⟨⟩
      exact hrecorded fs rfl

end Store

end LintConfig
