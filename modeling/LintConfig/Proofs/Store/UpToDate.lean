import LintConfig.Proofs.Store.Invalidation
import LintConfig.Proofs.Store.Walk
import Mathlib.Data.Set.Insert

/-!
# Stores that are up to date

A store whose documents have changed holds stale fragments.  `Store.UpToDate` says that what it
holds is what a catalog has, a set of stale names aside.  Loading keeps this, a change of a document
makes its name stale, and dropping the fragment of a name makes that name fresh.  Loading over a
store with nothing stale comes to what loading over an empty one comes to (`UpToDate.load_eq`), and
nothing is stale after steps in which every change is made good (`foldl_eq_empty_of_settledBy`).
-/

namespace LintConfig

/-! ### Names that go stale -/

section Settling

variable {σ : Type} {changed? : σ → Option String} {refresh : String → σ}
  {after : Set String → σ → Set String}

/-- Every name that a step changes is refreshed by a later one. -/
def SettledBy (changed? : σ → Option String) (refresh : String → σ) : List σ → Prop
  | [] => True
  | x :: steps => (∀ name ∈ changed? x, refresh name ∈ steps) ∧ SettledBy changed? refresh steps

/-- Where a step makes stale what it changes and no more, and does not leave stale what it refreshes,
nothing is stale after steps that settle. -/
theorem foldl_eq_empty_of_settledBy
    (hafter : ∀ stale x, ∀ name ∈ after stale x, name ∈ changed? x ∨ name ∈ stale ∧ x ≠ refresh name)
    {stale : Set String} {steps : List σ} (hsettled : SettledBy changed? refresh steps)
    (hstale : ∀ name ∈ stale, refresh name ∈ steps) : steps.foldl after stale = ∅ := by
  induction steps generalizing stale with
  | nil => exact Set.eq_empty_of_forall_notMem fun name hname => by simpa using hstale name hname
  | cons x steps ih =>
    refine ih hsettled.2 fun name hname => ?_
    -- what was stale before is refreshed later, or is changed again now
    rcases hafter stale x name hname with hname | ⟨hname, hne⟩
    · exact hsettled.1 name hname
    · exact (List.mem_cons.1 (hstale name hname)).resolve_left hne.symm

end Settling

/-! ### Stores -/

variable {c c' : Catalog} {stale : Set String} {name : String}

namespace Store

/-- What a store holds is what a catalog has, stale names aside. -/
structure UpToDate (c : Catalog) (stale : Set String) (s : Store) : Prop where
  id_eq : ∀ id f, Table.get? s.fragments id = some f → f.id = id
  current : ∀ id f, Table.get? s.fragments id = some f → id ∉ stale → c id = some f

namespace UpToDate

variable {lib : Library} {s s' : Store} {id : String} {f : Fragment}

theorem empty (c : Catalog) (stale : Set String) : UpToDate c stale {} where
  id_eq id f h := by cases h
  current id f h := by cases h

theorem grown (h : UpToDate lib.catalog stale s) (hgrown : Grown lib s s') :
    UpToDate lib.catalog stale s' where
  id_eq id f hf := by
    rcases hgrown.added id f hf with hf | hf
    · exact h.id_eq id f hf
    · obtain ⟨d, -, rfl⟩ := Option.map_eq_some_iff.1 hf
      rfl
  current id f hf hid := by
    rcases hgrown.added id f hf with hf | hf
    · exact h.current id f hf hid
    · exact hf

theorem change (h : UpToDate c stale s) (hc : ∀ id, id ≠ name → c' id = c id) :
    UpToDate c' (insert name stale) s where
  id_eq := h.id_eq
  current id f hf hid := by
    rw [Set.mem_insert_iff, not_or] at hid
    rw [hc id hid.1]
    exact h.current id f hf hid.2

/-- A name is up to date once its fragment was dropped. -/
theorem drop (h : UpToDate c stale s) {targets : List String}
    (hname : name ∈ targets ∨ s.has name = false) :
    UpToDate c (stale \ {name}) (Engine.invalidateAll s targets).2 := by
  have hkept (id : String) (f : Fragment)
      (hf : Table.get? (Engine.invalidateAll s targets).2.fragments id = some f) :
      id ≠ name ∧ Table.get? s.fragments id = some f := by
    rw [get?_invalidateAll] at hf
    split_ifs at hf with hdropped
    refine ⟨?_, hf⟩
    rintro rfl
    rcases hname with hname | hname
    · exact hdropped ⟨id, hname, s.mem_affected_self id⟩
    · simp [Store.has, Table.has, hf] at hname
  constructor
  · exact fun id f hf => h.id_eq id f (hkept id f hf).2
  · intro id f hf hid
    obtain ⟨hne, hf⟩ := hkept id f hf
    exact h.current id f hf fun hstale => hid ⟨hstale, hne⟩

theorem catalog_id (h : UpToDate lib.catalog stale s) (hf : s.catalog lib id = some f) :
    f.id = id := by
  obtain ⟨d, -, rfl⟩ := Option.map_eq_some_iff.1 hf
  cases hs : Table.get? s.fragments id with
  | none => rfl
  | some g => exact h.id_eq id g hs

theorem catalog_eq (h : UpToDate lib.catalog stale s) (hid : id ∉ stale) :
    s.catalog lib id = lib.catalog id := by
  unfold Store.catalog
  cases hs : Table.get? s.fragments id with
  | none => rfl
  | some g =>
    have hg := h.current id g hs hid
    obtain ⟨d, hd, -⟩ := Option.map_eq_some_iff.1 hg
    rw [hg, hd]
    rfl

/-- With nothing stale a store makes no difference to what a reference comes to. -/
theorem load_eq (h : UpToDate lib.catalog ∅ s) (hmemory : lib.InMemory) (reference : String) :
    (s.load lib reference).1 = (Store.load lib {} reference).1 := by
  obtain ⟨x, s', hx, hwalk, -⟩ := load_walk hmemory s reference
  obtain ⟨y, s'', hy, hwalk', -⟩ := load_walk hmemory {} reference
  have hcatalog : s.catalog lib = lib.catalog := funext fun id => h.catalog_eq (Set.notMem_empty id)
  rw [hcatalog] at hwalk
  rw [catalog_empty] at hwalk'
  rw [hx, hy, hwalk.unique hwalk']

end UpToDate

end Store

end LintConfig
