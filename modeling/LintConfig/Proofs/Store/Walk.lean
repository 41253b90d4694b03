import LintConfig.Proofs.Library.Memory
import LintConfig.Store

/-!
# Walks over documents

A catalog says which fragment stands behind an identity.  `Walk` says what a depth-first walk over
references comes to, from left to right and each base before what extends it: the fragments in
order, or the first problem.  In a library in memory `Store.load` is such a walk (`load_walk`), over
the fragments that the store holds and the documents it has not read; the bound on its depth is
never met, and what it adds to the store are current documents (`Store.Grown`).
-/

namespace LintConfig

/-- The fragments behind identities. -/
abbrev Catalog := String → Option Fragment

/-- What a walk over references comes to that is made while the fragments `loading`, the outermost
first, are being loaded. -/
inductive Walk (catalog : Catalog) :
    List String → List String → Except Error (List Fragment) → Prop
  | done (loading : List String) : Walk catalog loading [] (.ok [])
  | missing {loading : List String} {r : String} {rs : List String} (h : catalog r = none) :
      Walk catalog loading (r :: rs) (.error (.unresolvedReference r loading.getLast?))
  | closes {loading : List String} {r : String} {rs : List String} {f : Fragment}
      (h : catalog r = some f) (hr : r ∈ loading) :
      Walk catalog loading (r :: rs) (.error (.cyclicInheritance (Store.cycleThrough loading r)))
  | inside {loading : List String} {r : String} {rs : List String} {f : Fragment} {e : Error}
      (h : catalog r = some f) (hr : r ∉ loading)
      (hbases : Walk catalog (loading ++ [r]) f.references (.error e)) :
      Walk catalog loading (r :: rs) (.error e)
  | later {loading : List String} {r : String} {rs : List String} {f : Fragment} {e : Error}
      {fs : List Fragment} (h : catalog r = some f) (hr : r ∉ loading)
      (hbases : Walk catalog (loading ++ [r]) f.references (.ok fs))
      (hrest : Walk catalog loading rs (.error e)) : Walk catalog loading (r :: rs) (.error e)
  | visited {loading : List String} {r : String} {rs : List String} {f : Fragment}
      {fs gs : List Fragment} (h : catalog r = some f) (hr : r ∉ loading)
      (hbases : Walk catalog (loading ++ [r]) f.references (.ok fs))
      (hrest : Walk catalog loading rs (.ok gs)) :
      Walk catalog loading (r :: rs) (.ok (fs ++ f :: gs))

namespace Walk

variable {catalog : Catalog} {loading rs : List String} {r : String} {e : Error}
  {fs gs : List Fragment}

/-- A walk comes to one result. -/
theorem unique {x y : Except Error (List Fragment)} (hx : Walk catalog loading rs x)
    (hy : Walk catalog loading rs y) : x = y := by
  induction hx generalizing y with
  | done => cases hy; rfl
  | missing h => cases hy <;> simp_all
  | closes h hr => cases hy <;> simp_all
  | inside h hr _ ih =>
    cases hy with
    | inside h' hr' hb' => cases h.symm.trans h'; exact ih hb'
    | later h' hr' hb' => cases h.symm.trans h'; cases ih hb'
    | visited h' hr' hb' => cases h.symm.trans h'; cases ih hb'
    | missing h' => simp_all
    | closes h' hr' => contradiction
  | later h hr _ _ ih ih' =>
    cases hy with
    | inside h' hr' hb' => cases h.symm.trans h'; cases ih hb'
    | later h' hr' hb' hrest => exact ih' hrest
    | visited h' hr' hb' hrest => cases ih' hrest
    | missing h' => simp_all
    | closes h' hr' => contradiction
  | visited h hr _ _ ih ih' =>
    cases hy with
    | inside h' hr' hb' => cases h.symm.trans h'; cases ih hb'
    | later h' hr' hb' hrest => cases ih' hrest
    | visited h' hr' hb' hrest =>
      cases h.symm.trans h'
      cases ih hb'
      cases ih' hrest
      rfl
    | missing h' => simp_all
    | closes h' hr' => contradiction

/-- Every fragment of a result is in the catalog. -/
theorem exists_catalog_eq (h : Walk catalog loading rs (.ok fs)) {f : Fragment} (hf : f ∈ fs) :
    ∃ id, catalog id = some f := by
  generalize hx : (Except.ok fs : Except Error (List Fragment)) = x at h
  induction h generalizing fs with
  | done =>
    cases hx
    simp at hf
  | visited h hr _ _ ih ih' =>
    cases hx
    rcases List.mem_append.1 hf with hf | hf
    · exact ih hf rfl
    · rcases List.mem_cons.1 hf with rfl | hf
      · exact ⟨_, h⟩
      · exact ih' hf rfl
  | _ => cases hx

/-- A walk that succeeds depends on the fragments that it visits only. -/
theorem congr {catalog' : Catalog} (h : Walk catalog loading rs (.ok fs))
    (hsame : ∀ f ∈ fs, ∀ id, catalog id = some f → catalog' id = some f) :
    Walk catalog' loading rs (.ok fs) := by
  generalize hx : (Except.ok fs : Except Error (List Fragment)) = x at h
  induction h generalizing fs with
  | done loading =>
    cases hx
    exact .done loading
  | visited h hr _ _ ih ih' =>
    cases hx
    exact .visited (hsame _ (by simp) _ h) hr
      (ih (fun f hf => hsame f (by simp [hf])) rfl)
      (ih' (fun f hf => hsame f (by simp [hf])) rfl)
  | _ => cases hx

/-! ### One reference after the other -/

theorem cons_error (h : Walk catalog loading [r] (.error e)) :
    Walk catalog loading (r :: rs) (.error e) := by
  cases h with
  | missing h => exact .missing h
  | closes h hr => exact .closes h hr
  | inside h hr hb => exact .inside h hr hb
  | later h hr hb hrest => cases hrest

theorem cons_later (h : Walk catalog loading [r] (.ok fs))
    (hrest : Walk catalog loading rs (.error e)) : Walk catalog loading (r :: rs) (.error e) := by
  cases h with
  | visited h hr hb _ => exact .later h hr hb hrest

theorem cons_ok (h : Walk catalog loading [r] (.ok fs)) (hrest : Walk catalog loading rs (.ok gs)) :
    Walk catalog loading (r :: rs) (.ok (fs ++ gs)) := by
  cases h with
  | visited h hr hb hnil =>
    cases hnil
    simpa using Walk.visited h hr hb hrest

end Walk

/-! ### Catalogs -/

/-- The fragments of the documents. -/
def Library.catalog (lib : Library) : Catalog := fun id =>
  (lib.document? id).map (Fragment.ofDocument id)

namespace Store

/-- The fragments that a store holds, and those of the documents that it has not read.  A fragment
whose document is gone cannot be referred to. -/
def catalog (lib : Library) (s : Store) : Catalog := fun id =>
  (lib.document? id).map fun d => (Table.get? s.fragments id).getD (Fragment.ofDocument id d)

/-- The store holds what an earlier one held, and beyond that the fragments of documents. -/
structure Grown (lib : Library) (s s' : Store) : Prop where
  kept : ∀ id f, Table.get? s.fragments id = some f → Table.get? s'.fragments id = some f
  added : ∀ id f, Table.get? s'.fragments id = some f →
    Table.get? s.fragments id = some f ∨ lib.catalog id = some f

namespace Grown

variable {lib : Library} {s s' s'' : Store}

theorem refl (lib : Library) (s : Store) : Grown lib s s := ⟨fun _ _ h => h, fun _ _ h => .inl h⟩

theorem trans (h : Grown lib s s') (h' : Grown lib s' s'') : Grown lib s s'' where
  kept id f hf := h'.kept id f (h.kept id f hf)
  added id f hf := by
    rcases h'.added id f hf with hf | hf
    · exact h.added id f hf
    · exact .inr hf

/-- What was read does not change what is found. -/
theorem catalog_eq (h : Grown lib s s') : s'.catalog lib = s.catalog lib := by
  funext id
  unfold Store.catalog
  cases hd : lib.document? id with
  | none => rfl
  | some d =>
    simp only [Option.map_some, Option.some.injEq]
    cases hf : Table.get? s.fragments id with
    | some f => rw [h.kept id f hf]
    | none =>
      cases hf' : Table.get? s'.fragments id with
      | none => rfl
      | some f =>
        have hadded := h.added id f hf'
        simp only [hf, reduceCtorEq, Library.catalog, hd, Option.map_some, Option.some.injEq,
          false_or] at hadded
        exact hadded.symm

theorem noteDependent (h : Grown lib (s.noteDependent base dependent) s') : Grown lib s s' :=
  ⟨h.kept, h.added⟩

end Grown

/-- A store that holds nothing finds the documents. -/
theorem catalog_empty (lib : Library) : catalog lib {} = lib.catalog := by
  funext id
  unfold catalog Library.catalog
  cases lib.document? id <;> rfl

theorem catalog_noteDependent (lib : Library) (s : Store) (base dependent : String) :
    (s.noteDependent base dependent).catalog lib = s.catalog lib := rfl

theorem get?_keep (s : Store) (f : Fragment) (id : String) :
    Table.get? (s.keep f).fragments id = if f.id = id then some f else Table.get? s.fragments id :=
  Table.get?_put s.fragments f.id f id

/-! ### Loading -/

variable {lib : Library}

theorem fetch_eq (h : lib.InMemory) {s : Store} {id : String} {f : Fragment}
    (hf : s.catalog lib id = some f) : ∃ s', fetch lib s id = (.ok f, s') ∧ Grown lib s s' := by
  obtain ⟨d, hd, rfl⟩ := Option.map_eq_some_iff.1 hf
  unfold fetch
  cases hs : Table.get? s.fragments id with
  | some g => exact ⟨s, rfl, .refl lib s⟩
  | none =>
    refine ⟨s.keep (.ofDocument id d), by simp [h.read_eq hd], fun j g hg => ?_, fun j g hg => ?_⟩
    · rw [get?_keep, if_neg]
      · exact hg
      · rintro rfl
        rw [show (Fragment.ofDocument id d).id = id from rfl, hs] at hg
        cases hg
    · rw [get?_keep] at hg
      split_ifs at hg with hj
      · obtain rfl : id = j := hj
        exact .inr (by simpa [Library.catalog, hd] using hg)
      · exact .inl hg

/-- The bases of a fragment are walked over if each of them is. -/
theorem loadBases_walk (h : lib.InMemory) {loading : List String} {id : String}
    (hlast : loading.getLast? = some id)
    {visit : String → Store → Except Error (List Fragment) × Store}
    (hvisit : ∀ base s f, s.catalog lib base = some f → ∃ x s', visit base s = (x, s') ∧
      Walk (s.catalog lib) loading [base] x ∧ Grown lib s s') :
    ∀ (references : List String) (s : Store), ∃ x s',
      loadBases lib visit id references s = (x, s') ∧
        Walk (s.catalog lib) loading references x ∧ Grown lib s s'
  | [], s => ⟨.ok [], s, rfl, .done loading, .refl lib s⟩
  | r :: rs, s => by
    rw [loadBases, h.locate_eq]
    cases hd : lib.document? r with
    | none =>
      refine ⟨_, s, rfl, ?_, .refl lib s⟩
      rw [← hlast]
      exact .missing (by simp [catalog, hd])
    | some d =>
      have hr : (s.noteDependent r id).catalog lib r =
          some ((Table.get? s.fragments r).getD (Fragment.ofDocument r d)) := by
        simp [catalog, hd, Store.noteDependent]
      obtain ⟨x, s₁, hx, hwalk, hgrown⟩ := hvisit r (s.noteDependent r id) _ hr
      have hgrown' := hgrown.noteDependent
      rw [catalog_noteDependent] at hwalk
      simp only [hx]
      cases x with
      | error e => exact ⟨_, s₁, rfl, hwalk.cons_error, hgrown'⟩
      | ok fs =>
        obtain ⟨y, s₂, hy, hwalk', hgrown₂⟩ := loadBases_walk h hlast hvisit rs s₁
        rw [hgrown'.catalog_eq] at hwalk'
        simp only [hy]
        cases y with
        | error e => exact ⟨_, s₂, rfl, hwalk.cons_later hwalk', hgrown'.trans hgrown₂⟩
        | ok gs => exact ⟨_, s₂, rfl, hwalk.cons_ok hwalk', hgrown'.trans hgrown₂⟩

/-- The fragments being loaded are distinct documents, so a bound above the number of documents
leaves room for one more. -/
theorem loadFrom_walk (h : lib.InMemory) :
    ∀ (fuel : Nat) (loading : List String) (id : String) (s : Store) (f : Fragment),
      s.catalog lib id = some f → loading.Nodup → (∀ l ∈ loading, l ∈ lib.names) →
      lib.names.length < fuel + loading.length →
      ∃ x s', loadFrom lib fuel loading id s = (x, s') ∧
        Walk (s.catalog lib) loading [id] x ∧ Grown lib s s'
  | 0, loading, id, s, f, _, hnodup, hnames, hfuel => by
    -- there would be more fragments being loaded than there are documents
    have hle := List.Nodup.length_le_of_subset hnodup hnames
    omega
  | fuel + 1, loading, id, s, f, hf, hnodup, hnames, hfuel => by
    rw [loadFrom]
    by_cases hid : id ∈ loading
    · simp only [List.contains_eq_mem, hid, decide_true, if_true]
      exact ⟨_, s, rfl, .closes hf hid, .refl lib s⟩
    · simp only [List.contains_eq_mem, hid, decide_false, Bool.false_eq_true, if_false]
      obtain ⟨s₁, hfetch, hgrown⟩ := fetch_eq h hf
      have hmem : id ∈ lib.names := by
        obtain ⟨d, hd, -⟩ := Option.map_eq_some_iff.1 hf
        exact Library.mem_names_of_document? hd
      have hnodup' : (loading ++ [id]).Nodup := by
        rw [List.nodup_append]
        refine ⟨hnodup, by simp, fun a ha b hb => ?_⟩
        rw [List.mem_singleton] at hb
        rintro rfl
        exact hid (hb ▸ ha)
      have hnames' : ∀ l ∈ loading ++ [id], l ∈ lib.names := by
        intro l hl
        rcases List.mem_append.1 hl with hl | hl
        · exact hnames l hl
        · rw [List.mem_singleton] at hl
          exact hl ▸ hmem
      have hvisit (base : String) (s' : Store) (g : Fragment) (hg : s'.catalog lib base = some g) :
          ∃ x s'', loadFrom lib fuel (loading ++ [id]) base s' = (x, s'') ∧
            Walk (s'.catalog lib) (loading ++ [id]) [base] x ∧ Grown lib s' s'' :=
        loadFrom_walk h fuel (loading ++ [id]) base s' g hg hnodup' hnames'
          (by simp only [List.length_append, List.length_singleton]; omega)
      have hlast : (loading ++ [id]).getLast? = some id := by simp
      obtain ⟨x, s₂, hx, hwalk, hgrown'⟩ := loadBases_walk h hlast hvisit f.references s₁
      rw [hgrown.catalog_eq] at hwalk
      simp only [hfetch, hx]
      cases x with
      | error e => exact ⟨_, s₂, rfl, .inside hf hid hwalk, hgrown.trans hgrown'⟩
      | ok fs => exact ⟨_, s₂, rfl, .visited hf hid hwalk (.done loading), hgrown.trans hgrown'⟩

/-- Loading is a walk over what the store finds, and the store grows by documents. -/
theorem load_walk (h : lib.InMemory) (s : Store) (reference : String) :
    ∃ x s', load lib s reference = (x.map (Chain.mk reference), s') ∧
      Walk (s.catalog lib) [] [reference] x ∧ Grown lib s s' := by
  unfold load
  rw [h.locate_eq]
  cases hd : lib.document? reference with
  | none => exact ⟨_, s, rfl, .missing (by simp [catalog, hd]), .refl lib s⟩
  | some d =>
    have hf : s.catalog lib reference =
        some ((Table.get? s.fragments reference).getD (Fragment.ofDocument reference d)) := by
      simp [catalog, hd]
    have hfuel : lib.names.length < depthBound lib s + ([] : List String).length := by
      have hle := Library.length_names_le lib
      unfold depthBound
      simp only [List.length_nil]
      omega
    obtain ⟨x, s', hx, hwalk, hgrown⟩ :=
      loadFrom_walk h (depthBound lib s) [] reference s _ hf List.nodup_nil (by simp) hfuel
    refine ⟨x, s', ?_, hwalk, hgrown⟩
    simp only [hx]
    cases x <;> rfl

end Store

end LintConfig
