import LintConfig.Proofs.Store.Walk

/-!
# What loading reads

A journal is a store with the identities whose documents were read.  `Journal.load` takes the steps
of `Store.load` and notes every document that it asks the library for; without the notes it is
`Store.load` (`bare_load`).  In memory a load reads what the store does not hold, and holds what it
has read: so it reads nothing twice, and the fragments that it gives are those of the store
(`reading_load`).
-/

namespace LintConfig

/-- A store, and what was read. -/
structure Journal where
  store : Store
  /-- The identities whose documents were read, in order. -/
  reads : List String := []

namespace Journal

/-- `Store.fetch` with notes. -/
def fetch (lib : Library) (j : Journal) (id : String) : Except Error Fragment × Journal :=
  match Table.get? j.store.fragments id with
  | some f => (.ok f, j)
  | none =>
    match lib.read id with
    | .error e => (.error e, { j with reads := j.reads ++ [id] })
    | .ok d =>
      let f := Fragment.ofDocument id d
      (.ok f, ⟨j.store.keep f, j.reads ++ [id]⟩)

/-- `Store.noteDependent` next to the notes. -/
def noteDependent (j : Journal) (base dependent : String) : Journal :=
  { j with store := j.store.noteDependent base dependent }

/-- `Store.loadBases` with notes. -/
def loadBases (lib : Library) (visit : String → Journal → Except Error (List Fragment) × Journal)
    (id : String) : List String → Journal → Except Error (List Fragment) × Journal
  | [], j => (.ok [], j)
  | reference :: references, j =>
    match lib.locate reference (some id) with
    | .error e => (.error e, j)
    | .ok base =>
      match visit base (j.noteDependent base id) with
      | (.error e, j) => (.error e, j)
      | (.ok fs, j) =>
        match loadBases lib visit id references j with
        | (.error e, j) => (.error e, j)
        | (.ok gs, j) => (.ok (fs ++ gs), j)

/-- `Store.loadFrom` with notes. -/
def loadFrom (lib : Library) : Nat → List String → String → Journal →
    Except Error (List Fragment) × Journal
  | 0, _, _, j => (.error (.internal "inheritance is deeper than there are documents"), j)
  | fuel + 1, loading, id, j =>
    if loading.contains id then (.error (.cyclicInheritance (Store.cycleThrough loading id)), j)
    else
      match fetch lib j id with
      | (.error e, j) => (.error e, j)
      | (.ok f, j) =>
        match loadBases lib (fun base j => loadFrom lib fuel (loading ++ [id]) base j) id
            f.references j with
        | (.error e, j) => (.error e, j)
        | (.ok fs, j) => (.ok (fs ++ [f]), j)

/-- `Store.load` with notes. -/
def load (lib : Library) (j : Journal) (reference : String) : Except Error Chain × Journal :=
  match lib.locate reference none with
  | .error e => (.error e, j)
  | .ok root =>
    match loadFrom lib (Store.depthBound lib j.store) [] root j with
    | (.error e, j) => (.error e, j)
    | (.ok fs, j) => (.ok ⟨root, fs⟩, j)

/-! ### Without the notes -/

variable {lib : Library} {j j' j'' : Journal} {id reference : String}

/-- A result without the notes. -/
def bare {α : Type} (x : α × Journal) : α × Store := (x.1, x.2.store)

theorem bare_fetch (lib : Library) (j : Journal) (id : String) :
    bare (j.fetch lib id) = Store.fetch lib j.store id := by
  unfold fetch Store.fetch
  cases Table.get? j.store.fragments id with
  | some f => rfl
  | none => cases lib.read id <;> rfl

theorem bare_loadBases (lib : Library)
    {visit : String → Journal → Except Error (List Fragment) × Journal}
    {visit' : String → Store → Except Error (List Fragment) × Store}
    (hvisit : ∀ base j, bare (visit base j) = visit' base j.store) (id : String)
    (references : List String) (j : Journal) :
    bare (loadBases lib visit id references j) =
      Store.loadBases lib visit' id references j.store := by
  induction references generalizing j with
  | nil => rfl
  | cons reference references ih =>
    rw [loadBases, Store.loadBases]
    cases lib.locate reference (some id) with
    | error e => rfl
    | ok base =>
      have hbase := hvisit base (j.noteDependent base id)
      dsimp only
      rcases hx : visit base (j.noteDependent base id) with ⟨e | fs, j₁⟩
      all_goals
        rw [hx] at hbase
        have hbase' : visit' base (j.store.noteDependent base id) = _ := hbase.symm
        rw [hbase']
      · rfl
      · have hrest := ih j₁
        dsimp only [bare]
        rw [← hrest]
        rcases loadBases lib visit id references j₁ with ⟨e | gs, j₂⟩ <;> rfl

theorem bare_loadFrom (lib : Library) (fuel : Nat) (loading : List String) (id : String)
    (j : Journal) :
    bare (loadFrom lib fuel loading id j) = Store.loadFrom lib fuel loading id j.store := by
  induction fuel generalizing loading id j with
  | zero => rfl
  | succ fuel ih =>
    rw [loadFrom, Store.loadFrom]
    split_ifs with hid
    · rfl
    · have hfetch := bare_fetch lib j id
      rw [← hfetch]
      rcases fetch lib j id with ⟨e | f, j₁⟩
      · rfl
      · have hbases := bare_loadBases lib (fun base j => ih (loading ++ [id]) base j) id
          f.references j₁
        dsimp only [bare]
        rw [← hbases]
        rcases loadBases lib (fun base j => loadFrom lib fuel (loading ++ [id]) base j) id
          f.references j₁ with ⟨e | fs, j₂⟩ <;> rfl

/-- Without the notes this is the loading of stores. -/
theorem bare_load (lib : Library) (j : Journal) (reference : String) :
    bare (j.load lib reference) = j.store.load lib reference := by
  unfold load Store.load
  cases lib.locate reference none with
  | error e => rfl
  | ok root =>
    have hfrom := bare_loadFrom lib (Store.depthBound lib j.store) [] root j
    dsimp only
    rw [← hfrom]
    rcases loadFrom lib (Store.depthBound lib j.store) [] root j with ⟨e | fs, j₁⟩ <;> rfl

/-! ### What is read -/

/-- What loading does to a journal: what the store held it still holds, and what was read meanwhile
it did not hold, and holds now. -/
structure Continues (j j' : Journal) : Prop where
  kept : ∀ id f, Table.get? j.store.fragments id = some f →
    Table.get? j'.store.fragments id = some f
  read : ∃ ids, j'.reads = j.reads ++ ids ∧ ids.Nodup ∧
    ∀ id ∈ ids, j.store.has id = false ∧ j'.store.has id = true

theorem has_of_kept (h : ∀ id f, Table.get? j.store.fragments id = some f →
    Table.get? j'.store.fragments id = some f) (hid : j.store.has id = true) :
    j'.store.has id = true := by
  obtain ⟨f, hf⟩ := Option.isSome_iff_exists.1 hid
  exact Option.isSome_iff_exists.2 ⟨f, h id f hf⟩

namespace Continues

theorem refl (j : Journal) : Continues j j := ⟨fun _ _ h => h, [], by simp⟩

theorem trans (h : Continues j j') (h' : Continues j' j'') : Continues j j'' := by
  obtain ⟨ids, hreads, hnodup, hids⟩ := h.read
  obtain ⟨ids', hreads', hnodup', hids'⟩ := h'.read
  refine ⟨fun id f hf => h'.kept id f (h.kept id f hf), ids ++ ids', ?_, ?_, ?_⟩
  · rw [hreads', hreads, List.append_assoc]
  · -- the second part reads what was missing after the first, and the first left nothing missing
    refine List.nodup_append.2 ⟨hnodup, hnodup', fun a ha b hb heq => ?_⟩
    exact absurd ((hids a ha).2.symm.trans (heq ▸ (hids' b hb).1)) (by simp)
  · intro id hid
    rcases List.mem_append.1 hid with hid | hid
    · exact ⟨(hids id hid).1, has_of_kept h'.kept (hids id hid).2⟩
    · refine ⟨?_, (hids' id hid).2⟩
      by_contra hhas
      exact absurd ((hids' id hid).1.symm.trans (has_of_kept h.kept (by simpa using hhas))) (by simp)

theorem noteDependent {base dependent : String} (h : Continues (j.noteDependent base dependent) j') :
    Continues j j' :=
  ⟨h.kept, h.read⟩

end Continues

/-- Loading continues the journal, and gives fragments that the store then holds. -/
structure Reading (j : Journal) (x : Except Error (List Fragment) × Journal) : Prop where
  continues : Continues j x.2
  held : ∀ fs, x.1 = .ok fs → ∀ f ∈ fs, ∃ id, Table.get? x.2.store.fragments id = some f

theorem fetch_eq (h : lib.InMemory) {d : Document} (hd : lib.document? id = some d) (j : Journal) :
    ∃ f j', fetch lib j id = (.ok f, j') ∧ Continues j j' ∧
      Table.get? j'.store.fragments id = some f := by
  unfold fetch
  cases hf : Table.get? j.store.fragments id with
  | some f => exact ⟨f, j, rfl, .refl j, hf⟩
  | none =>
    have hmissing : j.store.has id = false := by simp [Store.has, Table.has, hf]
    have hkept (k : String) : Table.get? (j.store.keep (.ofDocument id d)).fragments k =
        if id = k then some (Fragment.ofDocument id d) else Table.get? j.store.fragments k :=
      Store.get?_keep j.store (.ofDocument id d) k
    refine ⟨.ofDocument id d, ⟨j.store.keep (.ofDocument id d), j.reads ++ [id]⟩,
      by simp [h.read_eq hd], ⟨fun k g hg => ?_, [id], rfl, by simp, fun k hk => ?_⟩, ?_⟩
    · rw [hkept, if_neg]
      · exact hg
      · rintro rfl
        cases hf.symm.trans hg
    · obtain rfl := List.mem_singleton.1 hk
      exact ⟨hmissing, by simp [Store.has, Table.has, hkept]⟩
    · rw [hkept, if_pos rfl]

theorem reading_loadBases (h : lib.InMemory)
    {visit : String → Journal → Except Error (List Fragment) × Journal}
    (hvisit : ∀ base j d, lib.document? base = some d → Reading j (visit base j)) (id : String)
    (references : List String) (j : Journal) :
    Reading j (loadBases lib visit id references j) := by
  induction references generalizing j with
  | nil => exact ⟨.refl j, by rintro fs ⟨⟩ f hf; cases hf⟩
  | cons reference references ih =>
    rw [loadBases, h.locate_eq]
    cases hd : lib.document? reference with
    | none => exact ⟨.refl j, by rintro fs ⟨⟩⟩
    | some d =>
      have hbase := hvisit reference (j.noteDependent reference id) d hd
      dsimp only
      generalize visit reference (j.noteDependent reference id) = x at hbase ⊢
      rcases x with ⟨e | fs, j₁⟩
      · exact ⟨hbase.continues.noteDependent, by rintro fs ⟨⟩⟩
      · have hrest := ih j₁
        dsimp only
        generalize loadBases lib visit id references j₁ = y at hrest ⊢
        rcases y with ⟨e | gs, j₂⟩
        · exact ⟨hbase.continues.noteDependent.trans hrest.continues, by rintro fs ⟨⟩⟩
        · refine ⟨hbase.continues.noteDependent.trans hrest.continues, ?_⟩
          rintro _ ⟨⟩ f hf
          rcases List.mem_append.1 hf with hf | hf
          · obtain ⟨k, hk⟩ := hbase.held fs rfl f hf
            exact ⟨k, hrest.continues.kept k f hk⟩
          · exact hrest.held gs rfl f hf

theorem reading_loadFrom (h : lib.InMemory) (fuel : Nat) (loading : List String) {id : String}
    {d : Document} (hd : lib.document? id = some d) (j : Journal) :
    Reading j (loadFrom lib fuel loading id j) := by
  induction fuel generalizing loading id d j with
  | zero => exact ⟨.refl j, by rintro fs ⟨⟩⟩
  | succ fuel ih =>
    rw [loadFrom]
    split_ifs with hid
    · exact ⟨.refl j, by rintro fs ⟨⟩⟩
    · obtain ⟨f, j₁, hfetch, hcontinues, hf⟩ := fetch_eq h hd j
      have hbases := reading_loadBases h
        (fun base j d hd => ih (loading ++ [id]) hd j) id f.references j₁
      rw [hfetch]
      dsimp only
      generalize loadBases lib (loadFrom lib fuel (loading ++ [id])) id f.references j₁ = x
        at hbases ⊢
      rcases x with ⟨e | fs, j₂⟩
      · exact ⟨hcontinues.trans hbases.continues, by rintro fs ⟨⟩⟩
      · refine ⟨hcontinues.trans hbases.continues, ?_⟩
        rintro _ ⟨⟩ g hg
        rcases List.mem_append.1 hg with hg | hg
        · exact hbases.held fs rfl g hg
        · obtain rfl := List.mem_singleton.1 hg
          exact ⟨id, hbases.continues.kept id g hf⟩

/-- A load in memory reads what the store does not hold, and each document once; what it gives is
in the store. -/
theorem reading_load (h : lib.InMemory) (j : Journal) (reference : String) :
    Continues j (j.load lib reference).2 ∧ ∀ c, (j.load lib reference).1 = .ok c →
      ∀ f ∈ c.fragments, ∃ id, Table.get? (j.load lib reference).2.store.fragments id = some f := by
  unfold load
  rw [h.locate_eq]
  cases hd : lib.document? reference with
  | none => exact ⟨.refl j, by rintro c ⟨⟩⟩
  | some d =>
    have hfrom := reading_loadFrom h (Store.depthBound lib j.store) [] hd j
    dsimp only
    generalize loadFrom lib (Store.depthBound lib j.store) [] reference j = x at hfrom ⊢
    rcases x with ⟨e | fs, j₁⟩
    · exact ⟨hfrom.continues, by rintro c ⟨⟩⟩
    · refine ⟨hfrom.continues, ?_⟩
      rintro _ ⟨⟩ f hf
      exact hfrom.held fs rfl f hf

end Journal

end LintConfig
