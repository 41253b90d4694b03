import LintConfig.Proofs.Setting.Absorption
import LintConfig.Proofs.Store.Walk

/-!
# Loaded chains are well-formed

While it loads the store forgets nothing, keeps fragments under their own identities, and in the end
holds whatever it gives (`Store.Loaded`).  So in a chain that is loaded, from memory or from files,
fragments with one identity are one; and none of them repeats a key, since what is read from a text
does not (`Store.wellFormed_load`).
-/

namespace LintConfig

/-- Fragments with one identity are one, and no table of settings repeats a key. -/
structure Chain.WellFormed (c : Chain) : Prop where
  same : ∀ f ∈ c.fragments, ∀ g ∈ c.fragments, f.id = g.id → f = g
  keyed : ∀ f ∈ c.fragments, f.document.Keyed

namespace Library

/-- No document in memory repeats a key. -/
def Keyed (lib : Library) : Prop :=
  ∀ name documents, Source.memory name documents ∈ lib.sources → ∀ e ∈ documents, e.2.Keyed

theorem keyed_of_decodeJson {shape : Decode.Shape} {path : String} {j : Json} {d : Document}
    (h : Notation.decodeJson (Document.decode shape) path j = .ok d) : d.Keyed := by
  unfold Notation.decodeJson at h
  cases hd : Document.decode shape (.ofJson j) with
  | error fault => simp [hd, Except.mapError] at h
  | ok e =>
    simp only [hd, Except.mapError, Except.ok.injEq] at h
    exact h ▸ Document.keyed_of_decode hd

theorem keyed_of_node {shape : Decode.Shape} {n : Option Node} {d : Document}
    (h : (n.bind fun n => (Document.decode shape n).toOption) = some d) : d.Keyed := by
  obtain ⟨n, -, hn⟩ := Option.bind_eq_some_iff.1 h
  cases hd : Document.decode shape n with
  | error fault => simp [hd, Except.toOption] at hn
  | ok e =>
    simp only [hd, Except.toOption, Option.some.injEq] at hn
    exact hn ▸ Document.keyed_of_decode hd

theorem keyed_of_readNode {shape : Decode.Shape} {path : String} {n : Option Node} {d : Document}
    (h : Notation.readNode (Document.decode shape) path n = .ok d) : d.Keyed := by
  unfold Notation.readNode at h
  split at h
  next a hn => exact Except.ok.inj h ▸ keyed_of_node hn
  next => cases h

/-- A document that is read from a text repeats no key, whatever the notation. -/
theorem keyed_of_ofText {path text : String} {d : Document} (h : Document.ofText path text = .ok d) :
    d.Keyed := by
  unfold Document.ofText at h
  split_ifs at h
  · obtain ⟨j, -, hj⟩ := exists_of_bind_eq_ok h
    split at hj
    · exact keyed_of_decodeJson hj
    · cases hj
  · unfold Notation.read at h
    split at h
    · unfold Notation.readJson at h
      split at h
      next a hstrict => exact Except.ok.inj h ▸ keyed_of_node hstrict
      next =>
        obtain ⟨j, -, hj⟩ := exists_of_bind_eq_ok h
        exact keyed_of_decodeJson hj
    · exact keyed_of_readNode h
    · exact keyed_of_readNode h

theorem keyed_of_read {lib : Library} (hlib : lib.Keyed) {id : String} {d : Document}
    (h : lib.read id = .ok d) : d.Keyed := by
  unfold read at h
  split at h
  next s hs =>
    have hmem := List.mem_of_find?_eq_some hs
    cases s with
    | memory name documents =>
      simp only [Source.read] at h
      split at h
      next e he => exact Except.ok.inj h ▸ hlib name documents hmem _ (Table.mem_of_get? he)
      next => cases h
    | directory base =>
      simp only [Source.read] at h
      split at h
      · exact keyed_of_ofText h
      · cases h
  next => cases h

end Library

namespace Store

/-- Fragments stand under their own identities, and none repeats a key. -/
def WellFormed (s : Store) : Prop :=
  ∀ id f, Table.get? s.fragments id = some f → f.id = id ∧ f.document.Keyed

/-- A store that was used to load holds what it held before and what it gives, each fragment under
its own identity. -/
structure Loaded (s : Store) (o : Except Error (List Fragment) × Store) : Prop where
  wellFormed : o.2.WellFormed
  kept : ∀ id f, Table.get? s.fragments id = some f → Table.get? o.2.fragments id = some f
  found : ∀ fs, o.1 = .ok fs → ∀ f ∈ fs, Table.get? o.2.fragments f.id = some f

namespace Loaded

variable {s s' s'' : Store} {x y : Except Error (List Fragment)} {fs gs : List Fragment} {e : Error}

theorem failed (h : Loaded s (x, s')) : Loaded s (.error e, s') where
  wellFormed := h.wellFormed
  kept := h.kept
  found _ h := by cases h

theorem nothing (h : s.WellFormed) : Loaded s (.ok [], s) where
  wellFormed := h
  kept _ _ h := h
  found fs h := by
    cases h
    simp

theorem append (h : Loaded s (.ok fs, s')) (h' : Loaded s' (.ok gs, s'')) :
    Loaded s (.ok (fs ++ gs), s'') where
  wellFormed := h'.wellFormed
  kept id f hf := h'.kept id f (h.kept id f hf)
  found := by
    rintro _ ⟨⟩ f hf
    rcases List.mem_append.1 hf with hf | hf
    · exact h'.kept _ _ (h.found fs rfl f hf)
    · exact h'.found gs rfl f hf

theorem of_subset (h : Loaded s (.ok fs, s')) (hgs : gs ⊆ fs) : Loaded s (.ok gs, s') where
  wellFormed := h.wellFormed
  kept := h.kept
  found := by
    rintro _ ⟨⟩ f hf
    exact h.found fs rfl f (hgs hf)

/-- What fails after something was loaded. -/
theorem append_error (h : Loaded s (x, s')) (h' : Loaded s' (y, s'')) :
    Loaded s (.error e, s'') where
  wellFormed := h'.wellFormed
  kept id f hf := h'.kept id f (h.kept id f hf)
  found _ h := by cases h

theorem noteDependent {base id : String} {o : Except Error (List Fragment) × Store}
    (h : Loaded (s.noteDependent base id) o) : Loaded s o :=
  ⟨h.wellFormed, h.kept, h.found⟩

end Loaded

variable {lib : Library}

theorem loaded_fetch (hlib : lib.Keyed) {s : Store} (hs : s.WellFormed) (id : String) :
    Loaded s ((fetch lib s id).1.map fun f => [f], (fetch lib s id).2) := by
  unfold fetch
  cases hget : Table.get? s.fragments id with
  | some f =>
    refine ⟨hs, fun _ _ h => h, ?_⟩
    rintro _ ⟨⟩ g hg
    obtain rfl := List.mem_singleton.1 hg
    rw [(hs id g hget).1]
    exact hget
  | none =>
    cases hread : lib.read id with
    | error e => exact (Loaded.nothing hs).failed
    | ok d =>
      have hkeep (k : String) : Table.get? (s.keep (.ofDocument id d)).fragments k =
          if id = k then some (.ofDocument id d) else Table.get? s.fragments k :=
        get?_keep s (.ofDocument id d) k
      refine ⟨fun k f hf => ?_, fun k f hf => ?_, ?_⟩
      · rw [hkeep] at hf
        split_ifs at hf with hk
        · obtain rfl := Option.some.inj hf
          exact ⟨hk, (Library.keyed_of_read hlib hread).normalize⟩
        · exact hs k f hf
      · have hne : id ≠ k := by
          rintro rfl
          simp [hget] at hf
        rw [hkeep, if_neg hne]
        exact hf
      · rintro _ ⟨⟩ g hg
        obtain rfl := List.mem_singleton.1 hg
        exact (hkeep id).trans (if_pos rfl)

theorem loaded_loadBases (lib : Library) {visit : String → Store → Except Error (List Fragment) × Store}
    (hvisit : ∀ base s, s.WellFormed → Loaded s (visit base s)) (id : String) :
    ∀ (references : List String) {s : Store}, s.WellFormed →
      Loaded s (loadBases lib visit id references s)
  | [], s, hs => .nothing hs
  | r :: rs, s, hs => by
    rw [loadBases]
    cases lib.locate r (some id) with
    | error e => exact (Loaded.nothing hs).failed
    | ok base =>
      have hbase : Loaded s (visit base (s.noteDependent base id)) :=
        (hvisit base (s.noteDependent base id) hs).noteDependent
      rcases hv : visit base (s.noteDependent base id) with ⟨x, s'⟩
      rw [hv] at hbase
      cases x with
      | error e => simpa [hv] using hbase
      | ok fs =>
        have hrest := loaded_loadBases lib hvisit id rs hbase.wellFormed
        rcases hr : loadBases lib visit id rs s' with ⟨y, s''⟩
        rw [hr] at hrest
        cases y with
        | error e => simpa [hv, hr] using hbase.append_error hrest
        | ok gs => simpa [hv, hr] using hbase.append hrest

theorem loaded_loadFrom (hlib : lib.Keyed) : ∀ (fuel : Nat) (loading : List String) (id : String)
    {s : Store}, s.WellFormed → Loaded s (loadFrom lib fuel loading id s)
  | 0, _, _, s, hs => (Loaded.nothing hs).failed
  | fuel + 1, loading, id, s, hs => by
    rw [loadFrom]
    split_ifs
    · exact (Loaded.nothing hs).failed
    · have hfetch := loaded_fetch hlib hs id
      rcases hf : fetch lib s id with ⟨x, s'⟩
      rw [hf] at hfetch
      cases x with
      | error e => simpa [hf] using hfetch.failed
      | ok f =>
        have hbases := loaded_loadBases lib
          (fun base s hs => loaded_loadFrom hlib fuel (loading ++ [id]) base hs) id f.references
          hfetch.wellFormed
        rcases hb : loadBases lib (fun base s => loadFrom lib fuel (loading ++ [id]) base s) id
          f.references s' with ⟨y, s''⟩
        rw [hb] at hbases
        cases y with
        | error e => simpa [hf, hb] using hfetch.append_error hbases
        | ok fs =>
          have hall : Loaded s (.ok (fs ++ [f]), s'') := (hfetch.append hbases).of_subset (by simp)
          simpa [hf, hb] using hall

/-- A chain that is loaded is well-formed, whatever the sources are. -/
theorem wellFormed_load (hlib : lib.Keyed) {s : Store} (hs : s.WellFormed) {reference : String}
    {c : Chain} (h : (load lib s reference).1 = .ok c) : c.WellFormed := by
  unfold load at h
  cases hroot : lib.locate reference none with
  | error e => simp [hroot] at h
  | ok root =>
    have hloaded := loaded_loadFrom hlib (depthBound lib s) [] root hs
    rcases hx : loadFrom lib (depthBound lib s) [] root s with ⟨x, s'⟩
    rw [hx] at hloaded
    cases x with
    | error e => simp [hroot, hx] at h
    | ok fs =>
      obtain rfl : Chain.mk root fs = c := by simpa [hroot, hx] using h
      have hfound := hloaded.found fs rfl
      refine ⟨fun f hf g hg hid => ?_, fun f hf => ?_⟩
      · have hsame := (hfound f hf).symm.trans (hid ▸ hfound g hg)
        exact Option.some.inj hsame
      · exact (hloaded.wellFormed f.id f (hfound f hf)).2

end Store

end LintConfig
