import LintConfig.Proofs.Table
import LintConfig.Source

/-!
# Libraries in memory

A library in memory is one whose sources all hold their documents by name.  There a reference is
its own identity: `Library.document?` gives the document that every lookup by name arrives at,
`locate?_eq` and `read_eq` say so, and a change of the documents under one name leaves those
under all others as they are (`document?_insert_of_ne`, `document?_remove_of_ne`).
-/

namespace LintConfig

namespace Source

/-- Whether a source holds its documents by name. -/
def IsMemory : Source → Prop
  | .memory _ _ => True
  | .directory _ => False

/-- The document that a source holds under a name. -/
def document? : Source → String → Option Document
  | .memory _ documents, id => Table.get? documents id
  | .directory _, _ => none

@[simp]
theorem document?_memory (name : String) (documents : Table Document) (id : String) :
    (Source.memory name documents).document? id = Table.get? documents id := rfl

@[simp]
theorem document?_directory (base id : String) : (Source.directory base).document? id = none := rfl

/-- The names under which a source holds documents. -/
def names : Source → List String
  | .memory _ documents => Table.keys documents
  | .directory _ => []

theorem IsMemory.locate? {s : Source} (h : s.IsMemory) (files : Files.Tree) (reference : String)
    (referrer : Option String) :
    s.locate? files reference referrer = (s.document? reference).map fun _ => reference := by
  cases s with
  | memory name documents =>
    cases hd : Table.get? documents reference <;> simp [Source.locate?, Table.has, hd]
  | directory base => exact h.elim

theorem IsMemory.owns {s : Source} (h : s.IsMemory) (id : String) :
    s.owns id = (s.document? id).isSome := by
  cases s with
  | memory name documents => rfl
  | directory base => exact h.elim

theorem IsMemory.read {s : Source} (h : s.IsMemory) (files : Files.Tree) {id : String}
    {d : Document} (hd : s.document? id = some d) : s.read files id = .ok d := by
  cases s with
  | memory name documents =>
    have hd' : Table.get? documents id = some d := hd
    simp [Source.read, hd']
  | directory base => exact h.elim

theorem IsMemory.identityOf? {s : Source} (h : s.IsMemory) (files : Files.Tree)
    (reference : String) : s.identityOf? files reference = none := by
  cases s with
  | memory name documents => rfl
  | directory base => exact h.elim

theorem mem_names_of_document? {s : Source} {id : String} {d : Document}
    (h : s.document? id = some d) : id ∈ s.names := by
  cases s with
  | memory name documents =>
    rw [document?_memory] at h
    exact (Table.isSome_get?_iff documents id).1 (by rw [h]; rfl)
  | directory base => simp at h

end Source

namespace Library

/-- All documents are held by name. -/
def InMemory (lib : Library) : Prop := ∀ s ∈ lib.sources, s.IsMemory

/-- The document under a name: that of the first source which has one. -/
def document? (lib : Library) (id : String) : Option Document :=
  lib.sources.findSome? fun s => s.document? id

/-- The names under which there are documents, those of each source after those of the one
before. -/
def names (lib : Library) : List String := lib.sources.flatMap Source.names

variable {lib : Library}

theorem InMemory.locate?_eq (h : lib.InMemory) (reference : String) (referrer : Option String) :
    lib.locate? reference referrer = (lib.document? reference).map fun _ => reference := by
  obtain ⟨ss, files⟩ := lib
  simp only [Library.locate?, document?]
  induction ss with
  | nil => rfl
  | cons s ss ih =>
    have hs := (h s (by simp)).locate? files reference referrer
    have ih' := ih fun t ht => h t (List.mem_cons_of_mem _ ht)
    cases hd : s.document? reference <;> simp [hs, hd, ih']

theorem InMemory.locate_eq (h : lib.InMemory) (reference : String) (referrer : Option String) :
    lib.locate reference referrer =
      match lib.document? reference with
      | some _ => .ok reference
      | none => .error (.unresolvedReference reference referrer) := by
  unfold Library.locate
  rw [h.locate?_eq]
  cases lib.document? reference <;> rfl

theorem InMemory.read_eq (h : lib.InMemory) {id : String} {d : Document}
    (hd : lib.document? id = some d) : lib.read id = .ok d := by
  obtain ⟨ss, files⟩ := lib
  simp only [Library.read]
  simp only [document?] at hd
  induction ss with
  | nil => simp at hd
  | cons s ss ih =>
    have hs := h s (by simp)
    cases hsd : s.document? id with
    | some d' =>
      obtain rfl : d' = d := by simpa [List.findSome?_cons, hsd] using hd
      have howns : s.owns id = true := by rw [hs.owns, hsd]; rfl
      simpa [List.find?_cons, howns] using hs.read files hsd
    | none =>
      have howns : s.owns id = false := by rw [hs.owns, hsd]; rfl
      rw [List.findSome?_cons, hsd] at hd
      simpa [List.find?_cons, howns] using ih (fun t ht => h t (List.mem_cons_of_mem _ ht)) hd

/-- A request by reference means the document of that name, whether it is there or not. -/
theorem InMemory.candidates_eq (h : lib.InMemory) (reference : String) :
    lib.candidates reference = [reference] := by
  have hid : lib.identityOf? reference = none := by
    unfold Library.identityOf?
    rw [List.findSome?_eq_none_iff]
    exact fun s hs => (h s hs).identityOf? lib.files reference
  unfold Library.candidates
  rw [hid, h.locate?_eq]
  cases lib.document? reference <;> simp [List.eraseDups_cons]

theorem mem_names_of_document? {id : String} {d : Document} (h : lib.document? id = some d) :
    id ∈ lib.names := by
  obtain ⟨s, hs, hd⟩ := List.exists_of_findSome?_eq_some h
  exact List.mem_flatMap.2 ⟨s, hs, Source.mem_names_of_document? hd⟩

theorem length_names_le (lib : Library) : lib.names.length ≤ lib.documentBound := by
  unfold names documentBound
  refine Nat.le_trans (Nat.le_of_eq ?_) (Nat.le_add_left _ _)
  induction lib.sources with
  | nil => rfl
  | cons s ss ih =>
    rw [List.flatMap_cons, List.length_append, ih]
    cases s <;> simp [Source.names, Table.keys]

/-! ### Presets -/

theorem InMemory.withPresets (h : lib.InMemory) (name : String) (documents : Table Document) :
    (lib.withSource (.memory name documents)).InMemory := by
  intro s hs
  rcases List.mem_cons.1 hs with rfl | hs
  · trivial
  · exact h s hs

theorem document?_withSource (lib : Library) (s : Source) (id : String) :
    (lib.withSource s).document? id = (s.document? id).or (lib.document? id) := by
  unfold withSource document?
  cases h : s.document? id <;> simp [h]

/-! ### Changes -/

theorem isMemory_changeMemory (change : Table Document → Table Document) (n : Nat)
    {ss : List Source} (h : ∀ s ∈ ss, s.IsMemory) : ∀ s ∈ changeMemory change n ss, s.IsMemory := by
  fun_induction changeMemory change n ss with
  | case1 => exact h
  | case2 n base ss ih => exact absurd (h (.directory base) (by simp)) id
  | case3 name documents ss =>
    intro s hs
    rcases List.mem_cons.1 hs with rfl | hs
    · trivial
    · exact h s (by simp [hs])
  | case4 n name documents ss ih =>
    intro s hs
    rcases List.mem_cons.1 hs with rfl | hs
    · trivial
    · exact ih (fun t ht => h t (by simp [ht])) s hs

/-- A change that keeps the document under a name in every table keeps it in the library. -/
theorem findSome?_changeMemory {change : Table Document → Table Document} {id : String}
    (hchange : ∀ t, Table.get? (change t) id = Table.get? t id) (n : Nat) (ss : List Source) :
    ((changeMemory change n ss).findSome? fun s => s.document? id) =
      ss.findSome? fun s => s.document? id := by
  fun_induction changeMemory change n ss with
  | case1 => rfl
  | case2 n base ss ih => simp [List.findSome?_cons, ih]
  | case3 name documents ss => simp [List.findSome?_cons, hchange]
  | case4 n name documents ss ih => simp [List.findSome?_cons, ih]

theorem InMemory.insert (h : lib.InMemory) (n : Nat) (name : String) (d : Document) :
    (lib.insert n name d).InMemory :=
  isMemory_changeMemory _ n h

theorem InMemory.remove (h : lib.InMemory) (n : Nat) (name : String) :
    (lib.remove n name).InMemory :=
  isMemory_changeMemory _ n h

theorem document?_insert_of_ne (lib : Library) (n : Nat) {name id : String} (d : Document)
    (h : id ≠ name) : (lib.insert n name d).document? id = lib.document? id :=
  findSome?_changeMemory (fun t => Table.get?_put_of_ne t d h.symm) n lib.sources

theorem document?_remove_of_ne (lib : Library) (n : Nat) {name id : String} (h : id ≠ name) :
    (lib.remove n name).document? id = lib.document? id :=
  findSome?_changeMemory (fun t => by rw [Table.get?_erase, if_neg h]) n lib.sources

end Library

end LintConfig
