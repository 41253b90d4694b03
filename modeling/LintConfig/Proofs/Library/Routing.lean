import LintConfig.Proofs.Files.Tree
import LintConfig.Proofs.Library.Memory

/-!
# Which source a read goes to

A reference is located by one rule and a read is routed by another: the first source that knows
the reference gives the identity, the first source that owns the identity reads it.  Every source
owns what it locates, so the two disagree only through an earlier source, and since directories
all read alike and a memory source knows what it owns, only through one of the other kind.
`read_eq_of_locate` settles which document arrives in each case, and shows that the two rules agree
where no document in memory is named like an absolute path.
-/

namespace LintConfig

namespace Source

variable {files : Files.Tree} {s t : Source} {reference id : String} {referrer : Option String}

/-- What a memory source locates is the reference itself. -/
theorem of_locate?_memory {name : String} {documents : Table Document}
    (h : (Source.memory name documents).locate? files reference referrer = some id) :
    Table.has documents id = true ∧ id = reference := by
  simp only [Source.locate?, Option.ite_none_right_eq_some, Option.some.injEq] at h
  obtain ⟨hhas, rfl⟩ := h
  exact ⟨hhas, rfl⟩

/-- What a directory locates is a file, named by its path from the root. -/
theorem exists_of_locate?_directory {base : String}
    (h : (Source.directory base).locate? files reference referrer = some id) :
    ∃ p text, files.follow (Path.join (anchor base referrer) reference) = .ok (p, .file text) ∧
      id = Files.Tree.pathOf p := by
  simp only [Source.locate?] at h
  split_ifs at h with _ hfile
  unfold Files.Tree.isFile at hfile
  split at hfile
  next p text hfollow =>
    exact ⟨p, text, hfollow, by
      simpa [Files.Tree.canonical, hfollow, Except.map, Except.toOption] using h.symm⟩
  next => cases hfile

theorem owns_of_locate? (h : s.locate? files reference referrer = some id) : s.owns id = true := by
  cases s with
  | memory name documents => exact (of_locate?_memory h).1
  | directory base =>
    obtain ⟨p, _, _, rfl⟩ := exists_of_locate?_directory h
    exact Files.Tree.isAbsolute_pathOf p

/-- A memory source that does not know a reference does not own what another one locates it as. -/
theorem owns_eq_false_of_memory (hs : s.IsMemory) (ht : t.IsMemory)
    (hid : s.locate? files reference referrer = some id)
    (hnone : t.locate? files reference referrer = none) : t.owns id = false := by
  rw [hs.locate?, Option.map_eq_some_iff] at hid
  obtain ⟨_, _, rfl⟩ := hid
  rw [ht.locate?, Option.map_eq_none_iff] at hnone
  rw [ht.owns, hnone]
  rfl

/-- Directories read alike: a read does not depend on the base directory. -/
theorem read_eq_of_directory (hs : ¬ s.IsMemory) (ht : ¬ t.IsMemory) (id : String) :
    t.read files id = s.read files id := by
  cases s with
  | memory => exact absurd trivial hs
  | directory =>
    cases t with
    | memory => exact absurd trivial ht
    | directory => rfl

theorem isAbsolute_eq_false_of_owns (hs : s.IsMemory)
    (hnames : ∀ name ∈ s.names, Path.isAbsolute name = false) (howns : s.owns id = true) :
    Path.isAbsolute id = false := by
  rw [hs.owns] at howns
  obtain ⟨d, hd⟩ := Option.isSome_iff_exists.1 howns
  exact hnames id (mem_names_of_document? hd)

/-- Without absolute names in memory, an owner of what a source locates is of the kind of that
source. -/
theorem isMemory_iff_of_owns (hs : ∀ name ∈ s.names, Path.isAbsolute name = false)
    (ht : ∀ name ∈ t.names, Path.isAbsolute name = false)
    (hid : s.locate? files reference referrer = some id) (howns : t.owns id = true) :
    t.IsMemory ↔ s.IsMemory := by
  have hsowns := owns_of_locate? hid
  by_cases hsm : s.IsMemory <;> by_cases htm : t.IsMemory
  · exact iff_of_true htm hsm
  · have habs := isAbsolute_eq_false_of_owns hsm hs hsowns
    cases t with
    | memory => exact absurd trivial htm
    | directory => exact absurd (show Path.isAbsolute id = true from howns) (by simp [habs])
  · have habs := isAbsolute_eq_false_of_owns htm ht howns
    cases s with
    | memory => exact absurd trivial hsm
    | directory => exact absurd (show Path.isAbsolute id = true from hsowns) (by simp [habs])
  · exact iff_of_false htm hsm

end Source

namespace Library

variable {lib : Library} {before after : List Source} {s : Source} {reference id : String}
  {referrer : Option String}

/-- The first source that knows a reference gives its identity. -/
theorem locate?_eq_of_first (hsources : lib.sources = before ++ s :: after)
    (hbefore : ∀ t ∈ before, t.locate? lib.files reference referrer = none)
    (hid : s.locate? lib.files reference referrer = some id) :
    lib.locate? reference referrer = some id := by
  rw [Library.locate?, hsources, List.findSome?_append, List.findSome?_eq_none_iff.2 hbefore,
    Option.none_or, List.findSome?_cons, hid]

/-- An identity is read from the first of the earlier sources that owns it, and from the source
that located it if none does. -/
theorem read_eq_of_sources (hsources : lib.sources = before ++ s :: after) (hs : s.owns id = true) :
    lib.read id = ((before.find? fun t => t.owns id).getD s).read lib.files id := by
  rw [Library.read, hsources, List.find?_append, List.find?_cons, hs]
  cases before.find? fun t => t.owns id <;> rfl

/-- Where the source that locates a reference stands behind others, which do not know it: its
identity is read from the first of those which owns it all the same, and from that source itself if
this one is of its kind or there is none.  So the document is that of the locating source whenever
no document in memory is named like an absolute path. -/
theorem read_eq_of_locate (hsources : lib.sources = before ++ s :: after)
    (hbefore : ∀ t ∈ before, t.locate? lib.files reference referrer = none)
    (hid : s.locate? lib.files reference referrer = some id) :
    lib.locate? reference referrer = some id ∧
    (∀ t, (before.find? fun t => t.owns id) = some t → lib.read id = t.read lib.files id) ∧
    ((∀ t, (before.find? fun t => t.owns id) = some t → (t.IsMemory ↔ s.IsMemory)) →
      lib.read id = s.read lib.files id) ∧
    ((∀ name ∈ lib.names, Path.isAbsolute name = false) → lib.read id = s.read lib.files id) := by
  have hread := read_eq_of_sources hsources (Source.owns_of_locate? hid)
  have hkind : (∀ t, (before.find? fun t => t.owns id) = some t → (t.IsMemory ↔ s.IsMemory)) →
      lib.read id = s.read lib.files id := by
    intro hkind
    rw [hread]
    cases hfirst : before.find? fun t => t.owns id with
    | none => rfl
    | some t =>
      have ht : t ∈ before := List.mem_of_find?_eq_some hfirst
      have howns : t.owns id = true := by simpa using List.find?_some hfirst
      by_cases hs : s.IsMemory
      · have hnot := Source.owns_eq_false_of_memory hs ((hkind t hfirst).2 hs) hid (hbefore t ht)
        exact absurd howns (by simp [hnot])
      · exact Source.read_eq_of_directory hs (mt (hkind t hfirst).1 hs) id
  refine ⟨locate?_eq_of_first hsources hbefore hid, fun t ht => ?_, hkind, fun hnames => ?_⟩
  · rw [hread, ht, Option.getD_some]
  · have hname : ∀ t ∈ before ++ s :: after, ∀ name ∈ t.names, Path.isAbsolute name = false :=
      fun t ht name hn => hnames name (List.mem_flatMap.2 ⟨t, hsources ▸ ht, hn⟩)
    refine hkind fun t ht => ?_
    have hmem : t ∈ before := List.mem_of_find?_eq_some ht
    have howns : t.owns id = true := by simpa using List.find?_some ht
    exact Source.isMemory_iff_of_owns (hname s (by simp)) (hname t (by simp [hmem])) hid howns

/-- Presets in memory and two directories, of which the second has the file `app.json`. -/
def layered : Library where
  sources := [.memory "presets" [("shared", {})], .directory "other", .directory "conf"]
  files := ⟨["work"], [(["work"], .directory), (["work", "conf"], .directory),
    (["work", "conf", "app.json"], .file (some "\x7b\x7d"))]⟩

/-- The other directory owns `/work/conf/app.json` too, and reads the same document. -/
theorem read_layered :
    layered.locate? "app.json" none = some "/work/conf/app.json" ∧
    (Source.directory "other").owns "/work/conf/app.json" = true ∧
    layered.read "/work/conf/app.json" =
      (Source.directory "conf").read layered.files "/work/conf/app.json" := by
  have h := @read_eq_of_locate layered [.memory "presets" [("shared", {})], .directory "other"] []
    (.directory "conf") "app.json" "/work/conf/app.json" none rfl (by decide) (by decide)
  exact ⟨h.1, by decide, h.2.2.2 (by decide)⟩

/-- A directory in front of a document in memory that is named like an absolute path. -/
def masked : Library where
  sources := [.directory "conf", .memory "memory" [("/company/base", { parser := some "espree" })]]
  files := ⟨["work"], [(["work"], .directory), (["work", "conf"], .directory)]⟩

/-- The document is located in memory, but read as a file, which does not exist. -/
theorem read_masked_ne :
    ¬ ∀ (lib : Library) (before after : List Source) (s : Source) (reference id : String)
      (referrer : Option String), lib.sources = before ++ s :: after →
      (∀ t ∈ before, t.locate? lib.files reference referrer = none) →
      s.locate? lib.files reference referrer = some id →
      lib.read id = s.read lib.files id := by
  intro h
  have hread := h masked [.directory "conf"] []
    (.memory "memory" [("/company/base", { parser := some "espree" })]) "/company/base"
    "/company/base" none rfl (by decide) (by decide)
  have hfile : masked.read "/company/base" = .error (.file "/company/base" .notFound) := by rfl
  rw [hfile] at hread
  exact absurd hread (by simp [Source.read, Table.get?])

end Library

end LintConfig
