import LintConfig.Proofs.Engine.Session
import LintConfig.Proofs.Files.Change
import LintConfig.Proofs.Library.Routing

/-!
# Reloading what was deleted

A reload names a document by a reference, which no longer leads to it once it is deleted.  The
identity it had is then guessed: a directory gives the path from the root that its reference would
have, as long as the directory above is there.  `mem_candidates_of_removed` says when the guess is
right: a library takes the guess of the first source that makes one, so it is wrong if a source
before the one that had the document makes any guess at all.  A removal keeps the file tree well
formed (`wellFormed_removed`), so the same holds of the next one.
-/

namespace LintConfig

open Files

namespace Source

/-- The path of a reference has a directory: a source in a directory without a name needs a
reference with a slash for that. -/
def Anchored : Source → String → Prop
  | .memory _ _, _ => True
  | .directory base, reference => base ≠ "" ∨ '/' ∈ reference.toList

variable {files : Tree} {s : Source} {base reference id : String} {p : Place} {text : Option String}

theorem locate?_of_follow (h : files.follow (Path.join base reference) = .ok (p, .file text)) :
    (Source.directory base).locate? files reference none = some (Tree.pathOf p) := by
  simp [Source.locate?, anchor, Tree.isFile, Tree.canonical, h, Except.map, Except.toOption]

/-- The guess of a directory is where the reference leads, or else a name in what its parent leads
to. -/
theorem identityOf?_directory_cases
    (h : (Source.directory base).identityOf? files reference = some id) :
    (∃ q e, files.follow (Path.join base reference) = .ok (q, e) ∧ id = Tree.pathOf q) ∨
    ∃ parent name q e, Path.parent? (Path.join base reference) = some parent ∧
      Path.fileName? (Path.join base reference) = some name ∧
      files.follow parent = .ok (q, e) ∧ id = Path.join (Tree.pathOf q) name := by
  simp only [Source.identityOf?, Tree.canonical] at h
  cases hpath : files.follow (Path.join base reference) with
  | ok r =>
    refine .inl ⟨r.1, r.2, rfl, ?_⟩
    simpa [hpath, Except.map] using h.symm
  | error f =>
    cases hparent : Path.parent? (Path.join base reference) with
    | none => simp [hpath, hparent, Except.map] at h
    | some parent =>
      cases hfollow : files.follow parent with
      | error f => simp [hpath, hparent, hfollow, Except.map, Except.toOption] at h
      | ok r =>
        cases hname : Path.fileName? (Path.join base reference) with
        | none => simp [hpath, hparent, hname, Except.map, Except.toOption] at h
        | some name =>
          refine .inr ⟨parent, name, r.1, r.2, rfl, rfl, hfollow, ?_⟩
          simpa [hpath, hparent, hfollow, hname, Except.map, Except.toOption] using h.symm

/-- The guess for a reference that led to a file which was removed is the path of that file. -/
theorem identityOf?_removeAt (hfiles : files.WellFormed)
    (h : files.follow (Path.join base reference) = .ok (p, .file text))
    (hanchored : (Source.directory base).Anchored reference) :
    (Source.directory base).identityOf? (files.removeAt p) reference = some (Tree.pathOf p) := by
  have hfile := Tree.entryAt?_of_follow h
  obtain ⟨parent, name, hparent, hname, hproper, hp, hfollow⟩ :=
    hfiles.follow_parent_removeAt h (Path.slash_mem_join hanchored)
  have hnames : ∀ n ∈ p.dropLast, Path.Proper n := fun n hn =>
    hfiles.proper hfile n ((List.dropLast_sublist p).mem hn)
  have hjoin : Path.join (Tree.pathOf p.dropLast) name = Tree.pathOf p := by
    rw [Tree.join_pathOf hnames hproper, ← hp]
  cases hpath : (files.removeAt p).follow (Path.join base reference) with
  | ok r =>
    obtain ⟨hbefore, hne⟩ := Tree.follow_of_follow_removeAt (Tree.ne_nil_of_file hfile) hpath
    rw [h] at hbefore
    exact absurd (congrArg Prod.fst (Except.ok.inj hbefore)).symm hne
  | error f =>
    simp [Source.identityOf?, Tree.canonical, hpath, hparent, hfollow, hname, hjoin, Except.map,
      Except.toOption]

/-- A directory that did not know a reference does not guess where another one found it: its own
path would have led there too. -/
theorem identityOf?_removeAt_ne {other : String} (hfiles : files.WellFormed)
    (h : files.follow (Path.join base reference) = .ok (p, .file text))
    (hnone : (Source.directory other).locate? files reference none = none) :
    (Source.directory other).identityOf? (files.removeAt p) reference ≠ some (Tree.pathOf p) := by
  intro hguess
  have hfile := Tree.entryAt?_of_follow h
  have hp := Tree.ne_nil_of_file hfile
  rcases identityOf?_directory_cases hguess with
    ⟨q, e, hfollow, hq⟩ | ⟨parent, name, q, e, hparent, hname, hfollow, hq⟩
  · obtain ⟨hfollow, hne⟩ := Tree.follow_of_follow_removeAt hp hfollow
    have hqe := Tree.entryAt?_of_follow hfollow
    exact hne (Tree.pathOf_inj (hfiles.proper hfile) (hfiles.proper hqe) hq).symm
  · obtain ⟨ps, n, hpieces, hproper, hp', -⟩ := hfiles.exists_of_follow_file h
    obtain ⟨qs, hqs⟩ := Path.exists_pieces_join_eq hpieces other
    obtain rfl : n = name := Option.some.inj ((Path.fileName?_eq hqs hproper).symm.trans hname)
    obtain ⟨hfollow', -⟩ := Tree.follow_of_follow_removeAt hp hfollow
    have hqe := Tree.entryAt?_of_follow hfollow'
    have hplace : p = q ++ [n] := by
      rw [Tree.join_pathOf (hfiles.proper hqe) hproper] at hq
      refine Tree.pathOf_inj (hfiles.proper hfile) (fun m hm => ?_) hq
      rcases List.mem_append.1 hm with hm | hm
      · exact hfiles.proper hqe m hm
      · exact List.mem_singleton.1 hm ▸ hproper
    -- the guess is the same name in the same directory, so the path of this source led there too
    subst hplace
    have hdirectory : e = .directory := by
      have habove := hfiles.entryAt?_dropLast hfile
      rw [List.dropLast_concat, hqe] at habove
      exact Option.some.inj habove
    subst hdirectory
    by_cases hnil : qs = []
    · rw [hnil] at hqs
      rw [Path.parent?_of_singleton hqs hproper.1, Option.some.injEq] at hparent
      subst hparent
      simp [Tree.follow] at hfollow'
    · obtain ⟨parent', hparent', hwalk⟩ := Tree.exists_parent?_follow hqs hproper.1 hnil
      obtain rfl : parent' = parent := Option.some.inj (hparent'.symm.trans hparent)
      have hthere := Tree.follow_of_walk hqs hproper ((hwalk files q).1 hfollow') hfile
      rw [locate?_of_follow hthere] at hnone
      cases hnone

end Source

namespace Library

/-- The sources `before`, `s` and `after` once the document or file behind an identity is removed
from `s`. -/
def removed (files : Tree) (before after : List Source) (s : Source) (id : String) : Library :=
  match s with
  | .memory name documents => ⟨before ++ .memory name (Table.erase documents id) :: after, files⟩
  | .directory base =>
    ⟨before ++ .directory base :: after, (files.remove id).toOption.getD files⟩

variable {lib : Library} {before after : List Source} {s : Source} {reference id : String}

theorem mem_candidates_iff : id ∈ lib.candidates reference ↔
    lib.locate? reference none = some id ∨ lib.identityOf? reference = some id ∨
      id = reference := by
  simp [candidates, List.mem_eraseDups, eq_comm]

/-- A library leads a reference to itself or to a file. -/
theorem locate?_cases (h : lib.locate? reference none = some id) :
    id = reference ∨ ∃ p text, lib.files.entryAt? p = some (.file text) ∧ id = Tree.pathOf p := by
  obtain ⟨s, -, hs⟩ := List.exists_of_findSome?_eq_some h
  cases s with
  | memory name documents => exact .inl (Source.of_locate?_memory hs).2
  | directory base =>
    obtain ⟨p, text, hfollow, rfl⟩ := Source.exists_of_locate?_directory hs
    exact .inr ⟨p, text, Tree.entryAt?_of_follow hfollow, rfl⟩

/-- The sources in front make no guess. -/
theorem identityOf?_append {files : Tree} {ss : List Source}
    (h : ∀ t ∈ before, t.identityOf? files reference = none) :
    (Library.mk (before ++ ss) files).identityOf? reference =
      (Library.mk ss files).identityOf? reference := by
  simp only [identityOf?, List.findSome?_append, List.findSome?_eq_none_iff.2 h, Option.none_or]

theorem exists_removed_directory {base : String} (before after : List Source)
    (hfiles : lib.files.WellFormed)
    (hid : (Source.directory base).locate? lib.files reference none = some id) :
    ∃ p text, lib.files.follow (Path.join base reference) = .ok (p, .file text) ∧
      id = Tree.pathOf p ∧ removed lib.files before after (.directory base) id =
        ⟨before ++ .directory base :: after, lib.files.removeAt p⟩ := by
  obtain ⟨p, text, hfollow, rfl⟩ := Source.exists_of_locate?_directory hid
  refine ⟨p, text, hfollow, rfl, ?_⟩
  simp [removed, hfiles.remove_pathOf (Tree.entryAt?_of_follow hfollow), Except.toOption]

/-- A removal leaves the file tree well formed, so that more can be removed from it. -/
theorem wellFormed_removed (before after : List Source) (hfiles : lib.files.WellFormed)
    (hid : s.locate? lib.files reference none = some id) :
    (removed lib.files before after s id).files.WellFormed := by
  cases s with
  | memory name documents => exact hfiles
  | directory base =>
    obtain ⟨p, text, hfollow, -, hgone⟩ := exists_removed_directory before after hfiles hid
    rw [hgone]
    exact hfiles.removeAt (Tree.entryAt?_of_follow hfollow)

/-- What was removed is among the candidates only as the reference itself or as a guess. -/
theorem mem_candidates_removed_iff (before after : List Source) (hfiles : lib.files.WellFormed)
    (hid : s.locate? lib.files reference none = some id) :
    id ∈ (removed lib.files before after s id).candidates reference ↔
      id = reference ∨ (removed lib.files before after s id).identityOf? reference = some id := by
  rw [mem_candidates_iff]
  refine ⟨fun h => ?_, fun h => h.elim (fun h => .inr (.inr h)) (fun h => .inr (.inl h))⟩
  rcases h with hlocate | hguess | heq
  · cases s with
    | memory name documents => exact .inl (Source.of_locate?_memory hid).2
    | directory base =>
      obtain ⟨p, text, hfollow, rfl, hgone⟩ := exists_removed_directory before after hfiles hid
      rw [hgone] at hlocate
      refine (locate?_cases hlocate).imp_right fun ⟨q, text', hq, hpath⟩ => ?_
      have hp := Tree.entryAt?_of_follow hfollow
      rw [Tree.entryAt?_removeAt (Tree.ne_nil_of_file hp)] at hq
      split_ifs at hq with hne
      exact absurd (Tree.pathOf_inj (hfiles.proper hp) (hfiles.proper hq) hpath).symm hne
  · exact .inr hguess
  · exact .inl heq

/-- The guess is the file that was removed exactly if no source in front makes one. -/
theorem identityOf?_removed_iff {base : String} (hfiles : lib.files.WellFormed)
    (hbefore : ∀ t ∈ before, t.locate? lib.files reference none = none)
    (hid : (Source.directory base).locate? lib.files reference none = some id)
    (hanchored : (Source.directory base).Anchored reference) :
    (removed lib.files before after (.directory base) id).identityOf? reference = some id ↔
      ∀ t ∈ before, t.identityOf?
        (removed lib.files before after (.directory base) id).files reference = none := by
  obtain ⟨p, text, hfollow, rfl, hgone⟩ := exists_removed_directory before after hfiles hid
  rw [hgone]
  constructor
  · intro hguess
    cases hfirst : before.findSome? fun t => t.identityOf? (lib.files.removeAt p) reference with
    | none => exact List.findSome?_eq_none_iff.1 hfirst
    | some g =>
      rw [identityOf?, List.findSome?_append, hfirst, Option.some_or] at hguess
      rw [hguess] at hfirst
      obtain ⟨t, ht, hid⟩ := List.exists_of_findSome?_eq_some hfirst
      cases t with
      | memory name documents => cases hid
      | directory other =>
        exact absurd hid (Source.identityOf?_removeAt_ne hfiles hfollow (hbefore _ ht))
  · intro hnone
    rw [identityOf?_append hnone, identityOf?, List.findSome?_cons,
      Source.identityOf?_removeAt hfiles hfollow hanchored]

end Library

namespace Engine

variable {e e' : Engine} {lib : Library} {reference id : String} {report : ReloadReport}

/-- A reload builds the base again if it may mean a fragment that the base depends on. -/
theorem rebuilt_of_mem_candidates (hmem : id ∈ (withPresets e.registry lib).candidates reference)
    (hdepends : e.dependsOn id = true)
    (hreload : e.reload lib reference = (.ok report, e')) : report.rebuilt = true := by
  have htarget : id ∈ e.reloadTargets lib reference :=
    List.mem_filter.2 ⟨hmem, by simp [hdepends]⟩
  rcases reload_cases e lib reference rfl rfl with
    ⟨⟨base, hstate, hnone⟩, -⟩ | ⟨-, error, s, -, h⟩ | ⟨-, base, s, -, h⟩
  · exact absurd ((dependsOn_of_ready hstate id).1 hdepends)
      (hnone id (List.mem_append_right _ htarget))
  · rw [hreload] at h
    cases h
  · rw [hreload] at h
    rw [Except.ok.inj (congrArg Prod.fst h)]

end Engine

namespace Library

variable {lib : Library} {before after : List Source} {s : Source} {reference id : String}

/-- Where a source locates a reference, with no source before it that knows it, and what stands
behind the identity is removed from it: a request by the same reference still means that identity,
if this is the reference itself or no source before it makes a guess, and otherwise it does not.
A reload of an engine whose base depends on the identity then builds the base again, or fails. -/
theorem mem_candidates_of_removed (hfiles : lib.files.WellFormed)
    (hsources : lib.sources = before ++ s :: after)
    (hbefore : ∀ t ∈ before, t.locate? lib.files reference none = none)
    (hid : s.locate? lib.files reference none = some id) (hanchored : s.Anchored reference) :
    lib.locate? reference none = some id ∧
    (id ∈ (removed lib.files before after s id).candidates reference ↔
      id = reference ∨ ∀ t ∈ before,
        t.identityOf? (removed lib.files before after s id).files reference = none) ∧
    (id ∈ (removed lib.files before after s id).candidates reference →
      ∀ (e : Engine), e.dependsOn id = true → ∀ report e',
        e.reload (removed lib.files before after s id) reference = (.ok report, e') →
        report.rebuilt = true) := by
  have hmem := mem_candidates_removed_iff before after hfiles hid
  refine ⟨locate?_eq_of_first hsources hbefore hid, ?_, fun hcandidate e hdepends report e' h => ?_⟩
  · rw [hmem]
    cases s with
    | memory name documents =>
      have hname : id = reference := (Source.of_locate?_memory hid).2
      exact iff_of_true (.inl hname) (.inl hname)
    | directory base =>
      rw [identityOf?_removed_iff hfiles hbefore hid hanchored]
  · have hpresets : id ∈ (Engine.withPresets e.registry
        (removed lib.files before after s id)).candidates reference := by
      rcases hmem.1 hcandidate with heq | hguess
      · exact mem_candidates_iff.2 (.inr (.inr heq))
      · exact mem_candidates_iff.2 (.inr (.inl hguess))
    exact Engine.rebuilt_of_mem_candidates hpresets hdepends h

/-- The second of three directories has the file `app.json`, and so does the third. -/
def stacked : Library where
  sources := [.memory "presets" [("shared", {})], .directory "missing", .directory "conf",
    .directory "shared"]
  files := ⟨["work"], [(["work"], .directory), (["work", "conf"], .directory),
    (["work", "conf", "app.json"], .file (some "\x7b\x7d")), (["work", "shared"], .directory),
    (["work", "shared", "app.json"], .file (some "\x7b\x7d"))]⟩

/-- That library without the file of the second directory. -/
def unstacked : Library :=
  removed stacked.files [.memory "presets" [("shared", {})], .directory "missing"]
    [.directory "shared"] (.directory "conf") "/work/conf/app.json"

/-- The reference then leads to the file of the third directory, but a reload by it still drops the
one of the second and builds the base again. -/
theorem reload_unstacked :
    unstacked.locate? "app.json" none = some "/work/shared/app.json" ∧
    "/work/conf/app.json" ∈ unstacked.candidates "app.json" ∧
    ∃ e report e', Engine.start "app.json" stacked (.ofManifests []) {} = .ok e ∧
      e.dependsOn "/work/conf/app.json" = true ∧
      e.reload unstacked "app.json" = (.ok report, e') ∧ report.rebuilt = true := by
  obtain ⟨-, hiff, hreload⟩ := @mem_candidates_of_removed stacked
    [.memory "presets" [("shared", {})], .directory "missing"] [.directory "shared"]
    (.directory "conf") "app.json" "/work/conf/app.json" ⟨by decide, by decide⟩ rfl (by decide)
    (by decide) (.inl (by decide))
  have hmem : "/work/conf/app.json" ∈ unstacked.candidates "app.json" :=
    hiff.2 (.inr (by decide))
  obtain ⟨e, report, e', hstart, hdepends, hrun⟩ : ∃ e report e',
      Engine.start "app.json" stacked (.ofManifests []) {} = .ok e ∧
      e.dependsOn "/work/conf/app.json" = true ∧
      e.reload unstacked "app.json" = (.ok report, e') := ⟨_, _, _, by rfl, by rfl, by rfl⟩
  have hrebuilt := hreload hmem e hdepends report e' hrun
  exact ⟨by decide, hmem, e, report, e', hstart, hdepends, hrun, hrebuilt⟩

/-- Two directories, of which the second has the file `base.json`. -/
def shadowed : Library where
  sources := [.directory "project", .directory "shared"]
  files := ⟨["work"], [(["work"], .directory), (["work", "project"], .directory),
    (["work", "shared"], .directory), (["work", "shared", "base.json"], .file (some "\x7b\x7d"))]⟩

/-- That library without the file. -/
def unshadowed : Library :=
  removed shadowed.files [.directory "project"] [] (.directory "shared") "/work/shared/base.json"

/-- The first directory guesses a file of its own that never was, so a reload by the reference that
found the file misses it: the engine goes on with a base that depends on it. -/
theorem reload_unshadowed :
    shadowed.files.WellFormed ∧
    shadowed.locate? "base.json" none = some "/work/shared/base.json" ∧
    unshadowed.candidates "base.json" = ["/work/project/base.json", "base.json"] ∧
    ∃ e e', Engine.start "base.json" shadowed (.ofManifests []) {} = .ok e ∧
      e.dependsOn "/work/shared/base.json" = true ∧
      e.reload unshadowed "base.json" = (.ok ⟨[], false, false, 0⟩, e') ∧
      e'.dependsOn "/work/shared/base.json" = true :=
  ⟨⟨by decide, by decide⟩, by decide, by decide, _, _, by rfl, by rfl, by rfl, by rfl⟩

end Library

end LintConfig
