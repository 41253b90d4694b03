import LintConfig.Files.Tree
import LintConfig.Proofs.Files.Path
import Mathlib.Data.List.Induction

/-!
# Walks through file trees

A tree is well formed if its entries have proper names and stand in directories.  There a path that
leads to a file ends with the name of that file, and what comes before leads to its directory
(`WellFormed.exists_of_follow_file`).  Once a file is removed no walk ends there, and walks to
directories are as they were (`walk_of_walk_removeAt`, `walk_removeAt`); so the directory of the
file can still be followed, from which its identity is guessed
(`WellFormed.follow_parent_removeAt`).
-/

namespace LintConfig.Files.Tree

open LintConfig.Path

/-- Entries have proper names and stand in directories. -/
structure WellFormed (t : Tree) : Prop where
  names : ∀ e ∈ t.entries, ∀ name ∈ e.1, Proper name
  above : ∀ e ∈ t.entries, t.entryAt? e.1.dropLast = some .directory

variable {t : Tree} {p q : Place} {ps : List String} {e : Entry} {text : Option String}
  {path : String}

/-! ### Entries -/

theorem mem_of_entryAt? (h : t.entryAt? p = some e) (hp : p ≠ []) : (p, e) ∈ t.entries := by
  obtain ⟨name, p, rfl⟩ := List.exists_cons_of_ne_nil hp
  obtain ⟨f, hf, rfl⟩ := Option.map_eq_some_iff.1 h
  have hplace : f.1 = name :: p := by simpa using List.find?_some hf
  rw [← hplace]
  exact List.mem_of_find?_eq_some hf

theorem ne_nil_of_file (h : t.entryAt? p = some (.file text)) : p ≠ [] := by
  rintro rfl
  simp [entryAt?] at h

theorem WellFormed.proper (ht : t.WellFormed) (h : t.entryAt? p = some e) :
    ∀ name ∈ p, Proper name := by
  by_cases hp : p = []
  · simp [hp]
  · exact ht.names _ (mem_of_entryAt? h hp)

theorem WellFormed.entryAt?_dropLast (ht : t.WellFormed) (h : t.entryAt? p = some e) :
    t.entryAt? p.dropLast = some .directory := by
  by_cases hp : p = []
  · simp [hp, entryAt?]
  · exact ht.above _ (mem_of_entryAt? h hp)

theorem entryAt?_removeAt (hp : p ≠ []) (q : Place) :
    (t.removeAt p).entryAt? q = if q = p then none else t.entryAt? q := by
  cases q with
  | nil => rw [if_neg hp.symm]; rfl
  | cons name q =>
    simp only [entryAt?, removeAt, List.find?_filter]
    split_ifs with heq
    · rw [heq]
      simp
    · congr 2
      funext f
      by_cases hf : f.1 = name :: q
      · simp [hf, heq]
      · simp [hf]

/-! ### Walks -/

theorem entryAt?_of_walk (h : t.walk p ps = .ok (q, e)) : t.entryAt? q = some e := by
  fun_induction walk t p ps with
  | case1 p e' he => cases h; exact he
  | case2 p he => cases h
  | case3 p piece ps he => cases h
  | case4 p piece ps text he => cases h
  | case5 p piece ps he hidle ih => exact ih h
  | case6 p ps he hidle ih => exact ih h
  | case7 p piece ps he hidle hup ih => exact ih h

theorem entryAt?_of_walk_directory (h : t.walk p ps = .ok (q, .directory)) :
    t.entryAt? p = some .directory := by
  cases ps with
  | nil =>
    have hq := entryAt?_of_walk h
    rw [walk] at h
    split at h
    · obtain ⟨rfl, rfl⟩ := Prod.mk.inj (Except.ok.inj h)
      assumption
    · cases h
  | cons piece ps =>
    rw [walk] at h
    split at h
    · cases h
    · cases h
    · assumption

theorem walk_append (t : Tree) (p : Place) (ps qs : List String) :
    t.walk p (ps ++ qs) = (t.walk p ps).bind fun r => t.walk r.1 qs := by
  fun_induction walk t p ps with
  | case1 p e he => rfl
  | case2 p he => cases qs <;> simp [walk, he, Except.bind]
  | case3 p piece ps he => simp [walk, he, Except.bind]
  | case4 p piece ps text he => simp [walk, he, Except.bind]
  | case5 p piece ps he hidle ih => simp [walk, he, hidle, ih]
  | case6 p ps he hidle ih => simpa [walk, he, hidle] using ih
  | case7 p piece ps he hidle hup ih => simpa [walk, he, hidle, hup] using ih

theorem walk_name (hp : t.entryAt? p = some .directory) {name : String} (hname : Proper name) :
    t.walk p [name] = t.walk (p ++ [name]) [] := by
  simp [walk, hp, hname.1, hname.2.1]

/-- Pieces that do not count make no difference to where a directory is. -/
theorem walk_counted (t : Tree) (p : Place) (ps : List String) (q : Place) :
    t.walk p (counted ps) = .ok (q, .directory) ↔ t.walk p ps = .ok (q, .directory) := by
  fun_induction walk t p ps with
  | case1 p e he => simp [counted, walk, he]
  | case2 p he => simp [counted, walk, he]
  | case3 p piece ps he =>
    refine iff_of_false (fun h => ?_) (by simp)
    simp [entryAt?_of_walk_directory h] at he
  | case4 p piece ps text he =>
    refine iff_of_false (fun h => ?_) (by simp)
    simp [entryAt?_of_walk_directory h] at he
  | case5 p piece ps he hidle ih => rw [counted_cons_of_idle hidle, ih]
  | case6 p ps he hidle ih => simpa [counted, walk, he, hidle] using ih
  | case7 p piece ps he hidle hup ih => simpa [counted, walk, he, hidle, hup] using ih

/-- A walk to a file ends with its name, from its directory. -/
theorem WellFormed.walk_file (ht : t.WellFormed) {name : String}
    (h : t.walk p (ps ++ [name]) = .ok (q, .file text)) :
    isIdle name = false ∧ name ≠ ".." ∧
      t.walk p ps = .ok (q.dropLast, .directory) ∧ q = q.dropLast ++ [name] := by
  rw [walk_append] at h
  rcases hfront : t.walk p ps with f | ⟨r, e⟩
  · simp [hfront, Except.bind] at h
  · have hlast : t.walk r [name] = .ok (q, .file text) := by simpa [hfront, Except.bind] using h
    have hq := entryAt?_of_walk hlast
    rw [walk] at hlast
    split at hlast
    · cases hlast
    · cases hlast
    next hr =>
      have hdirectory : e = .directory := by
        have he := entryAt?_of_walk hfront
        rw [hr] at he
        exact (Option.some.inj he).symm
      -- an idle piece stays in a directory and `..` leads to one, so only a name ends at a file
      split_ifs at hlast with hidle hup
      · simp [walk, hr] at hlast
      · simp [walk, ht.entryAt?_dropLast hr] at hlast
      · have hplace : q = r ++ [name] := by
          rw [walk] at hlast
          split at hlast <;> simp_all
        subst hplace
        simp [hdirectory, hidle, hup]

/-- The components of an entry lead there from the root. -/
theorem WellFormed.walk_place (ht : t.WellFormed) (h : t.entryAt? p = some e) :
    t.walk [] p = .ok (p, e) := by
  induction p using List.reverseRecOn generalizing e with
  | nil => simp [walk, h]
  | append_singleton p name ih =>
    have hp : t.entryAt? p = some .directory := by simpa using ht.entryAt?_dropLast h
    rw [walk_append, ih hp]
    change t.walk p [name] = _
    rw [walk_name hp (ht.proper h name (by simp)), walk, h]

/-! ### Paths of places -/

theorem follow_eq (h : path ≠ "") : t.follow path = t.walk (t.start path) (pieces path) := by
  rw [follow, if_neg (by simpa using h)]

theorem start_eq {a b : String} (t : Tree) (h : isAbsolute a = isAbsolute b) :
    t.start a = t.start b := by
  rw [start, start, h]

theorem isAbsolute_pathOf (p : Place) : isAbsolute (pathOf p) = true := isAbsolute_slash _

theorem pieces_pathOf (hp : p ≠ []) (hnames : ∀ name ∈ p, Proper name) :
    pieces (pathOf p) = "" :: p := by
  rw [pathOf, pieces_slash, pieces_joinPieces hp fun name hname => (hnames name hname).2.2]

/-- The path of an entry leads to it. -/
theorem WellFormed.follow_pathOf (ht : t.WellFormed) (h : t.entryAt? p = some e) :
    t.follow (pathOf p) = .ok (p, e) := by
  have hwalk := ht.walk_place h
  rw [follow_eq (by simp [pathOf]), start, isAbsolute_pathOf, if_pos rfl]
  by_cases hp : p = []
  · subst hp
    simpa [pathOf, joinPieces, pieces, piecesOf, walk, isIdle, entryAt?] using hwalk
  · rw [pieces_pathOf hp (ht.proper h)]
    simpa [walk, isIdle, entryAt?] using hwalk

theorem pathOf_inj (hp : ∀ name ∈ p, Proper name) (hq : ∀ name ∈ q, Proper name)
    (h : pathOf p = pathOf q) : p = q := by
  have hroot {r : Place} (hr : ∀ name ∈ r, Proper name) (heq : pathOf r = pathOf []) : r = [] := by
    by_contra hne
    have hpieces := pieces_pathOf hne hr
    rw [heq] at hpieces
    obtain rfl : r = [""] := (List.cons.inj hpieces).2.symm
    exact absurd (hr "" (by simp)) (by decide)
  by_cases hpn : p = []
  · subst hpn
    exact (hroot hq h.symm).symm
  · by_cases hqn : q = []
    · subst hqn
      exact hroot hp h
    · have hpieces := pieces_pathOf hpn hp
      rw [h, pieces_pathOf hqn hq] at hpieces
      exact (List.cons.inj hpieces).2.symm

theorem exists_pathOf_eq_append (p : Place) (name : String) :
    ∃ front, pathOf (p ++ [name]) = front ++ name := by
  by_cases hp : p = []
  · exact ⟨"/", by rw [hp]; rfl⟩
  · refine ⟨"/" ++ joinPieces p ++ "/", ?_⟩
    rw [pathOf, joinPieces_append_singleton hp]
    simp only [String.append_assoc]

/-- A name joined to the path of a directory gives the path of the entry. -/
theorem join_pathOf (hp : ∀ n ∈ p, Proper n) {name : String} (hname : Proper name) :
    join (pathOf p) name = pathOf (p ++ [name]) := by
  have hrelative : ¬ isAbsolute name = true := by
    simp [isAbsolute_eq_false_of_unbroken hname.2.2]
  rcases List.eq_nil_or_concat' p with rfl | ⟨q, n, rfl⟩
  · simp [join, hrelative, pathOf, joinPieces]
  · have hn := hp n (by simp)
    have hne : n.toList ≠ [] := mt String.toList_eq_nil_iff.1 (isIdle_eq_false_iff.1 hn.1).1
    have hlast : (pathOf (q ++ [n])).toList.getLast? = n.toList.getLast? := by
      obtain ⟨front, hfront⟩ := exists_pathOf_eq_append q n
      rw [hfront, String.toList_append, List.getLast?_append_of_ne_nil _ hne]
    unfold join
    rw [if_neg hrelative, hlast]
    split
    next h => exact absurd (List.getLast?_eq_none_iff.1 h) hne
    next h => exact absurd (List.mem_of_getLast? h) hn.2.2
    next =>
      have hcons : q ++ [n] ≠ [] := by simp
      rw [pathOf, pathOf, joinPieces_append_singleton hcons]
      simp only [String.append_assoc]

theorem entryAt?_of_follow (h : t.follow path = .ok (p, e)) : t.entryAt? p = some e := by
  by_cases hne : path = ""
  · subst hne
    simp [follow] at h
  · rw [follow_eq hne] at h
    exact entryAt?_of_walk h

/-- The parent of a path that ends with a name leads where the pieces before the name do. -/
theorem exists_parent?_follow {name : String} (hpath : pieces path = ps ++ [name])
    (hname : isIdle name = false) (hps : ps ≠ []) :
    ∃ parent, parent? path = some parent ∧ ∀ (t : Tree) (q : Place),
      t.follow parent = .ok (q, .directory) ↔ t.walk (t.start path) ps = .ok (q, .directory) := by
  obtain ⟨parent, hparent, hne, habs, hcounted⟩ := exists_parent?_eq hpath hname hps
  refine ⟨parent, hparent, fun t q => ?_⟩
  rw [follow_eq hne, start_eq t habs, ← walk_counted, hcounted, walk_counted]

/-- A path that leads to a file ends with its name, and what comes before leads to its
directory. -/
theorem WellFormed.exists_of_follow_file (ht : t.WellFormed)
    (h : t.follow path = .ok (p, .file text)) :
    ∃ ps name, pieces path = ps ++ [name] ∧ Proper name ∧ p = p.dropLast ++ [name] ∧
      t.walk (t.start path) ps = .ok (p.dropLast, .directory) := by
  have hne : path ≠ "" := by
    rintro rfl
    simp [follow] at h
  rw [follow_eq hne] at h
  have hpieces := (List.dropLast_concat_getLast (pieces_ne_nil path)).symm
  rw [hpieces] at h
  obtain ⟨hidle, hup, hwalk, hp⟩ := ht.walk_file h
  exact ⟨_, _, hpieces, ⟨hidle, hup, unbroken_of_mem_pieces (List.getLast_mem _)⟩, hp, hwalk⟩

/-! ### Removing a file -/

theorem walk_of_walk_removeAt (hp : p ≠ []) {r : Place}
    (h : (t.removeAt p).walk r ps = .ok (q, e)) : t.walk r ps = .ok (q, e) := by
  fun_induction walk (t.removeAt p) r ps with
  | case1 r e' he => 
    rw [entryAt?_removeAt hp] at he
    split_ifs at he
    simpa [walk, he] using h
  | case2 r he => cases h
  | case3 r piece ps he => cases h
  | case4 r piece ps text he => cases h
  | case5 r piece ps he hidle ih =>
    rw [entryAt?_removeAt hp] at he
    split_ifs at he
    simpa [walk, he, hidle] using ih h
  | case6 r ps he hidle ih =>
    rw [entryAt?_removeAt hp] at he
    split_ifs at he
    simpa [walk, he, hidle] using ih h
  | case7 r piece ps he hidle hup ih =>
    rw [entryAt?_removeAt hp] at he
    split_ifs at he
    simpa [walk, he, hidle, hup] using ih h

/-- A walk to a directory passes no file. -/
theorem walk_removeAt (hfile : t.entryAt? p = some (.file text)) {r : Place}
    (h : t.walk r ps = .ok (q, .directory)) :
    (t.removeAt p).walk r ps = .ok (q, .directory) := by
  have hkeep {r : Place} (hr : t.entryAt? r = some .directory) :
      (t.removeAt p).entryAt? r = some .directory := by
    rw [entryAt?_removeAt (ne_nil_of_file hfile), if_neg, hr]
    rintro rfl
    simp [hfile] at hr
  fun_induction walk t r ps with
  | case1 r e' he =>
    cases h
    simp [walk, hkeep he]
  | case2 r he => cases h
  | case3 r piece ps he => cases h
  | case4 r piece ps text he => cases h
  | case5 r piece ps he hidle ih => simpa [walk, hkeep he, hidle] using ih h
  | case6 r ps he hidle ih => simpa [walk, hkeep he, hidle] using ih h
  | case7 r piece ps he hidle hup ih => simpa [walk, hkeep he, hidle, hup] using ih h

/-- The path to an entry of a directory that its parent leads to. -/
theorem follow_of_walk {name : String} (hpath : pieces path = ps ++ [name]) (hname : Proper name)
    (hwalk : t.walk (t.start path) ps = .ok (p, .directory))
    (he : t.entryAt? (p ++ [name]) = some e) : t.follow path = .ok (p ++ [name], e) := by
  have hne : path ≠ "" := by
    rintro rfl
    have hlast := congrArg List.getLast? hpath
    rw [List.getLast?_append, List.getLast?_singleton, Option.some_or] at hlast
    obtain rfl : name = "" := Option.some.inj hlast.symm
    exact absurd hname (by decide)
  have hlast : t.walk p [name] = .ok (p ++ [name], e) := by
    rw [walk_name (entryAt?_of_walk hwalk) hname, walk, he]
  rw [follow_eq hne, hpath, walk_append, hwalk]
  exact hlast

theorem follow_of_follow_removeAt (hp : p ≠ [])
    (h : (t.removeAt p).follow path = .ok (q, e)) : t.follow path = .ok (q, e) ∧ q ≠ p := by
  by_cases hne : path = ""
  · subst hne
    simp [follow] at h
  · rw [follow_eq hne] at h ⊢
    refine ⟨walk_of_walk_removeAt hp h, ?_⟩
    rintro rfl
    have hentry := entryAt?_of_walk h
    simp [entryAt?_removeAt hp] at hentry

/-- What a file is removed by is the path of its place. -/
theorem WellFormed.remove_pathOf (ht : t.WellFormed) (h : t.entryAt? p = some (.file text)) :
    t.remove (pathOf p) = .ok (t.removeAt p) := by
  rw [remove, ht.follow_pathOf h]

/-- The path to a file that is removed still ends with its name, and its parent still leads to the
directory. -/
theorem WellFormed.follow_parent_removeAt (ht : t.WellFormed)
    (h : t.follow path = .ok (p, .file text)) (hslash : '/' ∈ path.toList) :
    ∃ parent name, parent? path = some parent ∧ fileName? path = some name ∧ Proper name ∧
      p = p.dropLast ++ [name] ∧ (t.removeAt p).follow parent = .ok (p.dropLast, .directory) := by
  obtain ⟨ps, name, hpieces, hname, hp, hwalk⟩ := ht.exists_of_follow_file h
  obtain ⟨parent, hparent, hfollow⟩ :=
    exists_parent?_follow hpieces hname.1 (ne_nil_of_slash_mem hslash hpieces)
  have hfile : t.entryAt? p = some (.file text) := entryAt?_of_follow h
  exact ⟨parent, name, hparent, fileName?_eq hpieces hname, hname, hp,
    (hfollow (t.removeAt p) p.dropLast).2 (walk_removeAt hfile hwalk)⟩

end LintConfig.Files.Tree
