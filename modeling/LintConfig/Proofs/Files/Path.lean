import LintConfig.Files.Path
import Mathlib.Data.List.Basic

/-!
# Pieces of paths

A path is the list of its pieces between slashes, of which those that are empty or a single dot do
not count.  Pieces without slashes that are joined are the pieces of the path
(`pieces_joinPieces`), and what is joined to a directory keeps its last piece
(`exists_pieces_join`).  Where that piece is a name, it is the name of the file (`fileName?_eq`),
and the parent of the path leads through the other components (`exists_parent?_eq`).
-/

namespace LintConfig.Path

/-! ### Splitting and joining -/

theorem piecesOf_ne_nil (cs : List Char) : piecesOf cs ≠ [] := by
  cases cs with
  | nil => simp [piecesOf]
  | cons c cs =>
    rw [piecesOf]
    split_ifs
    · simp
    · cases piecesOf cs <;> simp

theorem notMem_of_mem_piecesOf {cs p : List Char} (h : p ∈ piecesOf cs) : '/' ∉ p := by
  induction cs generalizing p with
  | nil =>
    obtain rfl : p = [] := by simpa [piecesOf] using h
    simp
  | cons c cs ih =>
    rw [piecesOf] at h
    split_ifs at h with hc
    · rcases List.mem_cons.1 h with rfl | h
      · simp
      · exact ih h
    · cases hcs : piecesOf cs with
      | nil => exact absurd hcs (piecesOf_ne_nil cs)
      | cons q qs =>
        rw [hcs] at h ih
        rcases List.mem_cons.1 h with rfl | h
        · rw [List.mem_cons, not_or]
          exact ⟨fun heq => hc heq.symm, ih List.mem_cons_self⟩
        · exact ih (List.mem_cons_of_mem q h)

theorem piecesOf_append_slash (cs ds : List Char) :
    piecesOf (cs ++ '/' :: ds) = piecesOf cs ++ piecesOf ds := by
  induction cs with
  | nil => simp [piecesOf]
  | cons c cs ih =>
    rw [List.cons_append, piecesOf, piecesOf, ih]
    split_ifs
    · rfl
    · cases hcs : piecesOf cs with
      | nil => exact absurd hcs (piecesOf_ne_nil cs)
      | cons q qs => rfl

theorem piecesOf_of_notMem {cs : List Char} (h : '/' ∉ cs) : piecesOf cs = [cs] := by
  induction cs with
  | nil => rfl
  | cons c cs ih =>
    rw [List.mem_cons, not_or] at h
    rw [piecesOf, if_neg (Ne.symm h.1), ih h.2]

/-- A piece of a path has no slash. -/
def Unbroken (piece : String) : Prop := '/' ∉ piece.toList

theorem pieces_ne_nil (path : String) : pieces path ≠ [] := by
  simpa [pieces] using piecesOf_ne_nil path.toList

theorem unbroken_of_mem_pieces {path piece : String} (h : piece ∈ pieces path) :
    Unbroken piece := by
  obtain ⟨cs, hcs, rfl⟩ := List.mem_map.1 h
  simpa [Unbroken] using notMem_of_mem_piecesOf hcs

theorem pieces_append_slash (a b : String) : pieces (a ++ "/" ++ b) = pieces a ++ pieces b := by
  have h : (a ++ "/" ++ b).toList = a.toList ++ '/' :: b.toList := by simp
  rw [pieces, h, piecesOf_append_slash, List.map_append]
  rfl

theorem pieces_of_unbroken {piece : String} (h : Unbroken piece) : pieces piece = [piece] := by
  rw [pieces, piecesOf_of_notMem h]
  simp

theorem joinPieces_cons (p : String) {ps : List String} (h : ps ≠ []) :
    joinPieces (p :: ps) = p ++ "/" ++ joinPieces ps := by
  cases ps with
  | nil => exact absurd rfl h
  | cons q qs => rfl

theorem joinPieces_append_singleton {ps : List String} (h : ps ≠ []) (name : String) :
    joinPieces (ps ++ [name]) = joinPieces ps ++ "/" ++ name := by
  induction ps with
  | nil => exact absurd rfl h
  | cons p ps ih =>
    cases ps with
    | nil => rfl
    | cons q qs =>
      rw [List.cons_append, joinPieces_cons p (by simp), ih (by simp), joinPieces_cons p (by simp)]
      simp [String.append_assoc]

theorem pieces_joinPieces {ps : List String} (h : ps ≠ []) (hps : ∀ p ∈ ps, Unbroken p) :
    pieces (joinPieces ps) = ps := by
  induction ps with
  | nil => exact absurd rfl h
  | cons p ps ih =>
    have hp := pieces_of_unbroken (hps p List.mem_cons_self)
    by_cases hnil : ps = []
    · rw [hnil]
      exact hp
    · rw [joinPieces_cons p hnil, pieces_append_slash, hp,
        ih hnil fun q hq => hps q (List.mem_cons_of_mem p hq)]
      rfl

/-! ### First pieces -/

theorem isAbsolute_slash (rest : String) : isAbsolute ("/" ++ rest) = true := by
  simp [isAbsolute]

theorem exists_of_isAbsolute {path : String} (h : isAbsolute path = true) :
    ∃ rest, path = "/" ++ rest := by
  rw [isAbsolute, beq_iff_eq] at h
  obtain ⟨cs, hcs⟩ := List.head?_eq_some_iff.1 h
  exact ⟨String.ofList cs, String.toList_inj.1 (by simp [hcs])⟩

theorem pieces_slash (rest : String) : pieces ("/" ++ rest) = "" :: pieces rest := by
  have h := pieces_append_slash "" rest
  rw [String.empty_append] at h
  rw [h]
  rfl

/-- A relative path starts with a piece that is not empty. -/
theorem exists_pieces_eq_cons {path : String} (hempty : path ≠ "")
    (hrelative : isAbsolute path = false) : ∃ p ps, pieces path = p :: ps ∧ p ≠ "" := by
  cases hcs : path.toList with
  | nil => exact absurd (String.toList_eq_nil_iff.1 hcs) hempty
  | cons c cs =>
    have hc : c ≠ '/' := by
      rintro rfl
      simp [isAbsolute, hcs] at hrelative
    cases hps : piecesOf cs with
    | nil => exact absurd hps (piecesOf_ne_nil cs)
    | cons q qs =>
      refine ⟨String.ofList (c :: q), qs.map String.ofList, ?_, by simp⟩
      simp [pieces, hcs, piecesOf, hc, hps]

theorem isAbsolute_eq_false_of_unbroken {piece : String} (h : Unbroken piece) :
    isAbsolute piece = false := by
  rw [isAbsolute, beq_eq_false_iff_ne]
  exact fun hhead => h (List.mem_of_head? hhead)

theorem isAbsolute_joinPieces {p : String} (hp : Unbroken p) (hempty : p ≠ "") (ps : List String) :
    isAbsolute (joinPieces (p :: ps)) = false := by
  by_cases hnil : ps = []
  · rw [hnil]
    exact isAbsolute_eq_false_of_unbroken hp
  · have hne : p.toList ≠ [] := mt String.toList_eq_nil_iff.1 hempty
    have hhead := isAbsolute_eq_false_of_unbroken hp
    rw [joinPieces_cons p hnil]
    simpa [isAbsolute, List.head?_append_of_ne_nil _ hne] using hhead

/-- The pieces of a path end with those of what it was joined with. -/
theorem exists_pieces_join (base child : String) :
    ∃ front, pieces (join base child) = front ++ pieces child := by
  unfold join
  split_ifs
  · exact ⟨[], rfl⟩
  · split
    · exact ⟨[], rfl⟩
    next h =>
      obtain ⟨cs, hcs⟩ := List.getLast?_eq_some_iff.1 h
      have hbase : base = String.ofList cs ++ "/" := String.toList_inj.1 (by simp [hcs])
      exact ⟨pieces (String.ofList cs), by rw [hbase, pieces_append_slash]⟩
    · exact ⟨pieces base, pieces_append_slash base child⟩

/-- Where something is joined to a directory that is named, there is a slash. -/
theorem slash_mem_join {base child : String} (h : base ≠ "" ∨ '/' ∈ child.toList) :
    '/' ∈ (join base child).toList := by
  unfold join
  split_ifs with habs
  · obtain ⟨rest, rfl⟩ := exists_of_isAbsolute habs
    simp
  · split
    next hnil =>
      have hbase : base = "" := String.toList_eq_nil_iff.1 (List.getLast?_eq_none_iff.1 hnil)
      exact h.resolve_left fun hne => hne hbase
    next hlast => simp [List.mem_of_getLast? hlast]
    next => simp

/-! ### Last pieces -/

theorem isIdle_eq_false_iff {piece : String} :
    isIdle piece = false ↔ piece ≠ "" ∧ piece ≠ "." := by
  simp [isIdle]

/-- A name that an entry of a directory can have. -/
def Proper (name : String) : Prop := isIdle name = false ∧ name ≠ ".." ∧ Unbroken name

instance (piece : String) : Decidable (Unbroken piece) := inferInstanceAs (Decidable (_ ∉ _))

instance (name : String) : Decidable (Proper name) := inferInstanceAs (Decidable (_ ∧ _ ∧ _))

/-- The pieces that count. -/
def counted (ps : List String) : List String := ps.filter fun p => !isIdle p

theorem counted_append (ps qs : List String) : counted (ps ++ qs) = counted ps ++ counted qs :=
  List.filter_append ..

theorem counted_cons_of_idle {p : String} (h : isIdle p = true) (ps : List String) :
    counted (p :: ps) = counted ps := by
  simp [counted, h]

theorem counted_dropWhile (ps : List String) : counted (ps.dropWhile isIdle) = counted ps := by
  induction ps with
  | nil => rfl
  | cons p ps ih =>
    cases hp : isIdle p with
    | false => rw [List.dropWhile_cons_of_neg (by simp [hp])]
    | true => rw [List.dropWhile_cons_of_pos hp, ih, counted_cons_of_idle hp]

theorem counted_reverse (ps : List String) : counted ps.reverse = (counted ps).reverse :=
  List.filter_reverse ..

theorem counted_trimEnd (absolute : Bool) (ps : List String) :
    counted (trimEnd absolute ps) = counted ps := by
  have hback (qs : List String) : counted (qs.reverse.dropWhile isIdle).reverse = counted qs := by
    rw [counted_reverse, counted_dropWhile, counted_reverse, List.reverse_reverse]
  cases ps with
  | nil => rfl
  | cons p ps =>
    rw [trimEnd]
    split_ifs
    · exact hback (p :: ps)
    · have h : counted [p] ++ counted (ps.reverse.dropWhile isIdle).reverse =
          counted [p] ++ counted ps := by rw [hback]
      rwa [← counted_append, ← counted_append] at h

/-- Nothing is trimmed from pieces that end with one that counts. -/
theorem trimEnd_append_singleton (absolute : Bool) (ps : List String) {name : String}
    (h : isIdle name = false) : trimEnd absolute (ps ++ [name]) = ps ++ [name] := by
  cases ps with
  | nil =>
    have hname := (isIdle_eq_false_iff.1 h).2
    simp [trimEnd, hname, h]
  | cons p ps =>
    rw [List.cons_append, trimEnd]
    split_ifs <;> simp [h]

theorem trimEnd_sublist (absolute : Bool) (ps : List String) :
    (trimEnd absolute ps).Sublist ps := by
  have hback (qs : List String) : (qs.reverse.dropWhile isIdle).reverse.Sublist qs :=
    List.reverse_sublist.1 (by simpa using List.dropWhile_sublist isIdle)
  cases ps with
  | nil => exact .slnil
  | cons p ps =>
    rw [trimEnd]
    split_ifs
    · exact hback (p :: ps)
    · exact (hback ps).cons_cons p

/-- A first piece that is not empty stays. -/
theorem exists_trimEnd_eq_cons {p : String} (h : p ≠ "") (ps : List String) :
    ∃ qs, trimEnd false (p :: ps) = p :: qs := by
  rw [trimEnd]
  split_ifs with hdot
  · have hp : isIdle p = false := isIdle_eq_false_iff.2 ⟨h, by simpa using hdot⟩
    rw [List.reverse_cons, List.dropWhile_append]
    split_ifs <;> simp [hp]
  · exact ⟨_, rfl⟩

theorem counted_pieces_joinPieces {ps : List String} (h : ∀ p ∈ ps, Unbroken p) :
    counted (pieces (joinPieces ps)) = counted ps := by
  by_cases hnil : ps = []
  · rw [hnil]
    rfl
  · rw [pieces_joinPieces hnil h]

theorem components_cases (path : String) : components path = counted (pieces path) ∨
    ∃ ps, pieces path = "." :: ps ∧ components path = "." :: counted ps := by
  unfold components
  split
  next ps h => exact .inr ⟨ps, h, rfl⟩
  next => exact .inl rfl

section Last

variable {path name : String} {ps : List String}

/-- What is joined to one directory ends with the same piece when it is joined to another. -/
theorem exists_pieces_join_eq {base child : String}
    (h : pieces (join base child) = ps ++ [name]) (other : String) :
    ∃ qs, pieces (join other child) = qs ++ [name] := by
  obtain ⟨front, hfront⟩ := exists_pieces_join base child
  obtain ⟨front', hfront'⟩ := exists_pieces_join other child
  obtain ⟨qs, last, hchild⟩ :=
    (List.eq_nil_or_concat' (pieces child)).resolve_left (pieces_ne_nil child)
  rw [h, hchild, ← List.append_assoc] at hfront
  obtain rfl : name = last := by simpa using List.append_inj_right' hfront rfl
  exact ⟨front' ++ qs, by rw [hfront', hchild, List.append_assoc]⟩

/-- The name that a path ends with is that of its file. -/
theorem fileName?_eq (hpath : pieces path = ps ++ [name]) (hname : Proper name) :
    fileName? path = some name := by
  have hlast (qs : List String) : (counted (qs ++ [name])).getLast? = some name := by
    rw [counted_append]
    simp [counted, hname.1]
  have hcomponents : (components path).getLast? = some name := by
    rcases components_cases path with h | ⟨qs, hqs, h⟩
    · rw [h, hpath, hlast]
    · rw [hpath] at hqs
      cases ps with
      | nil => exact absurd (List.cons.inj hqs).1 (isIdle_eq_false_iff.1 hname.1).2
      | cons p ps =>
        obtain rfl : ps ++ [name] = qs := (List.cons.inj hqs).2
        rw [h, List.getLast?_cons, hlast, Option.getD_some]
  unfold fileName?
  rw [hcomponents]
  split
  next h => exact absurd (Option.some.inj h) (isIdle_eq_false_iff.1 hname.1).2
  next h => exact absurd (Option.some.inj h) hname.2.1
  next => rfl

theorem proper_of_fileName? (h : fileName? path = some name) : Proper name := by
  have hname : (components path).getLast? = some name ∧ name ≠ "." ∧ name ≠ ".." := by
    unfold fileName? at h
    split at h
    next => cases h
    next => cases h
    next hdot hup => exact ⟨h, fun heq => hdot (heq ▸ h), fun heq => hup (heq ▸ h)⟩
  obtain ⟨hlast, hdot, hup⟩ := hname
  have hmem : name ∈ counted (pieces path) := by
    have hmem := List.mem_of_getLast? hlast
    rcases components_cases path with hc | ⟨ps, hps, hc⟩
    · rwa [hc] at hmem
    · rw [hc] at hmem
      rw [hps, counted_cons_of_idle (by decide)]
      exact (List.mem_cons.1 hmem).resolve_left hdot
  obtain ⟨hpiece, hcounts⟩ := List.mem_filter.1 hmem
  exact ⟨by simpa using hcounts, hup, unbroken_of_mem_pieces hpiece⟩

/-- The parent of a path that ends with a name leads through the components before that name. -/
theorem exists_parent?_eq (hpath : pieces path = ps ++ [name]) (hname : isIdle name = false)
    (hps : ps ≠ []) : ∃ parent, parent? path = some parent ∧ parent ≠ "" ∧
      isAbsolute parent = isAbsolute path ∧ counted (pieces parent) = counted ps := by
  have hunbroken : ∀ p ∈ ps, Unbroken p := fun p hp =>
    unbroken_of_mem_pieces (hpath ▸ List.mem_append_left _ hp)
  obtain ⟨p, ps, rfl⟩ := List.exists_cons_of_ne_nil hps
  cases habs : isAbsolute path with
  | true =>
    obtain ⟨rest, rfl⟩ := exists_of_isAbsolute habs
    rw [pieces_slash] at hpath
    obtain ⟨rfl, hrest⟩ := List.cons.inj hpath
    refine ⟨"/" ++ joinPieces (trimEnd true ps), ?_, by simp, isAbsolute_slash _, ?_⟩
    · simp [parent?, body, habs, pieces_slash, hrest, trimEnd_append_singleton true ps hname]
    · rw [pieces_slash, counted_cons_of_idle (by decide), counted_cons_of_idle (by decide),
        counted_pieces_joinPieces, counted_trimEnd]
      exact fun q hq => hunbroken q (List.mem_cons_of_mem _ ((trimEnd_sublist true ps).mem hq))
  | false =>
    have hempty : path ≠ "" := by
      rintro rfl
      simp [pieces, piecesOf] at hpath
    obtain ⟨q, qs, hqs, hq⟩ := exists_pieces_eq_cons hempty habs
    obtain ⟨rfl, -⟩ := List.cons.inj (hqs.symm.trans hpath)
    obtain ⟨rs, hrs⟩ := exists_trimEnd_eq_cons hq ps
    have hrs' : ∀ r ∈ q :: rs, Unbroken r := fun r hr =>
      hunbroken r ((trimEnd_sublist false (q :: ps)).mem (hrs ▸ hr))
    have hpieces := pieces_joinPieces (List.cons_ne_nil q rs) hrs'
    refine ⟨joinPieces (q :: rs), ?_, ?_, isAbsolute_joinPieces (hrs' q (by simp)) hq rs, ?_⟩
    · have hbody : body path = q :: ps ++ [name] := by
        rw [body, habs, hpath]
        exact trimEnd_append_singleton false (q :: ps) hname
      simp [parent?, habs, hbody, hrs]
    · intro h
      rw [h] at hpieces
      exact hq (List.cons.inj hpieces).1.symm
    · rw [hpieces, ← hrs, counted_trimEnd]

theorem parent?_of_singleton (hpath : pieces path = [name]) (hname : isIdle name = false) :
    parent? path = some "" := by
  have habs : isAbsolute path = false := by
    by_contra habs
    obtain ⟨rest, rfl⟩ := exists_of_isAbsolute (by simpa using habs)
    rw [pieces_slash] at hpath
    exact pieces_ne_nil rest (List.cons.inj hpath).2
  have hbody : body path = [name] := by
    rw [body, habs, hpath]
    exact trimEnd_append_singleton false [] hname
  simp [parent?, habs, hbody, trimEnd, joinPieces]

theorem ne_nil_of_slash_mem (hslash : '/' ∈ path.toList) (hpath : pieces path = ps ++ [name]) :
    ps ≠ [] := by
  rintro rfl
  obtain ⟨cs, ds, hcs⟩ := List.append_of_mem hslash
  rw [pieces, hcs, piecesOf_append_slash] at hpath
  have hlength := congrArg List.length hpath
  have hfront := List.length_pos_of_ne_nil (piecesOf_ne_nil cs)
  have hback := List.length_pos_of_ne_nil (piecesOf_ne_nil ds)
  simp only [List.length_map, List.length_append, List.nil_append, List.length_singleton]
    at hlength
  omega

end Last

end LintConfig.Path
