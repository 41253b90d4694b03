import LintConfig.Proofs.Files.Path

/-!
# Paths seen from a directory

A relative path that is joined to a directory and seen from there again loses the pieces that do not
count at either end, and nothing else (`relativeTo?_join`).  A path that leads to a file has none at
its end, and so only those at its start are lost (`stripped_eq_self`).
-/

namespace LintConfig.Path

variable {root rel path p : String} {ps qs : List String}

/-! ### Joining what was split -/

theorem joinPieces_append_cons (a p : String) (ps : List String) :
    joinPieces ((a ++ p) :: ps) = a ++ joinPieces (p :: ps) := by
  cases ps with
  | nil => rfl
  | cons q qs => simp [joinPieces_cons, String.append_assoc]

theorem joinPieces_map_piecesOf (cs : List Char) :
    joinPieces ((piecesOf cs).map String.ofList) = String.ofList cs := by
  induction cs with
  | nil => rfl
  | cons c cs ih =>
    have hcons (ds : List Char) :
        String.ofList (c :: ds) = String.ofList [c] ++ String.ofList ds := by
      simp
    rw [piecesOf, hcons]
    split_ifs with hc
    · rw [List.map_cons, joinPieces_cons _ (by simpa using piecesOf_ne_nil cs), ih, hc]
      rfl
    · cases hps : piecesOf cs with
      | nil => exact absurd hps (piecesOf_ne_nil cs)
      | cons q qs =>
        rw [List.map_cons, hcons, joinPieces_append_cons, ← ih, hps, List.map_cons]

theorem joinPieces_pieces (path : String) : joinPieces (pieces path) = path := by
  rw [pieces, joinPieces_map_piecesOf]
  simp

theorem length_joinPieces_le (h : qs.Sublist ps) :
    (joinPieces qs).toList.length ≤ (joinPieces ps).toList.length := by
  induction h with
  | slnil => exact Nat.le_refl _
  | @cons qs ps p hsub ih =>
    refine Nat.le_trans ih ?_
    by_cases hps : ps = []
    · simp [hps, joinPieces]
    · simp [joinPieces_cons p hps]
      omega
  | @cons_cons qs ps p hsub ih =>
    by_cases hqs : qs = []
    · by_cases hps : ps = [] <;> simp [hqs, hps, joinPieces, joinPieces_cons]
    · have hps : ps ≠ [] := fun hps => hqs (List.sublist_nil.1 (hps ▸ hsub))
      simp [joinPieces_cons p hqs, joinPieces_cons p hps, ih]

/-! ### Cutting off a directory -/

/-- Pieces that do not count after the components make no difference before a path that is stripped
of them. -/
theorem afterComponents?_counted_append (ps qs : List String) :
    (afterComponents? (counted ps) (ps ++ qs)).map (List.dropWhile isIdle) =
      some (qs.dropWhile isIdle) := by
  induction ps with
  | nil => simp [counted, afterComponents?]
  | cons p ps ih =>
    cases hp : isIdle p with
    | false =>
      have hcounted : counted (p :: ps) = p :: counted ps := by simp [counted, hp]
      rw [hcounted, List.cons_append, afterComponents?, if_neg (by simp [hp]), if_pos rfl, ih]
    | true =>
      rw [counted_cons_of_idle hp, List.cons_append, ← ih]
      cases counted ps with
      | nil => simp [afterComponents?, hp]
      | cons c cs => rw [afterComponents?, if_pos hp]

/-- A path without the pieces that do not count at its start and at its end. -/
def stripped (path : String) : String :=
  joinPieces (trimEnd true ((pieces path).dropWhile isIdle))

theorem components_of_isAbsolute (h : isAbsolute path = true) :
    components path = counted (pieces path) := by
  obtain ⟨rest, rfl⟩ := exists_of_isAbsolute h
  rcases components_cases ("/" ++ rest) with hcounted | ⟨ps, hps, -⟩
  · exact hcounted
  · rw [pieces_slash] at hps
    exact absurd (List.cons.inj hps).1 (by decide)

theorem exists_join_eq (hroot : root ≠ "") (hrel : isAbsolute rel = false) : ∃ front,
    join root rel = front ++ "/" ++ rel ∧ counted (pieces front) = counted (pieces root) := by
  rw [join, if_neg (by simp [hrel])]
  split
  next h => exact absurd (String.toList_eq_nil_iff.1 (List.getLast?_eq_none_iff.1 h)) hroot
  next h =>
    obtain ⟨cs, hcs⟩ := List.getLast?_eq_some_iff.1 h
    have hfront : root = String.ofList cs ++ "/" ++ "" := String.toList_inj.1 (by simp [hcs])
    refine ⟨String.ofList cs, by rw [hfront]; simp, ?_⟩
    rw [hfront, pieces_append_slash, counted_append]
    exact (List.append_nil _).symm
  next => exact ⟨root, rfl, rfl⟩

theorem isAbsolute_join (hroot : isAbsolute root = true) (rel : String) :
    isAbsolute (join root rel) = true := by
  obtain ⟨rest, rfl⟩ := exists_of_isAbsolute hroot
  unfold join
  split_ifs with hrel
  · exact hrel
  · split <;> simp [isAbsolute] at *

/-- What is joined to a directory and seen from there is stripped. -/
theorem relativeTo?_join (hroot : isAbsolute root = true) (hrel : isAbsolute rel = false) :
    relativeTo? root (join root rel) = some (stripped rel) := by
  have hne : root ≠ "" := by
    rintro rfl
    cases hroot
  obtain ⟨front, hjoin, hcounted⟩ := exists_join_eq hne hrel
  obtain ⟨rest, hrest⟩ := exists_of_isAbsolute (isAbsolute_join hroot rel)
  obtain ⟨p, ps, hps⟩ := List.exists_cons_of_ne_nil (pieces_ne_nil front)
  have hpieces : pieces (join root rel) = p :: (ps ++ pieces rel) := by
    rw [hjoin, pieces_append_slash, hps, List.cons_append]
  obtain rfl : p = "" := by
    rw [hrest, pieces_slash] at hpieces
    exact (List.cons.inj hpieces).1.symm
  have hcomponents : components root = counted ps := by
    rw [components_of_isAbsolute hroot, ← hcounted, hps, counted_cons_of_idle rfl]
  have hafter := afterComponents?_counted_append ps (pieces rel)
  obtain ⟨after, hsome, hdrop⟩ := Option.map_eq_some_iff.1 hafter
  rw [relativeTo?, if_pos hroot, hpieces, hcomponents, List.drop_succ_cons, List.drop_zero, hsome,
    Option.map_some, hdrop, stripped]

/-! ### Paths that lead to a file -/

/-- A relative path that is not empty and ends in neither `/` nor `/.`. -/
structure ToFile (rel : String) : Prop where
  relative : isAbsolute rel = false
  nonempty : rel ≠ ""
  not_slash : ¬ ['/'] <:+ rel.toList
  not_slashDot : ¬ ['/', '.'] <:+ rel.toList

theorem stripped_cons_of_idle (h : isIdle p = true) (hpieces : pieces path = p :: pieces rel) :
    stripped path = stripped rel := by
  rw [stripped, hpieces, List.dropWhile_cons_of_pos h, stripped]

theorem length_stripped_le (path : String) :
    (stripped path).toList.length ≤ path.toList.length := by
  have hle := length_joinPieces_le
    ((trimEnd_sublist true _).trans (List.dropWhile_sublist isIdle (l := pieces path)))
  rwa [joinPieces_pieces] at hle

/-- A path that leads to a file and does not start with `./` starts with a piece that counts. -/
theorem ToFile.exists_pieces_eq_cons (h : ToFile path) (hdot : path ≠ ".")
    (hstart : ¬ ['.', '/'] <+: path.toList) : ∃ p ps, pieces path = p :: ps ∧ isIdle p = false := by
  obtain ⟨p, ps, hps, hp⟩ := Path.exists_pieces_eq_cons h.nonempty h.relative
  refine ⟨p, ps, hps, isIdle_eq_false_iff.2 ⟨hp, ?_⟩⟩
  rintro rfl
  have hjoin := joinPieces_pieces path
  by_cases hnil : ps = []
  · rw [hps, hnil] at hjoin
    exact hdot hjoin.symm
  · rw [hps, joinPieces_cons _ hnil] at hjoin
    exact hstart (by rw [← hjoin]; simp)

/-- A path that leads to a file ends with a piece that counts. -/
theorem ToFile.exists_pieces_eq_append (h : ToFile path) (hdot : path ≠ ".") :
    ∃ ps p, pieces path = ps ++ [p] ∧ isIdle p = false := by
  obtain ⟨ps, p, hps⟩ := (List.eq_nil_or_concat' (pieces path)).resolve_left (pieces_ne_nil path)
  refine ⟨ps, p, hps, isIdle_eq_false_iff.2 ?_⟩
  have hjoin := joinPieces_pieces path
  by_cases hnil : ps = []
  · rw [hps, hnil] at hjoin
    obtain rfl : p = path := hjoin
    exact ⟨h.nonempty, hdot⟩
  · rw [hps, joinPieces_append_singleton hnil] at hjoin
    constructor
    · rintro rfl
      exact h.not_slash (by rw [← hjoin]; simp)
    · rintro rfl
      exact h.not_slashDot (by rw [← hjoin]; simp)

/-- Nothing is stripped from a path that leads to a file and does not start with `./`. -/
theorem stripped_eq_self (h : ToFile path) (hdot : path ≠ ".")
    (hstart : ¬ ['.', '/'] <+: path.toList) : stripped path = path := by
  obtain ⟨p, ps, hfirst, hp⟩ := h.exists_pieces_eq_cons hdot hstart
  obtain ⟨qs, q, hlast, hq⟩ := h.exists_pieces_eq_append hdot
  have hdrop : (pieces path).dropWhile isIdle = pieces path := by
    rw [hfirst, List.dropWhile_cons_of_neg (by simp [hp])]
  rw [stripped, hdrop, hlast, trimEnd_append_singleton true qs hq, ← hlast, joinPieces_pieces]

end LintConfig.Path
