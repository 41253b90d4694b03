import LintConfig.Proofs.Files.Tree

/-!
# Changes of file trees

Every change keeps a tree well formed.  An entry is put only into a directory and under a proper
name (`WellFormed.of_target`) and never in place of a directory, and only files are removed.
-/

namespace LintConfig.Files.Tree

open LintConfig.Path

variable {t u : Tree} {p : Place} {e : Entry} {path : String} {text : Option String}

theorem entryAt?_setAt (hp : p ≠ []) (e : Entry) (q : Place) :
    (t.setAt p e).entryAt? q = if q = p then some e else t.entryAt? q := by
  cases q with
  | nil => rw [if_neg hp.symm]; rfl
  | cons name q =>
    have hrest := @entryAt?_removeAt t p hp (name :: q)
    simp only [entryAt?, setAt, removeAt, List.find?_cons] at hrest ⊢
    split_ifs at hrest ⊢ with heq
    · simp [heq]
    · have hne : (p == name :: q) = false := by simpa using Ne.symm heq
      simpa [hne] using hrest

theorem WellFormed.setAt (ht : t.WellFormed) (hnames : ∀ name ∈ p, Proper name)
    (habove : t.entryAt? p.dropLast = some .directory) (hfree : t.entryAt? p ≠ some .directory)
    (e : Entry) : (t.setAt p e).WellFormed := by
  have hp : p ≠ [] := by
    rintro rfl
    exact hfree rfl
  have hkeep {q : Place} (hq : t.entryAt? q = some .directory) :
      (t.setAt p e).entryAt? q = some .directory := by
    rw [entryAt?_setAt hp, if_neg, hq]
    rintro rfl
    exact hfree hq
  constructor
  · intro f hf
    rcases List.mem_cons.1 hf with rfl | hf
    · exact hnames
    · exact ht.names f (List.mem_filter.1 hf).1
  · intro f hf
    rcases List.mem_cons.1 hf with rfl | hf
    · exact hkeep habove
    · exact hkeep (ht.above f (List.mem_filter.1 hf).1)

theorem WellFormed.removeAt (ht : t.WellFormed) (hfile : t.entryAt? p = some (.file text)) :
    (t.removeAt p).WellFormed := by
  constructor
  · exact fun f hf => ht.names f (List.mem_filter.1 hf).1
  · intro f hf
    have habove := ht.above f (List.mem_filter.1 hf).1
    rw [entryAt?_removeAt (ne_nil_of_file hfile), if_neg, habove]
    intro heq
    rw [heq, hfile] at habove
    cases habove

/-- What a path to a new or existing entry names stands in a directory, under a proper name. -/
theorem WellFormed.of_target (ht : t.WellFormed) (h : t.target path = .ok p) :
    (∀ name ∈ p, Proper name) ∧ t.entryAt? p.dropLast = some .directory := by
  unfold target at h
  split at h
  next q e hfollow =>
    obtain rfl := Except.ok.inj h
    have hentry := entryAt?_of_follow hfollow
    exact ⟨ht.proper hentry, ht.entryAt?_dropLast hentry⟩
  next =>
    split at h
    next parent name hparent hname =>
      split at h
      next q hwalk =>
        obtain rfl := Except.ok.inj h
        have hq := entryAt?_of_walk hwalk
        rw [List.dropLast_concat]
        refine ⟨fun n hn => ?_, hq⟩
        rcases List.mem_append.1 hn with hn | hn
        · exact ht.proper hq n hn
        · exact List.mem_singleton.1 hn ▸ proper_of_fileName? hname
      next => cases h
      next => cases h
    next => cases h
  next => cases h

/-! ### The changes of a program -/

theorem WellFormed.write (ht : t.WellFormed) (h : t.write path text = .ok u) : u.WellFormed := by
  unfold Tree.write at h
  split_ifs at h
  split at h
  next => cases h
  next p htarget =>
    obtain ⟨hnames, habove⟩ := ht.of_target htarget
    split at h
    next => cases h
    next hfree =>
      obtain rfl := Except.ok.inj h
      exact ht.setAt hnames habove hfree _

theorem WellFormed.remove (ht : t.WellFormed) (h : t.remove path = .ok u) : u.WellFormed := by
  unfold Tree.remove at h
  split at h
  next => cases h
  next => cases h
  next p text hfollow =>
    obtain rfl := Except.ok.inj h
    exact ht.removeAt (entryAt?_of_follow hfollow)

theorem WellFormed.makeDirectory (ht : t.WellFormed) (h : t.makeDirectory path = .ok u) :
    u.WellFormed := by
  unfold Tree.makeDirectory at h
  split at h
  next => cases h
  next p htarget =>
    obtain ⟨hnames, habove⟩ := ht.of_target htarget
    split at h
    next => cases h
    next hnone =>
      obtain rfl := Except.ok.inj h
      exact ht.setAt hnames habove (by simp [hnone]) _

theorem WellFormed.ensureDirectory (ht : t.WellFormed) (h : t.ensureDirectory path = .ok u) :
    u.WellFormed := by
  unfold Tree.ensureDirectory at h
  split at h
  next v hmake =>
    obtain rfl := Except.ok.inj h
    exact ht.makeDirectory hmake
  next =>
    split_ifs at h
    obtain rfl := Except.ok.inj h
    exact ht

theorem WellFormed.ensureDirectories (ht : t.WellFormed) {fuel : Nat}
    (h : t.ensureDirectories fuel path = .ok u) : u.WellFormed := by
  induction fuel generalizing path u with
  | zero => exact ht.ensureDirectory h
  | succ fuel ih =>
    unfold Tree.ensureDirectories at h
    split at h
    · obtain rfl := Except.ok.inj h
      exact ht
    · split at h
      next v hmake =>
        obtain rfl := Except.ok.inj h
        exact ht.makeDirectory hmake
      next =>
        split at h
        next => cases h
        next parent hparent =>
          split at h
          next => cases h
          next v hv => exact (ih hv).ensureDirectory h
      next =>
        split_ifs at h
        obtain rfl := Except.ok.inj h
        exact ht

theorem WellFormed.ensureParents (ht : t.WellFormed) (h : t.ensureParents path = .ok u) :
    u.WellFormed := by
  unfold Tree.ensureParents at h
  split at h
  next =>
    obtain rfl := Except.ok.inj h
    exact ht
  next => exact ht.ensureDirectories h

end LintConfig.Files.Tree
