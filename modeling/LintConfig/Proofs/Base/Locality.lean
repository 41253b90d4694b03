import LintConfig.Proofs.Base
import Mathlib.Data.List.Basic

/-!
# Overrides are local

An override that does not apply to a path leaves no trace there: the path gets the layer of the base
without the override, or it fails (`Base.overrides_local`).  An override with a malformed pattern
applies to no path at all.
-/

namespace LintConfig

/-! ### When an override applies -/

namespace Override

variable {o : Override} {path : String}

/-- The override fails a path: it has a malformed pattern, and the path is one that a well-formed
pattern of `files` selects, or `files` has only malformed ones. -/
def FailsOn (o : Override) (path : String) : Prop :=
  (o.files.accepts path = true ∧ o.problems ≠ []) ∨
    (o.files.malformed ≠ [] ∧ o.files.isEmpty = true)

instance : Decidable (o.FailsOn path) := inferInstanceAs (Decidable (_ ∨ _))

theorem problems_eq_nil_iff : o.problems = [] ↔ o.files.malformed = [] ∧ o.excluded.malformed = [] := by
  simp [problems]

theorem appliesTo_eq_true_iff : o.appliesTo path = .ok true ↔
    o.problems = [] ∧ o.files.accepts path = true ∧ o.excluded.accepts path = false := by
  unfold appliesTo
  rw [problems_eq_nil_iff]
  cases hfiles : o.files.malformed with
  | cons m ms =>
    simp only [List.head?_cons, reduceCtorEq, false_and, iff_false]
    split_ifs <;> simp
  | nil =>
    cases hexcluded : o.excluded.malformed with
    | cons m ms => cases hselected : o.files.accepts path <;> simp
    | nil => cases hselected : o.files.accepts path <;> simp

/-- The paths that an override fails. -/
theorem exists_appliesTo_eq_error_iff : (∃ error, o.appliesTo path = .error error) ↔
    o.FailsOn path := by
  unfold appliesTo FailsOn
  rw [ne_eq, problems_eq_nil_iff]
  cases hfiles : o.files.malformed with
  | cons m ms =>
    simp only [List.head?_cons, reduceCtorEq, false_and, not_false_eq_true, and_true, ne_eq,
      true_and, ← Bool.or_eq_true]
    split_ifs with h <;> simp [h]
  | nil =>
    cases hexcluded : o.excluded.malformed with
    | cons m ms => cases hselected : o.files.accepts path <;> simp
    | nil => cases hselected : o.files.accepts path <;> simp

/-- An override that does not apply fails the path or leaves it alone. -/
theorem appliesTo_of_ne_true (h : o.appliesTo path ≠ .ok true) :
    (∃ error, o.appliesTo path = .error error) ∨ o.appliesTo path = .ok false := by
  cases happlies : o.appliesTo path with
  | error error => exact .inl ⟨error, rfl⟩
  | ok applies =>
    cases applies with
    | true => exact absurd happlies h
    | false => exact .inr rfl

end Override

/-! ### A base without one of its overrides -/

namespace Base

variable {b : Base} {i : Nat} {o : Override} {path : String}

/-- The base without the override at a position. -/
def without (b : Base) (i : Nat) : Base :=
  let overrides := b.overrides.eraseIdx i
  { b with
    overrides
    resolutionFingerprint := resolutionFingerprintOf b.fingerprint overrides }

/-- The position in a list of what has a given position in the list without its `i`-th element. -/
def shift (i position : Nat) : Nat := if position < i then position else position + 1

/-- A candidate of the base without the `i`-th override, with the positions of the base. -/
def Candidate.shift (i : Nat) (c : Candidate) : Candidate :=
  { c with applied := c.applied.map (Base.shift i) }

/-! ### Selecting overrides -/

/-- Counting from the next position on moves all positions by one. -/
theorem selectFrom_succ (os : List Override) {n : Nat} (h : i ≤ n) :
    selectFrom path (n + 1) os =
      (selectFrom path n os).map (List.map fun s => (shift i s.1, s.2)) := by
  induction os generalizing n with
  | nil => rfl
  | cons o os ih =>
    have hn : shift i n = n + 1 := if_neg (by omega)
    rw [selectFrom_cons, selectFrom_cons, ih (n := n + 1) (by omega)]
    cases o.appliesTo path with
    | error error => rfl
    | ok applies =>
      cases selectFrom path (n + 1) os with
      | error error => rfl
      | ok rest => cases applies <;> simp [Except.bind, Except.map, hn]

/-- An override that does not apply can be left out of the selection. -/
theorem selectFrom_eraseIdx {os : List Override} (ho : os[i]? = some o)
    (hnot : o.appliesTo path = .ok false) (n : Nat) :
    selectFrom path n os =
      (selectFrom path n (os.eraseIdx i)).map (List.map fun s => (shift (n + i) s.1, s.2)) := by
  induction os generalizing i n with
  | nil => cases ho
  | cons o' os ih =>
    cases i with
    | zero =>
      obtain rfl : o' = o := by simpa using ho
      rw [List.eraseIdx_cons_zero, Nat.add_zero, ← selectFrom_succ os (Nat.le_refl n),
        selectFrom_cons, hnot]
      cases selectFrom path (n + 1) os <;> rfl
    | succ i =>
      have hn : shift (n + (i + 1)) n = n := if_pos (by omega)
      have hi : n + 1 + i = n + (i + 1) := by omega
      rw [List.eraseIdx_cons_succ, selectFrom_cons, selectFrom_cons, ih (by simpa using ho), hi]
      cases o'.appliesTo path with
      | error error => rfl
      | ok applies =>
        cases selectFrom path (n + 1) (os.eraseIdx i) with
        | error error => rfl
        | ok rest => cases applies <;> simp [Except.bind, Except.map, hn]

/-! ### Laying overrides on -/

/-- An override that does not apply to a path can be left out of the base. -/
theorem apply_without (ho : b.overrides[i]? = some o) (hnot : o.appliesTo path = .ok false) :
    b.apply path = ((b.without i).apply path).map (Candidate.shift i) := by
  have hselected : b.select path = ((b.without i).select path).map
      (List.map fun s => (shift i s.1, s.2)) := by
    have h := selectFrom_eraseIdx ho hnot 0
    rwa [Nat.zero_add] at h
  rw [apply_eq_map, apply_eq_map, hselected]
  cases (b.without i).select path <;> simp [Except.map, Candidate.shift, without, Function.comp_def]

/-- An override that fails a path makes the base fail it. -/
theorem exists_apply_eq_error {error : Error} (hmem : o ∈ b.overrides)
    (h : o.appliesTo path = .error error) : ∃ error', b.apply path = .error error' := by
  cases happly : b.apply path with
  | error error' => exact ⟨error', rfl⟩
  | ok candidate =>
    obtain ⟨applies, hok⟩ := exists_apply_eq_ok_iff.1 ⟨candidate, happly⟩ o hmem
    rw [h] at hok
    cases hok

/-- Either an override fails a path and so does the base, or the override can be left out. -/
theorem apply_of_not_applies (ho : b.overrides[i]? = some o) (hnot : o.appliesTo path ≠ .ok true) :
    ((∃ error, o.appliesTo path = .error error) ∧ ∃ error, b.apply path = .error error) ∨
      b.apply path = ((b.without i).apply path).map (Candidate.shift i) := by
  rcases Override.appliesTo_of_ne_true hnot with ⟨error, herror⟩ | hfalse
  · exact .inl ⟨⟨error, herror⟩, exists_apply_eq_error (List.mem_of_getElem? ho) herror⟩
  · exact .inr (apply_without ho hfalse)

/-- Leaving an override out makes no difference for a path, but for the positions; or the path fails
with what an override fails with. -/
def LocalAt (b : Base) (i : Nat) (path : String) : Prop :=
  (∃ o ∈ b.overrides, ∃ error, o.appliesTo path = .error error ∧ b.apply path = .error error) ∨
    ∃ candidate, (b.without i).apply path = .ok candidate ∧
      b.apply path = .ok (candidate.shift i)

theorem localAt_of_not_applies (ho : b.overrides[i]? = some o)
    (hnot : o.appliesTo path ≠ .ok true) : b.LocalAt i path := by
  have hfails {error : Error} (h : b.apply path = .error error) : b.LocalAt i path := by
    obtain ⟨o', hmem, ho'⟩ := exists_of_apply_eq_error h
    exact .inl ⟨o', hmem, error, ho', h⟩
  rcases apply_of_not_applies ho hnot with ⟨-, error, h⟩ | h
  · exact hfails h
  · cases hrest : (b.without i).apply path with
    | error error => exact hfails (h.trans (by rw [hrest, Except.map]))
    | ok candidate => exact .inr ⟨candidate, hrest, h.trans (by rw [hrest, Except.map])⟩

/-- An override that does not apply to a path changes nothing there: the path fails with what some
override fails with, or it gets exactly the layer of the base without the override.  An override with
a malformed pattern applies to no path: it fails the path, or all is as if it were not there. -/
theorem overrides_local (ho : b.overrides[i]? = some o) :
    (∀ path, o.appliesTo path ≠ .ok true → b.LocalAt i path) ∧
    (o.problems ≠ [] → ∀ path, o.appliesTo path ≠ .ok true ∧
      (((∃ error, o.appliesTo path = .error error) ∧ ∃ error, b.apply path = .error error) ∨
        b.apply path = ((b.without i).apply path).map (Candidate.shift i))) := by
  refine ⟨fun path => localAt_of_not_applies ho, fun hproblems path => ?_⟩
  have hnot : o.appliesTo path ≠ .ok true := fun happlies =>
    hproblems (Override.appliesTo_eq_true_iff.1 happlies).1
  exact ⟨hnot, apply_of_not_applies ho hnot⟩

/-- A base whose second override has a malformed pattern. -/
def oopsBase : Base :=
  { (default : Base) with
    overrides := Override.ofBlocks "app" 0
      [{ files := .one "*.ts" }, { files := .many ["*.js", "[oops"] }, { files := .one "a.*" }] }

theorem overrides_local_oops : ∃ o, oopsBase.overrides[1]? = some o ∧ o.problems ≠ [] ∧
    o.appliesTo "a.ts" ≠ .ok true ∧ oopsBase.LocalAt 1 "a.ts" ∧
    ∃ candidate, oopsBase.apply "a.ts" = .ok candidate ∧ candidate.applied = [0, 2] := by
  have ho : oopsBase.overrides[1]? =
      some (.ofBlock "app" 1 { files := .many ["*.js", "[oops"] }) := rfl
  obtain ⟨hlocal, hmalformed⟩ := overrides_local ho
  have hproblems : (Override.ofBlock "app" 1 { files := .many ["*.js", "[oops"] }).problems ≠ [] := by
    decide +kernel
  have hnot := (hmalformed hproblems "a.ts").1
  exact ⟨_, ho, hproblems, hnot, hlocal "a.ts" hnot, _, by rfl, by rfl⟩

end Base

end LintConfig
