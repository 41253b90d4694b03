import LintConfig.Base
import LintConfig.Proofs.Table

/-!
# The base of a chain

What `Base.ofChain` gives, field by field, when it gives a base: the only thing that it can fail
with is a malformed pattern of ignored paths.  Laying the overrides of a path onto the base fails
with what one of the overrides fails with.
-/

namespace LintConfig.Base

variable {deep : Names} {c : Chain} {b : Base} {path : String}

/-- Merging fails with the first malformed pattern of ignored paths only. -/
theorem ofChain_eq_ok_iff : ofChain deep c = .ok b ↔
    ∃ ignored, ignorePatternsOf c.fragments = .ok ignored ∧
      b = { root := c.root
            layer := Layer.mergeAll deep {} (c.fragments.map fun f => .ofDocument f.document)
            overrides := c.fragments.flatMap Fragment.overrides
            ignorePatterns := ignored
            sources := c.sources
            deepKeys := deep
            fingerprint := fingerprintOf deep c.fragments
            resolutionFingerprint := resolutionFingerprintOf (fingerprintOf deep c.fragments)
              (c.fragments.flatMap Fragment.overrides) } := by
  unfold ofChain
  cases ignorePatternsOf c.fragments with
  | error e => simp [bind, Except.bind]
  | ok ignored => simp [bind, Except.bind, pure, Except.pure, eq_comm]

theorem layer_ofChain (h : ofChain deep c = .ok b) :
    b.layer = Layer.mergeAll deep {} (c.fragments.map fun f => .ofDocument f.document) := by
  obtain ⟨_, -, rfl⟩ := ofChain_eq_ok_iff.1 h
  rfl

theorem overrides_ofChain (h : ofChain deep c = .ok b) :
    b.overrides = c.fragments.flatMap Fragment.overrides := by
  obtain ⟨_, -, rfl⟩ := ofChain_eq_ok_iff.1 h
  rfl

theorem deepKeys_ofChain (h : ofChain deep c = .ok b) : b.deepKeys = deep := by
  obtain ⟨_, -, rfl⟩ := ofChain_eq_ok_iff.1 h
  rfl

theorem resolutionFingerprint_ofChain (h : ofChain deep c = .ok b) :
    b.resolutionFingerprint = resolutionFingerprintOf (fingerprintOf deep c.fragments)
      (c.fragments.flatMap Fragment.overrides) := by
  obtain ⟨_, -, rfl⟩ := ofChain_eq_ok_iff.1 h
  rfl

/-- A base has the fragments of its chain as sources. -/
theorem mem_sources_ofChain (h : ofChain deep c = .ok b) (id : String) :
    id ∈ b.sources ↔ id ∈ c.ids := by
  obtain ⟨_, -, rfl⟩ := ofChain_eq_ok_iff.1 h
  exact Names.mem_ofList c.ids id

/-! ### Overrides of a path -/

theorem selectFrom_cons (path : String) (n : Nat) (o : Override) (os : List Override) :
    selectFrom path n (o :: os) = (o.appliesTo path).bind fun applies =>
      (selectFrom path (n + 1) os).map fun rest => if applies then (n, o) :: rest else rest := by
  rw [selectFrom]
  cases o.appliesTo path with
  | error e => rfl
  | ok applies => cases selectFrom path (n + 1) os <;> rfl

theorem exists_selectFrom_eq_ok_iff {os : List Override} {n : Nat} :
    (∃ selected, selectFrom path n os = .ok selected) ↔
      ∀ o ∈ os, ∃ applies, o.appliesTo path = .ok applies := by
  induction os generalizing n with
  | nil => simp [selectFrom]
  | cons o os ih =>
    rw [selectFrom_cons, List.forall_mem_cons, ← ih (n := n + 1)]
    cases o.appliesTo path with
    | error e => simp [Except.bind]
    | ok applies => cases selectFrom path (n + 1) os <;> simp [Except.bind, Except.map]

/-- Selecting fails with what an override fails with. -/
theorem exists_of_selectFrom_eq_error {os : List Override} {n : Nat} {error : Error}
    (h : selectFrom path n os = .error error) : ∃ o ∈ os, o.appliesTo path = .error error := by
  induction os generalizing n with
  | nil => cases h
  | cons o os ih =>
    rw [selectFrom_cons] at h
    cases happlies : o.appliesTo path with
    | error e =>
      rw [happlies] at h
      obtain rfl := Except.error.inj h
      exact ⟨o, List.mem_cons_self, happlies⟩
    | ok applies =>
      cases hrest : selectFrom path (n + 1) os with
      | error e =>
        rw [happlies, hrest] at h
        obtain rfl := Except.error.inj h
        obtain ⟨o', hmem, ho'⟩ := ih hrest
        exact ⟨o', List.mem_cons_of_mem o hmem, ho'⟩
      | ok rest => simp [happlies, hrest, Except.bind, Except.map] at h

theorem apply_eq_map (b : Base) (path : String) : b.apply path =
    (b.select path).map fun selected =>
      ⟨Layer.mergeAll b.deepKeys b.layer (selected.map fun s => s.2.layer),
        selected.map Prod.fst⟩ := by
  unfold apply
  cases b.select path <;> rfl

/-- Laying the overrides of a path on fails with a malformed pattern of one of them only. -/
theorem exists_apply_eq_ok_iff :
    (∃ x, b.apply path = .ok x) ↔ ∀ o ∈ b.overrides, ∃ applies, o.appliesTo path = .ok applies := by
  rw [← exists_selectFrom_eq_ok_iff (n := 0), apply_eq_map]
  unfold select
  cases selectFrom path 0 b.overrides <;> simp [Except.map]

theorem exists_of_apply_eq_error {error : Error} (h : b.apply path = .error error) :
    ∃ o ∈ b.overrides, o.appliesTo path = .error error := by
  rw [apply_eq_map] at h
  cases hselected : b.select path with
  | error e =>
    rw [hselected] at h
    obtain rfl := Except.error.inj h
    exact exists_of_selectFrom_eq_error hselected
  | ok selected => simp [hselected, Except.map] at h

end LintConfig.Base
