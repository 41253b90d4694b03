import LintConfig.Proofs.Layer.Absorption
import LintConfig.Proofs.Store.WellFormed

/-!
# Diamonds

A fragment that is reached on two ways stands in a chain twice, and so do its overrides.  Only the
last place counts: with all others left out (`Chain.keepLast`) a well-formed chain, as every chain
is that was loaded (`Store.wellFormed_load`), gives a base and, for every path, a layer that differ
in the order of keys at most (`Base.ofChain_keepLast`).
-/

namespace LintConfig

variable {α β : Type}

/-- Two attempts that both fail, or both succeed with results that are related. -/
inductive SameOutcome (R : α → β → Prop) : Except Error α → Except Error β → Prop
  | failed {e e' : Error} : SameOutcome R (.error e) (.error e')
  | done {a : α} {b : β} (h : R a b) : SameOutcome R (.ok a) (.ok b)

theorem SameOutcome.of_ok_iff {R : α → β → Prop} {x : Except Error α} {y : Except Error β}
    (h : (∃ a, x = .ok a) ↔ ∃ b, y = .ok b) (hR : ∀ a b, x = .ok a → y = .ok b → R a b) :
    SameOutcome R x y := by
  cases x with
  | error e =>
    cases y with
    | error e' => exact .failed
    | ok b => simp at h
  | ok a =>
    cases y with
    | error e' => simp at h
    | ok b => exact .done (hR a b rfl rfl)

theorem SameOutcome.of_eq_ok {R : α → β → Prop} {x : Except Error α} {y : Except Error β}
    (h : SameOutcome R x y) {a : α} {b : β} (hx : x = .ok a) (hy : y = .ok b) : R a b := by
  subst hx hy
  cases h
  assumption

theorem SameOutcome.exists_of_eq_ok {R : α → β → Prop} {x : Except Error α} {y : Except Error β}
    (h : SameOutcome R x y) {a : α} (hx : x = .ok a) : ∃ b, y = .ok b ∧ R a b := by
  subst hx
  cases h with
  | done h => exact ⟨_, rfl, h⟩

/-! ### Ignored paths -/

namespace PatternSet

/-- Which paths a set covers depends on its patterns only, and not on their order. -/
theorem covers_congr {s t : PatternSet} (h : ∀ p, p ∈ s.patterns ↔ p ∈ t.patterns) (path : String) :
    s.covers path = t.covers path := by
  have haccepts : s.acceptsChars = t.acceptsChars := by
    funext cs
    rw [Bool.eq_iff_iff, acceptsChars, acceptsChars, List.any_eq_true, List.any_eq_true]
    simp only [h]
  unfold covers accepts
  rw [haccepts]

end PatternSet

namespace Base

theorem ignorePatternsOf_cons (f : Fragment) (fs : List Fragment) :
    ignorePatternsOf (f :: fs) =
      f.ignorePatterns.bind fun ps => (ignorePatternsOf fs).map ps.append := by
  rw [ignorePatternsOf]
  cases f.ignorePatterns with
  | error e => rfl
  | ok ps => cases ignorePatternsOf fs <;> rfl

/-- The patterns of fragments are those of each of them, if each has no malformed one. -/
theorem exists_ignorePatternsOf_eq_ok_iff {fs : List Fragment} :
    (∃ s, ignorePatternsOf fs = .ok s) ↔ ∀ f ∈ fs, ∃ s, f.ignorePatterns = .ok s := by
  induction fs with
  | nil => simp [ignorePatternsOf]
  | cons f fs ih =>
    rw [ignorePatternsOf_cons, List.forall_mem_cons, ← ih]
    cases f.ignorePatterns with
    | error e => simp [Except.bind]
    | ok ps => cases ignorePatternsOf fs <;> simp [Except.bind, Except.map]

theorem mem_ignorePatternsOf {fs : List Fragment} {s : PatternSet} (h : ignorePatternsOf fs = .ok s)
    (p : Pattern) :
    p ∈ s.patterns ↔ ∃ f ∈ fs, ∃ t, f.ignorePatterns = .ok t ∧ p ∈ t.patterns := by
  induction fs generalizing s with
  | nil =>
    cases h
    simp [PatternSet.empty]
  | cons f fs ih =>
    rw [ignorePatternsOf_cons] at h
    cases hps : f.ignorePatterns with
    | error e => simp [hps, Except.bind] at h
    | ok ps =>
      cases hrest : ignorePatternsOf fs with
      | error e => simp [hps, hrest, Except.bind, Except.map] at h
      | ok rest =>
        simp only [hps, hrest, Except.bind, Except.map, Except.ok.injEq] at h
        subst h
        simp [PatternSet.append, ih hrest, hps]

/-- Merging a chain fails with a malformed pattern of one of its fragments only. -/
theorem exists_ofChain_eq_ok_iff {deep : Names} {c : Chain} :
    (∃ b, ofChain deep c = .ok b) ↔ ∀ f ∈ c.fragments, ∃ s, f.ignorePatterns = .ok s := by
  rw [← exists_ignorePatternsOf_eq_ok_iff]
  refine ⟨fun ⟨b, hb⟩ => ?_, fun ⟨s, hs⟩ => ⟨_, ofChain_eq_ok_iff.2 ⟨s, hs, rfl⟩⟩⟩
  obtain ⟨s, hs, -⟩ := ofChain_eq_ok_iff.1 hb
  exact ⟨s, hs⟩

end Base

/-! ### Chains -/

namespace Chain

/-- The chain without the fragments that come again later. -/
def keepLast (c : Chain) : Chain := { c with fragments := LintConfig.keepLast Fragment.id c.fragments }

end Chain

namespace Fragment

theorem settings_of_mem_overrides {f : Fragment} {o : Override} (h : o ∈ f.overrides) :
    ∃ b ∈ f.document.overrides, o.layer = .ofOverride b := by
  have hblocks (origin : String) (n : Nat) (bs : List OverrideBlock) :
      ∀ o ∈ Override.ofBlocks origin n bs, ∃ b ∈ bs, o.layer = .ofOverride b := by
    induction bs generalizing n with
    | nil => simp [Override.ofBlocks]
    | cons b bs ih =>
      rw [Override.ofBlocks, List.forall_mem_cons]
      refine ⟨⟨b, List.mem_cons_self, rfl⟩, fun o ho => ?_⟩
      obtain ⟨c, hc, heq⟩ := ih (n + 1) o ho
      exact ⟨c, List.mem_cons_of_mem b hc, heq⟩
  exact hblocks _ _ _ o h

end Fragment

namespace Chain

variable {c : Chain} {deep : Names}

theorem WellFormed.mem_keepLast_iff (h : c.WellFormed) {f : Fragment} :
    f ∈ c.keepLast.fragments ↔ f ∈ c.fragments :=
  LintConfig.mem_keepLast_iff h.same

theorem WellFormed.reordered_documents (h : c.WellFormed) (deep : Names) :
    (Layer.mergeAll deep {} (c.fragments.map fun f => .ofDocument f.document)).Reordered
      (Layer.mergeAll deep {} (c.keepLast.fragments.map fun f => .ofDocument f.document)) := by
  rw [List.map_eq_flatMap, List.map_eq_flatMap]
  refine Layer.reordered_keepLast h.same _ (.refl {}) .nil fun f hf l hl => ?_
  obtain rfl := List.mem_singleton.1 hl
  exact (h.keyed f hf).settings

/-- The layers of a path, the order of keys aside. -/
theorem WellFormed.reordered_layersFor (h : c.WellFormed) (deep : Names) (path : String) :
    (Layer.mergeAll deep {} (c.layersFor path)).Reordered
      (Layer.mergeAll deep {} (c.keepLast.layersFor path)) := by
  have hoverrides (fs : List Fragment) :
      ((fs.flatMap Fragment.overrides).filter fun o => o.applies path).map Override.layer =
        fs.flatMap fun f => (f.overrides.filter fun o => o.applies path).map Override.layer := by
    rw [List.filter_flatMap, List.map_flatMap]
  unfold layersFor
  rw [Layer.mergeAll_append, Layer.mergeAll_append, hoverrides, hoverrides]
  refine Layer.reordered_keepLast h.same _ (h.reordered_documents deep) ?_ fun f hf l hl => ?_
  · exact Layer.sorted_plugins_mergeAll .nil _
  · obtain ⟨o, ho, rfl⟩ := List.mem_map.1 hl
    obtain ⟨b, hb, heq⟩ := Fragment.settings_of_mem_overrides (List.mem_filter.1 ho).1
    rw [heq]
    exact (h.keyed f hf).overrides b hb

end Chain

/-- A chain and the chain without the fragments that come again later are both merged or both
refused.  Merged, they give layers that differ in the order of keys only; they ignore the same
paths; and for each path laying the overrides on fails on both or gives layers that differ in the
order of keys only. -/
theorem Base.ofChain_keepLast (deep : Names) {c : Chain} (h : c.WellFormed) :
    SameOutcome (fun b b' => b.layer.Reordered b'.layer ∧
        (∀ path, b.isIgnored path = b'.isIgnored path) ∧
        ∀ path, SameOutcome (fun x x' => x.layer.Reordered x'.layer) (b.apply path) (b'.apply path))
      (ofChain deep c) (ofChain deep c.keepLast) := by
  refine .of_ok_iff ?_ fun b b' hb hb' => ⟨?_, fun path => ?_, fun path => .of_ok_iff ?_ ?_⟩
  · rw [exists_ofChain_eq_ok_iff, exists_ofChain_eq_ok_iff]
    simp only [h.mem_keepLast_iff]
  · rw [layer_ofChain hb, layer_ofChain hb']
    exact h.reordered_documents deep
  · obtain ⟨s, hs, rfl⟩ := ofChain_eq_ok_iff.1 hb
    obtain ⟨s', hs', rfl⟩ := ofChain_eq_ok_iff.1 hb'
    refine PatternSet.covers_congr (fun p => ?_) path
    rw [mem_ignorePatternsOf hs, mem_ignorePatternsOf hs']
    simp only [h.mem_keepLast_iff]
  · rw [exists_apply_eq_ok_iff, exists_apply_eq_ok_iff, overrides_ofChain hb, overrides_ofChain hb']
    simp only [List.mem_flatMap, h.mem_keepLast_iff]
  · intro x x' hx hx'
    rw [apply_ofChain hb hx, apply_ofChain hb' hx']
    exact h.reordered_layersFor deep path

/-- What is reached on two ways. -/
def sharedDocument : Document :=
  { plugins := ["react"]
    settings := [("react", .map [("runtime", .map [("mode", .str "auto")]), ("strict", .bool true)])]
    overrides := [{ files := .one "*.ts", settings := [("react", .map [("pragma", .str "h")])] }] }

/-- One of the ways.  Its settings wipe a map that those of what it extends merge into, and others
that they have no part in. -/
def wipingDocument : Document :=
  { bases := .one "shared"
    settings := [("react", .map [("fragment", .str "F"), ("runtime", .bool false)])]
    env := [("browser", true)] }

/-- The other way is that the root extends both. -/
def forkingDocument : Document := { bases := .many ["left", "shared"], parser := some "ts" }

/-- Three documents in memory. -/
def forkingLibrary : Library where
  sources := [.memory "memory"
    [("app", forkingDocument), ("left", wipingDocument), ("shared", sharedDocument)]]
  files := default

/-- The chain that they come to, in which `shared` is reached on two ways. -/
def twoWays : Chain :=
  ⟨"app", [⟨"shared", sharedDocument⟩, ⟨"left", wipingDocument⟩, ⟨"shared", sharedDocument⟩,
    ⟨"app", forkingDocument⟩]⟩

theorem load_forkingLibrary : (Store.load forkingLibrary {} "app").1 = .ok twoWays := by rfl

theorem wellFormed_twoWays : twoWays.WellFormed := by
  have hread (d : Document) (h : Document.ofJson d.toJson = .ok d) : d.Keyed :=
    Document.keyed_of_decode h
  refine Store.wellFormed_load (fun name documents hsource e he => ?_) ?_ load_forkingLibrary
  · obtain ⟨-, rfl⟩ : name = "memory" ∧ documents = _ := by simpa [forkingLibrary] using hsource
    simp only [List.mem_cons, List.not_mem_nil, or_false] at he
    rcases he with rfl | rfl | rfl <;> exact hread _ rfl
  · rintro id f ⟨⟩

theorem Base.ofChain_keepLast_twoWays : twoWays.WellFormed ∧
    twoWays.keepLast.ids = ["left", "shared", "app"] ∧
    ∃ b b', ofChain ["react"] twoWays = .ok b ∧ ofChain ["react"] twoWays.keepLast = .ok b' ∧
      b.layer.Reordered b'.layer ∧ ∃ x x', b.apply "main.ts" = .ok x ∧
        b'.apply "main.ts" = .ok x' ∧ x.layer.Reordered x'.layer := by
  refine ⟨wellFormed_twoWays, rfl, _, _, rfl, rfl, ?_⟩
  obtain ⟨hlayer, -, happly⟩ := (ofChain_keepLast ["react"] wellFormed_twoWays).of_eq_ok rfl rfl
  exact ⟨hlayer, _, _, rfl, rfl, (happly "main.ts").of_eq_ok rfl rfl⟩

end LintConfig
