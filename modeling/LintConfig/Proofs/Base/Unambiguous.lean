import LintConfig.Proofs.Base.Fingerprint
import LintConfig.Proofs.Fingerprint.Framing
import LintConfig.Proofs.Layer.Absorption

/-!
# What combined fingerprints tell apart

The fingerprint of a base is combined from those of its fragments, a mark, and the deep keys.  The
mark is found again although any text may be a deep key: fingerprints are longer than it, so it is
the first part that is no fingerprint.  The fingerprint for resolutions adds those of the overrides.
So both are equal just if all that they are combined from is (`Base.fingerprints_unambiguous`).
-/

namespace LintConfig

open Fingerprint (Short bytesOf message combine combine_eq_iff short_hex)

theorem Names.ofList_eq_iff {ks ks' : List String} :
    ofList ks = ofList ks' ↔ ∀ k, k ∈ ks ↔ k ∈ ks' := by
  have hsorted (ks : List String) : (ofList ks).Pairwise (· < ·) :=
    sorted_union List.Pairwise.nil ks
  constructor
  · intro h k
    rw [← mem_ofList ks k, h, mem_ofList]
  · intro h
    refine (hsorted ks).eq_of_mem_iff (hsorted ks') fun k => ?_
    rw [mem_ofList, mem_ofList, h]

namespace Fingerprint

theorem hex_injective : Function.Injective hex := fun _ _ h => congrArg mk h

end Fingerprint

/-- A list is told from what follows it by an element between them that it does not have. -/
theorem append_cons_inj {α : Type} {s : α} {xs xs' ys ys' : List α} (h : s ∉ xs) (h' : s ∉ xs') :
    xs ++ s :: ys = xs' ++ s :: ys' ↔ xs = xs' ∧ ys = ys' := by
  refine ⟨fun heq => ?_, fun ⟨hxs, hys⟩ => by rw [hxs, hys]⟩
  rcases List.append_eq_append_iff.1 heq with ⟨zs, rfl, hys⟩ | ⟨zs, rfl, hys⟩
  · cases zs with
    | nil => simpa using hys
    | cons z zs => simp_all
  · cases zs with
    | nil => simpa [eq_comm] using hys
    | cons z zs => simp_all

/-- The overrides of a fragment have its fingerprints, in order. -/
theorem Fragment.fingerprints_overrides (f : Fragment) :
    f.overrides.map Override.fingerprint = f.overrideFingerprints :=
  Override.fingerprints_ofBlocks f.id 0 f.document.overrides

namespace Chain

variable {deep deep' : Names} {c c' : Chain}

/-- The fingerprints of the fragments, in order. -/
def fingerprints (c : Chain) : List Fingerprint := c.fragments.map Fragment.fingerprint

/-- The fingerprints of the overrides of all fragments, in order. -/
def overrideFingerprints (c : Chain) : List Fingerprint :=
  c.fragments.flatMap Fragment.overrideFingerprints

theorem fingerprintParts_eq (deep : Names) (c : Chain) :
    c.fingerprintParts deep = c.fingerprints.map Fingerprint.hex ++ Base.deepKeysMark :: deep := by
  rw [fingerprintParts, fingerprints, List.map_map]
  rfl

theorem resolutionParts_eq_cons (deep : Names) (c : Chain) :
    c.resolutionParts deep =
      (combine (c.fingerprintParts deep)).hex :: c.overrideFingerprints.map Fingerprint.hex := by
  have hoverrides : (c.fragments.flatMap Fragment.overrides).map (fun o => o.fingerprint.hex) =
      c.overrideFingerprints.map Fingerprint.hex := by
    rw [overrideFingerprints, List.map_flatMap, List.map_flatMap]
    refine congrArg (List.flatMap · c.fragments) (funext fun f => ?_)
    rw [← f.fingerprints_overrides, List.map_map]
    rfl
  rw [resolutionParts, hoverrides]
  rfl

theorem length_bytesOf_fingerprint {p : String} (hp : p ∈ c.fingerprints.map Fingerprint.hex) :
    (bytesOf p).length = 64 := by
  obtain ⟨x, hx, rfl⟩ := List.mem_map.1 hp
  obtain ⟨f, -, rfl⟩ := List.mem_map.1 hx
  exact Fingerprint.length_bytesOf_hex _

/-- No fingerprint is the mark before the deep keys: it is longer. -/
theorem mark_notMem_fingerprints (c : Chain) :
    Base.deepKeysMark ∉ c.fingerprints.map Fingerprint.hex := by
  intro hmem
  have hlength := length_bytesOf_fingerprint hmem
  rw [Fingerprint.bytesOf_eq] at hlength
  exact absurd hlength (by decide)

/-- The parts of a fingerprint tell the fingerprints of the fragments and the deep keys, whatever
the deep keys are. -/
theorem fingerprintParts_eq_iff :
    c.fingerprintParts deep = c'.fingerprintParts deep' ↔
      c.fingerprints = c'.fingerprints ∧ deep = deep' := by
  rw [fingerprintParts_eq, fingerprintParts_eq,
    append_cons_inj c.mark_notMem_fingerprints c'.mark_notMem_fingerprints,
    Fingerprint.hex_injective.list_map.eq_iff]

theorem short_fingerprintParts (hdeep : ∀ k ∈ deep, Short k) :
    ∀ p ∈ c.fingerprintParts deep, Short p := by
  intro p hp
  rw [fingerprintParts_eq, List.mem_append, List.mem_cons] at hp
  rcases hp with hp | rfl | hp
  · rw [Short, length_bytesOf_fingerprint hp]
    decide
  · rw [Short, Fingerprint.bytesOf_eq]
    decide
  · exact hdeep p hp

theorem short_resolutionParts (deep : Names) (c : Chain) :
    ∀ p ∈ c.resolutionParts deep, Short p := by
  intro p hp
  rw [resolutionParts_eq_cons, List.mem_cons] at hp
  rcases hp with rfl | hp
  · exact short_hex _
  · obtain ⟨x, hx, rfl⟩ := List.mem_map.1 hp
    obtain ⟨f, -, hx⟩ := List.mem_flatMap.1 hx
    obtain ⟨b, -, rfl⟩ := List.mem_map.1 hx
    exact short_hex _

/-- The messages that are hashed for a chain when it is merged. -/
def combined (deep : Names) (c : Chain) : List (List UInt8) :=
  [message (c.fingerprintParts deep), message (c.resolutionParts deep)]

end Chain

namespace Base

variable {deep : Names} {c : Chain} {b : Base}

theorem fingerprint_ofChain (h : ofChain deep c = .ok b) :
    b.fingerprint = combine (c.fingerprintParts deep) := by
  obtain ⟨_, -, rfl⟩ := ofChain_eq_ok_iff.1 h
  rfl

theorem resolutionFingerprint_eq_combine (h : ofChain deep c = .ok b) :
    b.resolutionFingerprint = combine (c.resolutionParts deep) :=
  resolutionFingerprint_ofChain h

/-- Combined fingerprints are unambiguous wherever the digest tells the combined messages apart and
all texts are short.  Lists of texts have one fingerprint just if they are one.  Two bases have one
fingerprint just if the fragments of their chains have the same fingerprints in the same order and
the same settings are merged deeply; and one fingerprint for resolutions just if moreover the
overrides have the same fingerprints in the same order. -/
theorem fingerprints_unambiguous :
    (∀ ps qs : List String, (∀ p ∈ ps ++ qs, Short p) →
      Sha256.CollisionFree [message ps, message qs] → (combine ps = combine qs ↔ ps = qs)) ∧
    ∀ (ks ks' : List String) (c c' : Chain) (b b' : Base),
      ofChain (Names.ofList ks) c = .ok b → ofChain (Names.ofList ks') c' = .ok b' →
      (∀ k ∈ ks ++ ks', Short k) →
      Sha256.CollisionFree (c.combined (Names.ofList ks) ++ c'.combined (Names.ofList ks')) →
      (b.fingerprint = b'.fingerprint ↔
        c.fingerprints = c'.fingerprints ∧ ∀ k, k ∈ ks ↔ k ∈ ks') ∧
      (b.resolutionFingerprint = b'.resolutionFingerprint ↔
        (c.fingerprints = c'.fingerprints ∧ ∀ k, k ∈ ks ↔ k ∈ ks') ∧
          c.overrideFingerprints = c'.overrideFingerprints) := by
  constructor
  · intro ps qs hshort hfree
    rw [List.forall_mem_append] at hshort
    exact combine_eq_iff hfree hshort.1 hshort.2 (by simp) (by simp)
  · intro ks ks' c c' b b' hb hb' hshort hfree
    have hdeep {ks₁ : List String} (hks : ∀ k ∈ ks₁, k ∈ ks ++ ks') :
        ∀ k ∈ Names.ofList ks₁, Short k :=
      fun k hk => hshort k (hks k ((Names.mem_ofList ks₁ k).1 hk))
    have hbase : b.fingerprint = b'.fingerprint ↔
        c.fingerprints = c'.fingerprints ∧ ∀ k, k ∈ ks ↔ k ∈ ks' := by
      rw [fingerprint_ofChain hb, fingerprint_ofChain hb', ← Names.ofList_eq_iff,
        ← Chain.fingerprintParts_eq_iff]
      refine combine_eq_iff hfree ?_ ?_ (by simp [Chain.combined]) (by simp [Chain.combined])
      · exact Chain.short_fingerprintParts (hdeep fun k hk => List.mem_append_left _ hk)
      · exact Chain.short_fingerprintParts (hdeep fun k hk => List.mem_append_right _ hk)
    refine ⟨hbase, ?_⟩
    rw [← hbase, fingerprint_ofChain hb, fingerprint_ofChain hb',
      resolutionFingerprint_eq_combine hb, resolutionFingerprint_eq_combine hb',
      combine_eq_iff hfree (Chain.short_resolutionParts _ c) (Chain.short_resolutionParts _ c')
        (by simp [Chain.combined]) (by simp [Chain.combined]),
      Chain.resolutionParts_eq_cons, Chain.resolutionParts_eq_cons, List.cons.injEq,
      Fingerprint.hex_injective.eq_iff, Fingerprint.hex_injective.list_map.eq_iff]

/-- A chain of one document without content, as often as given. -/
def bareChain (n : Nat) : Chain := ⟨"bare", List.replicate n ⟨"bare", {}⟩⟩

theorem canonical_bare : ({} : Document).toJson.canonical = "\x7b\x7d" := by
  decide +kernel

theorem collisionFree_bareChain :
    Sha256.CollisionFree ((bareChain 1).combined (Names.ofList [deepKeysMark]) ++
      (bareChain 2).combined (Names.ofList [])) := by
  refine Sha256.collisionFree_of_nodup ?_
  unfold Chain.combined bareChain Chain.resolutionParts Chain.fingerprintParts message
    fingerprintOf combine Fragment.fingerprint Document.fingerprint Fingerprint.of
    Fingerprint.framed
  simp only [Fingerprint.bytesOf_eq, List.replicate_succ, List.replicate_zero, List.map_cons,
    List.map_nil, canonical_bare]
  decide +kernel

/-- Neither the mark as a deep key nor a fragment that comes twice is taken for the other, and texts
that run into the same characters have different fingerprints. -/
theorem fingerprints_unambiguous_mark :
    (∀ p ∈ ["ab", "c"] ++ ["a", "bc"], Short p) ∧
    Sha256.CollisionFree [message ["ab", "c"], message ["a", "bc"]] ∧
    combine ["ab", "c"] ≠ combine ["a", "bc"] ∧
    (∀ k ∈ [deepKeysMark] ++ [], Short k) ∧
    ∃ b b', ofChain (Names.ofList [deepKeysMark]) (bareChain 1) = .ok b ∧
      ofChain (Names.ofList []) (bareChain 2) = .ok b' ∧
      b.fingerprint ≠ b'.fingerprint ∧ b.resolutionFingerprint ≠ b'.resolutionFingerprint := by
  obtain ⟨hlists, hbases⟩ := fingerprints_unambiguous
  have hparts : ∀ p ∈ ["ab", "c"] ++ ["a", "bc"], Short p := by
    simp only [Short, Fingerprint.bytesOf_eq]
    decide
  have hkeys : ∀ k ∈ [deepKeysMark] ++ [], Short k := by
    simp only [Short, Fingerprint.bytesOf_eq]
    decide
  have hfree : Sha256.CollisionFree [message ["ab", "c"], message ["a", "bc"]] := by
    refine Sha256.collisionFree_of_nodup ?_
    unfold message Fingerprint.framed
    simp only [Fingerprint.bytesOf_eq]
    decide +kernel
  have hkey : ¬ ∀ k, k ∈ [deepKeysMark] ↔ k ∈ [] := fun h =>
    List.not_mem_nil ((h deepKeysMark).1 List.mem_cons_self)
  obtain ⟨hbase, hresolution⟩ := hbases [deepKeysMark] [] (bareChain 1) (bareChain 2) _ _ rfl rfl
    hkeys collisionFree_bareChain
  refine ⟨hparts, hfree, ?_, hkeys, _, _, rfl, rfl, ?_, ?_⟩
  · exact fun h => absurd ((hlists _ _ hparts hfree).1 h) (by decide)
  · exact fun h => hkey (hbase.1 h).2
  · exact fun h => hkey (hresolution.1 h).1.2

end Base

end LintConfig
