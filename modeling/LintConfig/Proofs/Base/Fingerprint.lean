import LintConfig.Proofs.Base
import LintConfig.Proofs.Fingerprint
import LintConfig.Proofs.Layer.Alike

/-!
# What the fingerprint of a base tells

The fingerprint that resolutions are kept under is hashed from the fingerprints of the fragments,
and these from the canonical texts of their documents.  Where the digest tells the messages apart
that are hashed on this way (`Chain.ToldApart`), bases with one fingerprint were merged from documents
with the same canonical texts, and so give every path configurations with one text.
-/

namespace LintConfig

open Fingerprint (bytesOf message combine_eq)

namespace Chain

/-- The texts whose digest is the fingerprint of a chain merged under deep keys. -/
def fingerprintParts (deep : Names) (c : Chain) : List String :=
  c.fragments.map (fun f => f.fingerprint.hex) ++ Base.deepKeysMark :: deep

/-- The texts whose digest is the fingerprint that resolutions are kept under. -/
def resolutionParts (deep : Names) (c : Chain) : List String :=
  (Base.fingerprintOf deep c.fragments).hex ::
    (c.fragments.flatMap Fragment.overrides).map fun o => o.fingerprint.hex

/-- The messages that are hashed for a chain, its overrides aside. -/
def hashed (deep : Names) (c : Chain) : List (List UInt8) :=
  message (c.resolutionParts deep) :: message (c.fingerprintParts deep) ::
    c.fragments.map fun f => bytesOf f.document.toJson.canonical

/-- The digest tells the messages apart that are hashed for two chains. -/
def ToldApart (deep : Names) (c c' : Chain) : Prop :=
  Sha256.CollisionFree (c.hashed deep ++ c'.hashed deep)

variable {deep : Names} {c c' : Chain}

theorem resolution_mem_hashed (c : Chain) : message (c.resolutionParts deep) ∈ c.hashed deep :=
  List.mem_cons_self

theorem fingerprint_mem_hashed (c : Chain) : message (c.fingerprintParts deep) ∈ c.hashed deep :=
  List.mem_cons_of_mem _ List.mem_cons_self

theorem canonical_mem_hashed {f : Fragment} (hf : f ∈ c.fragments) :
    bytesOf f.document.toJson.canonical ∈ c.hashed deep :=
  List.mem_cons_of_mem _ (List.mem_cons_of_mem _ (List.mem_map_of_mem hf))

theorem length_fingerprint_hex {p : String}
    (hp : p ∈ c.fragments.map fun f => f.fingerprint.hex) : (bytesOf p).length = 64 := by
  obtain ⟨f, -, rfl⟩ := List.mem_map.1 hp
  exact Fingerprint.length_bytesOf_hex _

/-- Fragments with one fingerprint have documents with one canonical text. -/
theorem canonical_eq_of_fingerprint_eq
    (h : ToldApart deep c c') {f f' : Fragment} (hf : f ∈ c.fragments) (hf' : f' ∈ c'.fragments)
    (heq : f.fingerprint.hex = f'.fingerprint.hex) : f.canonical = f'.canonical := by
  have hbytes : bytesOf f.document.toJson.canonical = bytesOf f'.document.toJson.canonical := by
    refine Fingerprint.eq_of_ofBytes_eq h ?_ ?_ (congrArg Fingerprint.mk heq)
    · exact List.mem_append_left _ (canonical_mem_hashed hf)
    · exact List.mem_append_right _ (canonical_mem_hashed hf')
  exact String.ofList_injective (Fingerprint.bytesOf_injective hbytes)

/-- Lists of fragments with the same fingerprints have documents with the same canonical texts. -/
theorem canonical_eq_of_fingerprints_eq {fs fs' : List Fragment}
    (h : ∀ f ∈ fs, ∀ f' ∈ fs', f.fingerprint.hex = f'.fingerprint.hex → f.canonical = f'.canonical)
    (heq : fs.map (fun f => f.fingerprint.hex) = fs'.map fun f => f.fingerprint.hex) :
    fs.map Fragment.canonical = fs'.map Fragment.canonical := by
  rw [map_eq_map_iff_forall₂, List.forall₂_iff_zip] at heq ⊢
  refine ⟨heq.1, fun {f f'} hmem => ?_⟩
  obtain ⟨hf, hf'⟩ := List.of_mem_zip hmem
  exact h f hf f' hf' (heq.2 hmem)

/-- Chains with one fingerprint for resolutions consist of documents with the same canonical
texts. -/
theorem canonical_eq_of_resolutionFingerprint_eq
    (h : ToldApart deep c c')
    (heq : Fingerprint.combine (c.resolutionParts deep) = .combine (c'.resolutionParts deep)) :
    c.fragments.map Fragment.canonical = c'.fragments.map Fragment.canonical := by
  -- from the outermost digest inwards: the resolutions, the base, and then the documents
  have hresolution : message (c.resolutionParts deep) = message (c'.resolutionParts deep) :=
    Fingerprint.eq_of_ofBytes_eq h (List.mem_append_left _ c.resolution_mem_hashed)
      (List.mem_append_right _ c'.resolution_mem_hashed) heq
  have hlength : (bytesOf (Base.fingerprintOf deep c.fragments).hex).length =
      (bytesOf (Base.fingerprintOf deep c'.fragments).hex).length := by
    rw [Base.fingerprintOf, Base.fingerprintOf, combine_eq, combine_eq,
      Fingerprint.length_bytesOf_hex, Fingerprint.length_bytesOf_hex]
  have hhex := (Fingerprint.message_cons_inj hlength hresolution).1
  have hbase : message (c.fingerprintParts deep) = message (c'.fingerprintParts deep) :=
    Fingerprint.eq_of_ofBytes_eq h (List.mem_append_left _ c.fingerprint_mem_hashed)
      (List.mem_append_right _ c'.fingerprint_mem_hashed) (congrArg Fingerprint.mk hhex)
  have hfingerprints := Fingerprint.message_append_inj (fun p hp => length_fingerprint_hex hp)
    (fun p hp => length_fingerprint_hex hp) hbase
  exact canonical_eq_of_fingerprints_eq
    (fun f hf f' hf' => canonical_eq_of_fingerprint_eq h hf hf') hfingerprints

end Chain

/-! ### From texts to fingerprints -/

theorem Fingerprint.of_congr {j j' : Json} (h : j.canonicalChars = j'.canonicalChars) :
    of j = of j' := by
  unfold of Json.canonical
  rw [h]

theorem Override.fingerprints_ofBlocks (origin : String) (n : Nat) (bs : List OverrideBlock) :
    (ofBlocks origin n bs).map Override.fingerprint = bs.map OverrideBlock.fingerprint := by
  induction bs generalizing n with
  | nil => rfl
  | cons b bs ih => rw [ofBlocks, List.map_cons, List.map_cons, ih (n + 1)]; rfl

/-- Documents with one text have overrides with the same fingerprints. -/
theorem Fragment.override_fingerprints_eq {f f' : Fragment} (h : f.canonical = f'.canonical) :
    f.overrides.map Override.fingerprint = f'.overrides.map Override.fingerprint := by
  have hblocks := map_eq_map_iff_forall₂.1 (Document.alike h).2
  rw [overrides, overrides, Override.fingerprints_ofBlocks, Override.fingerprints_ofBlocks]
  exact map_eq_map_iff_forall₂.2 (hblocks.imp fun _ _ hb => Fingerprint.of_congr hb)

namespace Chain

variable {deep : Names} {c c' : Chain}

/-- What is hashed for a chain depends on the canonical texts of its documents only. -/
theorem resolutionParts_eq (h : c.fragments.map Fragment.canonical =
    c'.fragments.map Fragment.canonical) : c.resolutionParts deep = c'.resolutionParts deep := by
  have hfragments := map_eq_map_iff_forall₂.1 h
  have hbase : c.fragments.map (fun f => f.fingerprint.hex) =
      c'.fragments.map fun f => f.fingerprint.hex := by
    rw [map_eq_map_iff_forall₂]
    exact hfragments.imp fun _ _ hf => congrArg Fingerprint.hex (Fingerprint.of_congr hf)
  have hoverrides : (c.fragments.flatMap Fragment.overrides).map Override.fingerprint =
      (c'.fragments.flatMap Fragment.overrides).map Override.fingerprint := by
    rw [List.map_flatMap, List.map_flatMap, List.flatMap, List.flatMap]
    refine congrArg List.flatten ?_
    rw [map_eq_map_iff_forall₂]
    exact hfragments.imp fun _ _ hf => Fragment.override_fingerprints_eq hf
  have hhex := congrArg (List.map Fingerprint.hex) hoverrides
  rw [List.map_map, List.map_map] at hhex
  unfold resolutionParts Base.fingerprintOf
  rw [hbase]
  exact congrArg _ hhex

end Chain

/-! ### Bases -/

/-- Bases have one fingerprint for resolutions just if the documents that they were merged from have
the same canonical texts. -/
theorem Base.resolutionFingerprint_eq_iff {deep : Names} {c c' : Chain} {b b' : Base}
    (hb : ofChain deep c = .ok b) (hb' : ofChain deep c' = .ok b')
    (h : Chain.ToldApart deep c c') :
    b.resolutionFingerprint = b'.resolutionFingerprint ↔
      c.fragments.map Fragment.canonical = c'.fragments.map Fragment.canonical := by
  rw [resolutionFingerprint_ofChain hb, resolutionFingerprint_ofChain hb']
  refine ⟨Chain.canonical_eq_of_resolutionFingerprint_eq h, fun heq => ?_⟩
  exact congrArg Fingerprint.combine (Chain.resolutionParts_eq heq)

end LintConfig
