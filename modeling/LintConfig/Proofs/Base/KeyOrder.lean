import LintConfig.Proofs.Base.Diamond
import LintConfig.Proofs.Base.Unambiguous
import LintConfig.Proofs.Document.Permuted

/-!
# Fingerprints and the order of keys

Fragments of permuted documents have the same fingerprints, whatever their identities, and so have
the bases that chains of them are merged into.  Values with their keys in another order, at any
depth, are read as permuted documents, so fingerprints ignore the order of keys from the values on
(`Base.fingerprints_ignore_key_order`).
-/

namespace LintConfig

/-- Fragments of permuted documents, under any identities. -/
def Fragment.Permuted (f f' : Fragment) : Prop := f.document.Permuted f'.document

namespace Fragment

variable {f f' : Fragment}

theorem Permuted.fingerprint_eq (h : f.Permuted f') : f.fingerprint = f'.fingerprint :=
  Fingerprint.of_congr (Document.Permuted.canonical_eq h)

theorem Permuted.overrideFingerprints_eq (h : f.Permuted f') :
    f.overrideFingerprints = f'.overrideFingerprints := by
  rw [overrideFingerprints, overrideFingerprints, map_eq_map_iff_forall₂]
  exact (Document.Permuted.overrides h).imp fun _ _ hb => Fingerprint.of_congr hb.canonical_eq

/-- The patterns of a fragment compile whatever its identity is, or they do not. -/
theorem exists_ignorePatterns_iff (f : Fragment) : (∃ s, f.ignorePatterns = .ok s) ↔
    ∃ s, PatternSet.compile f.document.ignorePatterns = .ok s := by
  rw [ignorePatterns]
  cases PatternSet.compile f.document.ignorePatterns <;> simp [Except.mapError]

end Fragment

namespace Chain

variable {deep : Names} {c c' : Chain}

/-- A chain of permuted documents is merged or refused like the other. -/
theorem exists_ofChain_iff_of_permuted (h : List.Forall₂ Fragment.Permuted c.fragments c'.fragments) :
    (∃ b, Base.ofChain deep c = .ok b) ↔ ∃ b, Base.ofChain deep c' = .ok b := by
  have hpatterns : c.fragments.map (fun f => f.document.ignorePatterns) =
      c'.fragments.map fun f => f.document.ignorePatterns :=
    map_eq_map_iff_forall₂.2 (h.imp fun _ _ hf => Document.Permuted.ignorePatterns hf)
  have hmem (c : Chain) : (∃ b, Base.ofChain deep c = .ok b) ↔
      ∀ ps ∈ c.fragments.map (fun f => f.document.ignorePatterns),
        ∃ s, PatternSet.compile ps = .ok s := by
    rw [Base.exists_ofChain_eq_ok_iff, List.forall_mem_map]
    simp only [Fragment.exists_ignorePatterns_iff]
  rw [hmem, hmem, hpatterns]

end Chain

/-- Fingerprints ignore the order of keys, at any depth.  Where a document can be read from a value,
one can be read from the value with its keys in any other order, and the fragments of the two are
permuted under any identities.  Chains of permuted fragments have the same fingerprints of fragments
and of overrides, place by place; and under the same deep keys they are both refused, or both merged
into bases with the same fingerprints. -/
theorem Base.fingerprints_ignore_key_order :
    (∀ (shape : Decode.Shape) (j j' : Json) (d : Document), j.Permuted j' →
      Document.decode shape (.ofJson j) = .ok d →
      ∃ d', Document.decode shape (.ofJson j') = .ok d' ∧
        ∀ id id', (Fragment.ofDocument id d).Permuted (Fragment.ofDocument id' d')) ∧
    ∀ (deep : Names) (c c' : Chain), List.Forall₂ Fragment.Permuted c.fragments c'.fragments →
      List.Forall₂ (fun f f' => f.fingerprint = f'.fingerprint ∧
        f.overrideFingerprints = f'.overrideFingerprints) c.fragments c'.fragments ∧
      SameOutcome (fun b b' => b.fingerprint = b'.fingerprint ∧
        b.resolutionFingerprint = b'.resolutionFingerprint) (ofChain deep c) (ofChain deep c') := by
  constructor
  · intro shape j j' d hj hd
    obtain ⟨d', hd', hpermuted⟩ := Document.respects shape j j' d hj hd
    exact ⟨d', hd', fun _ _ => hpermuted.normalize⟩
  · intro deep c c' h
    refine ⟨h.imp fun f f' hf => ⟨hf.fingerprint_eq, hf.overrideFingerprints_eq⟩, ?_⟩
    refine .of_ok_iff (Chain.exists_ofChain_iff_of_permuted h) fun b b' hb hb' => ⟨?_, ?_⟩
    · have hfingerprints : c.fingerprints = c'.fingerprints :=
        map_eq_map_iff_forall₂.2 (h.imp fun _ _ hf => hf.fingerprint_eq)
      rw [fingerprint_ofChain hb, fingerprint_ofChain hb', Chain.fingerprintParts_eq,
        Chain.fingerprintParts_eq, hfingerprints]
    · have hcanonical : c.fragments.map Fragment.canonical = c'.fragments.map Fragment.canonical :=
        map_eq_map_iff_forall₂.2 (h.imp fun _ _ hf => Document.Permuted.canonical_eq hf)
      rw [resolutionFingerprint_eq_combine hb, resolutionFingerprint_eq_combine hb',
        Chain.resolutionParts_eq hcanonical]

/-- A document with nested rule options and an override. -/
def inOneOrder : Json :=
  .obj [("rules", .obj [("no-debugger", .str "off"), ("quotes",
      .arr [.str "error", .obj [("avoid", .bool true), ("style", .str "single")]])]),
    ("overrides", .arr [.obj [("files", .str "*.ts"),
      ("env", .obj [("browser", .bool true), ("node", .bool false)])]])]

/-- The document with its keys in another order, in the options and in the override as well. -/
def inAnotherOrder : Json :=
  .obj [("overrides", .arr [.obj [("env", .obj [("node", .bool false), ("browser", .bool true)]),
      ("files", .str "*.ts")]]),
    ("rules", .obj [("quotes",
      .arr [.str "error", .obj [("style", .str "single"), ("avoid", .bool true)]]),
      ("no-debugger", .str "off")])]

theorem Base.fingerprints_ignore_key_order_nested : inOneOrder.Permuted inAnotherOrder ∧
    ∃ d d', Document.ofJson inOneOrder = .ok d ∧ Document.ofJson inAnotherOrder = .ok d' ∧
      (Fragment.ofDocument "a.json" d).fingerprint = (Fragment.ofDocument "b.json" d').fingerprint ∧
      (Fragment.ofDocument "a.json" d).overrideFingerprints =
        (Fragment.ofDocument "b.json" d').overrideFingerprints ∧
      ∃ b b', ofChain [] ⟨"a.json", [.ofDocument "a.json" d]⟩ = .ok b ∧
        ofChain [] ⟨"b.json", [.ofDocument "b.json" d']⟩ = .ok b' ∧
        b.fingerprint = b'.fingerprint ∧ b.resolutionFingerprint = b'.resolutionFingerprint := by
  have hpermuted : inOneOrder.Permuted inAnotherOrder := by
    refine .obj (.cons _ (.obj (.cons _ (.str _) (.cons _ ?options .nil)) (.swap _ _ _) ?_)
      (.cons _ (.arr (.cons ?override .nil)) .nil)) (.swap _ _ _) ?_
    case options =>
      exact .arr (.cons (.str _) (.cons (.obj (.cons _ (.bool _) (.cons _ (.str _) .nil))
        (.swap _ _ _) (by decide)) .nil))
    case override =>
      exact .obj (.cons _ (.str _) (.cons _ (.obj (.cons _ (.bool _) (.cons _ (.bool _) .nil))
        (.swap _ _ _) (by decide)) .nil)) (.swap _ _ _) (by decide)
    all_goals decide
  obtain ⟨hread, hchain⟩ := fingerprints_ignore_key_order
  obtain ⟨d', hd', hfragments⟩ := hread .liberal inOneOrder inAnotherOrder _ hpermuted rfl
  obtain ⟨hfragment, hbases⟩ := hchain [] ⟨"a.json", [_]⟩ ⟨"b.json", [_]⟩
    (.cons (hfragments "a.json" "b.json") .nil)
  obtain ⟨b', hb', heq⟩ := hbases.exists_of_eq_ok rfl
  obtain ⟨hfingerprint, hoverrides⟩ := (List.forall₂_cons.1 hfragment).1
  exact ⟨hpermuted, _, d', rfl, hd', hfingerprint, hoverrides, _, b', rfl, hb', heq⟩

end LintConfig
