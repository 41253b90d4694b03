import LintConfig.Proofs.Fingerprint
import Mathlib.Algebra.Group.Nat.Defs

/-!
# Texts behind their lengths

The bytes of a list of texts, each text behind its length in eight bytes, are read back in one way
only: the length says where the first text ends, and whatever follows belongs to the others.  So
`Fingerprint.combine` tells lists of texts apart wherever the digest does, whatever the texts are, as
long as their lengths fit into eight bytes (`Fingerprint.combine_eq_iff`).
-/

namespace LintConfig.Fingerprint

/-- A number that fits into some bytes is told by them. -/
theorem littleEndian_inj {width n m : Nat} (hn : n < 256 ^ width) (hm : m < 256 ^ width)
    (h : Sha256.littleEndian width n = Sha256.littleEndian width m) : n = m := by
  induction width generalizing n m with
  | zero =>
    rw [Nat.pow_zero] at hn hm
    omega
  | succ width ih =>
    rw [Sha256.littleEndian, Sha256.littleEndian, List.cons.injEq] at h
    obtain ⟨hlow, hhigh⟩ := h
    have hbyte : n % 256 = m % 256 := by
      have hnat := congrArg UInt8.toNat hlow
      simp only [UInt8.toNat_ofNat'] at hnat
      omega
    have hrest : n / 256 = m / 256 := by
      rw [Nat.pow_succ] at hn hm
      exact ih (by omega) (by omega) hhigh
    omega

/-- A text whose length fits into eight bytes. -/
def Short (p : String) : Prop := (bytesOf p).length < 2 ^ 64

/-- The first text of several is told by their bytes, and so are the bytes of the others. -/
theorem framed_append_inj {p q : String} {rest rest' : List UInt8} (hp : Short p) (hq : Short q)
    (h : framed p ++ rest = framed q ++ rest') : p = q ∧ rest = rest' := by
  simp only [framed, List.append_assoc] at h
  have hwidth (n m : Nat) :
      (Sha256.littleEndian 8 n).length = (Sha256.littleEndian 8 m).length := by
    rw [length_littleEndian, length_littleEndian]
  obtain ⟨hwidths, hbytes⟩ := List.append_inj h (hwidth _ _)
  have hlength : (bytesOf p).length = (bytesOf q).length := littleEndian_inj hp hq hwidths
  obtain ⟨hsame, hrest⟩ := List.append_inj hbytes hlength
  exact ⟨bytesOf_injective hsame, hrest⟩

theorem framed_ne_nil (p : String) : framed p ≠ [] := by
  intro h
  have hlength := congrArg List.length h
  rw [framed, List.length_append, length_littleEndian, List.length_nil] at hlength
  omega

/-- Lists of texts are told by their bytes. -/
theorem message_inj {ps qs : List String} (hps : ∀ p ∈ ps, Short p) (hqs : ∀ q ∈ qs, Short q)
    (h : message ps = message qs) : ps = qs := by
  induction ps generalizing qs with
  | nil =>
    cases qs with
    | nil => rfl
    | cons q qs => simp [message, framed_ne_nil] at h
  | cons p ps ih =>
    cases qs with
    | nil => simp [message, framed_ne_nil] at h
    | cons q qs =>
      rw [List.forall_mem_cons] at hps hqs
      rw [message, message, List.flatMap_cons, List.flatMap_cons] at h
      obtain ⟨rfl, hrest⟩ := framed_append_inj hps.1 hqs.1 h
      rw [ih hps.2 hqs.2 hrest]

/-- Lists of texts have one fingerprint just if they are one, where the digest tells their bytes
apart. -/
theorem combine_eq_iff {messages : List (List UInt8)} (hfree : Sha256.CollisionFree messages)
    {ps qs : List String} (hps : ∀ p ∈ ps, Short p) (hqs : ∀ q ∈ qs, Short q)
    (hmem : message ps ∈ messages) (hmem' : message qs ∈ messages) :
    combine ps = combine qs ↔ ps = qs := by
  refine ⟨fun h => ?_, fun h => by rw [h]⟩
  rw [combine_eq, combine_eq] at h
  exact message_inj hps hqs (eq_of_ofBytes_eq hfree hmem hmem' h)

/-- The digits of a fingerprint are a short text. -/
theorem short_hex (bytes : List UInt8) : Short (ofBytes bytes).hex := by
  rw [Short, length_bytesOf_hex]
  decide

end LintConfig.Fingerprint
