import LintConfig.Fingerprint
import LintConfig.Proofs.Json.Canonical
import Mathlib.Data.List.Nodup

/-!
# What fingerprints tell apart

Up to the digest nothing is lost: distinct texts have distinct bytes, distinct bytes distinct
hexadecimal digits, and a list of fingerprints can be read back from the bytes that are hashed for
it, since all fingerprints have one length.  So fingerprints tell contents apart wherever the
digest does (`Sha256.CollisionFree`).
-/

namespace LintConfig

/-- The digest tells some messages apart. -/
def Sha256.CollisionFree (messages : List (List UInt8)) : Prop :=
  ∀ x ∈ messages, ∀ y ∈ messages, digest x = digest y → x = y

theorem Sha256.collisionFree_of_nodup {messages : List (List UInt8)}
    (h : (messages.map digest).Nodup) : CollisionFree messages :=
  fun _ hx _ hy heq => List.inj_on_of_nodup_map h hx hy heq

namespace Fingerprint

/-! ### Bytes of texts -/

theorem toList_byteArray (b : ByteArray) : b.toList = b.data.toList := by
  have hloop (n i : Nat) (r : List UInt8) (hn : n = b.size - i) :
      ByteArray.toList.loop b i r = r.reverse ++ b.data.toList.drop i := by
    induction n generalizing i r with
    | zero =>
      have hi : b.data.toList.length ≤ i := by
        rw [Array.length_toList]
        exact Nat.le_of_sub_eq_zero hn.symm
      rw [ByteArray.toList.loop, if_neg (by omega), List.drop_eq_nil_of_le hi, List.append_nil]
    | succ n ih =>
      have hi : i < b.size := by omega
      have hlt : i < b.data.toList.length := by rwa [Array.length_toList]
      have hget : b.get! i = b.data.toList[i] := by
        simp [ByteArray.get!, hi]
      rw [ByteArray.toList.loop, if_pos hi, ih (i + 1) _ (by omega), List.drop_eq_getElem_cons hlt,
        List.reverse_cons, List.append_assoc, hget]
      rfl
  rw [ByteArray.toList, hloop b.size 0 [] (by omega)]
  rfl

theorem bytesOf_ofList (cs : List Char) :
    bytesOf (String.ofList cs) = cs.flatMap String.utf8EncodeChar := by
  rw [bytesOf, String.toUTF8_eq_toByteArray, toList_byteArray, String.toByteArray_ofList,
    List.utf8Encode, List.toList_data_toByteArray]

theorem bytesOf_eq (s : String) : bytesOf s = s.toList.flatMap String.utf8EncodeChar := by
  rw [← bytesOf_ofList, String.ofList_toList]

theorem bytesOf_injective : Function.Injective bytesOf := by
  intro s s' h
  rw [bytesOf, bytesOf, toList_byteArray, toList_byteArray] at h
  exact String.toByteArray_inj.1 (ByteArray.ext (Array.toList_inj.1 h))

/-! ### Hexadecimal digits -/

theorem digitChar_inj : ∀ a < 16, ∀ b < 16, Nat.digitChar a = Nat.digitChar b → a = b := by
  decide

theorem length_utf8EncodeChar_digitChar :
    ∀ a < 16, (String.utf8EncodeChar (Nat.digitChar a)).length = 1 := by
  decide

theorem hexPair_inj {a b : UInt8} (h : Json.hexPair a.toNat = Json.hexPair b.toNat) : a = b := by
  have ha := a.toNat_lt
  have hb := b.toNat_lt
  simp only [Json.hexPair, List.cons.injEq, and_true] at h
  have hhigh := digitChar_inj _ (by omega) _ (by omega) h.1
  have hlow := digitChar_inj _ (by omega) _ (by omega) h.2
  exact UInt8.toNat_inj.1 (by omega)

theorem hexOf_injective : Function.Injective hexOf := by
  intro as bs h
  have hchars := String.ofList_injective h
  clear h
  induction as generalizing bs with
  | nil =>
    cases bs with
    | nil => rfl
    | cons b bs => simp [Json.hexPair] at hchars
  | cons a as ih =>
    cases bs with
    | nil => simp [Json.hexPair] at hchars
    | cons b bs =>
      rw [List.flatMap_cons, List.flatMap_cons] at hchars
      obtain ⟨hpair, hrest⟩ := List.append_inj hchars rfl
      rw [hexPair_inj hpair, ih hrest]

theorem length_bytesOf_hexOf (bytes : List UInt8) :
    (bytesOf (hexOf bytes)).length = 2 * bytes.length := by
  rw [hexOf, bytesOf_ofList]
  induction bytes with
  | nil => rfl
  | cons b bytes ih =>
    have hb := b.toNat_lt
    rw [List.flatMap_cons, List.flatMap_append, List.length_append, ih, Json.hexPair,
      List.flatMap_cons, List.flatMap_cons, List.flatMap_nil, List.length_append,
      List.length_append, length_utf8EncodeChar_digitChar _ (by omega),
      length_utf8EncodeChar_digitChar _ (by omega), List.length_cons, List.length_nil]
    omega

theorem length_bigEndian (width n : Nat) : (Sha256.bigEndian width n).length = width := by
  induction width generalizing n with
  | zero => rfl
  | succ width ih => rw [Sha256.bigEndian, List.length_append, ih, List.length_singleton]

theorem length_digest (message : List UInt8) : (Sha256.digest message).length = 32 := by
  simp [Sha256.digest, Sha256.State.words, length_bigEndian]

/-- All fingerprints that are computed have one length. -/
theorem length_bytesOf_hex (bytes : List UInt8) : (bytesOf (ofBytes bytes).hex).length = 64 := by
  rw [ofBytes, length_bytesOf_hexOf, length_digest]

theorem eq_of_ofBytes_eq {messages : List (List UInt8)} (h : Sha256.CollisionFree messages)
    {x y : List UInt8} (hx : x ∈ messages) (hy : y ∈ messages) (heq : ofBytes x = ofBytes y) :
    x = y :=
  h x hx y hy (hexOf_injective (congrArg hex heq))

/-! ### Lists of fingerprints -/

/-- The bytes that are hashed for a list of texts. -/
def message (parts : List String) : List UInt8 := parts.flatMap framed

theorem combine_eq (parts : List String) : combine parts = ofBytes (message parts) := rfl

/-- The first of several texts of one length can be told from the bytes. -/
theorem message_cons_inj {p q : String} {ps qs : List String}
    (hlength : (bytesOf p).length = (bytesOf q).length)
    (h : message (p :: ps) = message (q :: qs)) : p = q ∧ message ps = message qs := by
  simp only [message, List.flatMap_cons, framed, hlength, List.append_assoc] at h
  obtain ⟨hp, hrest⟩ := List.append_inj (List.append_cancel_left h) hlength
  exact ⟨bytesOf_injective hp, hrest⟩

theorem length_littleEndian (width n : Nat) : (Sha256.littleEndian width n).length = width := by
  induction width generalizing n with
  | zero => rfl
  | succ width ih => rw [Sha256.littleEndian, List.length_cons, ih]

theorem length_message {n : Nat} {ps : List String} (h : ∀ p ∈ ps, (bytesOf p).length = n) :
    (message ps).length = ps.length * (8 + n) := by
  induction ps with
  | nil => simp [message]
  | cons p ps ih =>
    have hps : (message ps).length = ps.length * (8 + n) := ih fun q hq => h q (by simp [hq])
    have hp : (framed p).length = 8 + n := by
      rw [framed, List.length_append, length_littleEndian, h p (by simp)]
    rw [message, List.flatMap_cons, List.length_append, hp, List.length_cons, Nat.succ_mul,
      ← hps, message, Nat.add_comm]

/-- Texts of one length that stand before the same others can be told from the bytes. -/
theorem message_append_inj {n : Nat} {ps qs rest : List String}
    (hps : ∀ p ∈ ps, (bytesOf p).length = n) (hqs : ∀ q ∈ qs, (bytesOf q).length = n)
    (h : message (ps ++ rest) = message (qs ++ rest)) : ps = qs := by
  have hsame : message ps = message qs := by
    rw [message, message, List.flatMap_append, List.flatMap_append] at h
    exact List.append_cancel_right h
  have hlength : ps.length = qs.length := by
    have hlengths := congrArg List.length hsame
    rw [length_message hps, length_message hqs] at hlengths
    exact Nat.eq_of_mul_eq_mul_right (by omega) hlengths
  clear h
  induction ps generalizing qs with
  | nil =>
    cases qs with
    | nil => rfl
    | cons q qs => simp at hlength
  | cons p ps ih =>
    cases qs with
    | nil => simp at hlength
    | cons q qs =>
      obtain ⟨rfl, hrest⟩ := message_cons_inj
        ((hps p (by simp)).trans (hqs q (by simp)).symm) hsame
      rw [ih (fun x hx => hps x (by simp [hx])) (fun x hx => hqs x (by simp [hx])) hrest
        (Nat.succ.inj hlength)]

end Fingerprint

end LintConfig
