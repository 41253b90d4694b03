import LintConfig.Digest.Sha256
import LintConfig.Json.Canonical

/-!
# Fingerprints

A fingerprint stands for the content of a document.  `Fingerprint.of` is the SHA-256 digest of the
canonical form of a value, `Fingerprint.combine` the digest of a list of texts, each preceded by
its length so that different lists never run into the same bytes.
-/

namespace LintConfig

/-- A SHA-256 digest in lower-case hexadecimal. -/
structure Fingerprint where
  hex : String
deriving DecidableEq, Repr, Inhabited

namespace Fingerprint

/-- The UTF-8 bytes of a text. -/
def bytesOf (s : String) : List UInt8 := s.toUTF8.toList

/-- The lower-case hexadecimal digits of bytes. -/
def hexOf (bytes : List UInt8) : String :=
  String.ofList (bytes.flatMap fun b => Json.hexPair b.toNat)

/-- The digest of bytes. -/
def ofBytes (bytes : List UInt8) : Fingerprint := ⟨hexOf (Sha256.digest bytes)⟩

/-- The fingerprint of a value. -/
def of (j : Json) : Fingerprint := ofBytes (bytesOf j.canonical)

/-- The bytes of a text after its length. -/
def framed (part : String) : List UInt8 :=
  let bytes := bytesOf part
  Sha256.littleEndian 8 bytes.length ++ bytes

/-- The fingerprint of a list of texts. -/
def combine (parts : List String) : Fingerprint := ofBytes (parts.flatMap framed)

/-- The first twelve digits, for listings. -/
def short (f : Fingerprint) : String := String.ofList (f.hex.toList.take 12)

end Fingerprint

end LintConfig
