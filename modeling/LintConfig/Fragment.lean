import LintConfig.Document
import LintConfig.Fingerprint

/-!
# Fragments

A fragment is a document under the identity it was read from, in normal form and with its
fingerprints.  Fragments with equal documents have equal fingerprints, whatever their identities.
-/

namespace LintConfig

/-- The fingerprint of an override block: that of its written form. -/
def OverrideBlock.fingerprint (b : OverrideBlock) : Fingerprint := .of b.toJson

/-- The fingerprint of a document: that of its written form. -/
def Document.fingerprint (d : Document) : Fingerprint := .of d.toJson

/-- A document in normal form under its identity. -/
structure Fragment where
  id : String
  document : Document
deriving Inhabited

namespace Fragment

/-- The fragment of a document under an identity. -/
def ofDocument (id : String) (d : Document) : Fragment := ⟨id, d.normalize⟩

/-- The fingerprint of the document. -/
def fingerprint (f : Fragment) : Fingerprint := f.document.fingerprint

/-- The fingerprints of the document's overrides, in order. -/
def overrideFingerprints (f : Fragment) : List Fingerprint :=
  f.document.overrides.map OverrideBlock.fingerprint

/-- The references that the fragment extends, in order. -/
def references (f : Fragment) : List String := f.document.references

end Fragment

end LintConfig
