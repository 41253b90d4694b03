import LintConfig.Notation
import LintConfig.Proofs.Decode.WholeNumbers
import LintConfig.Proofs.Json.Comments
import LintConfig.Proofs.Json.Tokenized

/-!
# Documents with comments

A JSON text with comments is read with liberties.  What comes out is what the text without the
comments is read as strictly, but with an integer for every whole double
(`lenient_commented`).  A comment may be added to any text that is read (`commented_note`), and it
changes `1.0` to `1` (`lenient_ratio_ne`).
-/

namespace LintConfig.Notation

open Decode
open Json (Commented NumberToken StringToken Token)

/-- What is kept when names are settled and whole doubles made integers is read with liberties from
the text with comments. -/
theorem lenient_eq_of_keeps {α : Type} {decoder : Decoder α} {whole : α → α}
    (hkeeps : Keeps decoder whole) {text commented : String}
    (h : Commented Token.Portable text.toList commented.toList) {a : α}
    (ha : strict? decoder text = some a) (path : String) :
    lenient decoder path commented = .ok (whole a) := by
  obtain ⟨n, hn, hdecode⟩ := Option.bind_eq_some_iff.1 ha
  obtain ⟨j, hj, hsettled⟩ := Json.read_commented h hn
  have hnode : decoder n = .ok a := by
    cases hresult : decoder n with
    | error fault => simp [hresult, Except.toOption] at hdecode
    | ok b =>
      rw [hresult] at hdecode
      exact congrArg Except.ok (Option.some.inj hdecode)
  have hrelaxed : relaxed path commented = .ok j.wholeNumbers := by rw [relaxed, hj]
  rw [lenient, hrelaxed]
  change decodeJson decoder path j.wholeNumbers = _
  rw [decodeJson, hkeeps.keeps hsettled hnode]
  rfl

/-- A text with comments is read like the text without them, with an integer for every whole
double. -/
theorem lenient_commented {text commented : String}
    (h : Commented Token.Portable text.toList commented.toList) (path : String) :
    (∀ d, strict? (Document.decode .liberal) text = some d →
      lenient (Document.decode .liberal) path commented = .ok d.wholeNumbers) ∧
    (∀ m, strict? (Manifest.decode .liberal) text = some m →
      lenient (Manifest.decode .liberal) path commented = .ok m.wholeNumbers) ∧
    ∀ o, strict? (EngineOptions.decode .liberal) text = some o →
      lenient (EngineOptions.decode .liberal) path commented = .ok o := by
  refine ⟨?_, ?_, ?_⟩
  · intro d hd
    exact lenient_eq_of_keeps (Document.keeps .liberal) h hd path
  · intro m hm
    exact lenient_eq_of_keeps (Manifest.keeps .liberal) h hm path
  · intro o ho
    exact lenient_eq_of_keeps (EngineOptions.keeps .liberal) h ho path

/-- Every text that is read may have a comment at its end. -/
theorem commented_note {α : Type} {decoder : Decoder α} {text comment : String} {a : α}
    (h : strict? decoder text = some a)
    (hcomment : ∀ d ∈ comment.toList, Json.Relaxed.isLineEnd d = false) :
    Commented (fun _ => True) text.toList (text ++ " //" ++ comment).toList := by
  obtain ⟨n, hn, -⟩ := Option.bind_eq_some_iff.1 h
  rw [String.toList_append, String.toList_append, List.append_assoc]
  exact (Json.commented_self hn).note hcomment

/-! ### A ratio -/

/-- A whole double. -/
def one : NumberToken where
  negative := false
  whole := ⟨['1'], by simp, by simp⟩
  places := some ⟨['0'], by simp, by simp⟩
  power := none
  leading := by simp

/-- A document whose setting is a whole double. -/
def ratio : String := "\x7b\"settings\":\x7b\"a\":1.0\x7d\x7d"

/-- The same document with a comment. -/
def ratioNoted : String := "\x7b\"settings\":\x7b\"a\":1.0\x7d\x7d // ratio"

theorem commented_ratio : Commented Token.Portable ratio.toList ratioNoted.toList := by
  have hone : one.Portable := by
    unfold NumberToken.Portable
    decide +kernel
  have hsettings := @StringToken.portable_plain "settings".toList (by decide)
  have ha := @StringToken.portable_plain ['a'] (by decide)
  have hstops : Json.Stops ['\x7d', '\x7d'] := Json.stops_cons (by decide) _
  have hline : ∀ d ∈ " ratio".toList, Json.Relaxed.isLineEnd d = false := by
    simp [Json.Relaxed.isLineEnd]
  refine @Commented.token Token.Portable (.mark .openMap) _ _ trivial False.elim ?_
  refine @Commented.token Token.Portable (.string _) _ _ hsettings False.elim ?_
  refine @Commented.token Token.Portable (.mark .colon) _ _ trivial False.elim ?_
  refine @Commented.token Token.Portable (.mark .openMap) _ _ trivial False.elim ?_
  refine @Commented.token Token.Portable (.string _) _ _ ha False.elim ?_
  refine @Commented.token Token.Portable (.mark .colon) _ _ trivial False.elim ?_
  refine @Commented.token Token.Portable (.number one) _ _ hone (fun _ => hstops) ?_
  refine @Commented.token Token.Portable (.mark .closeMap) _ _ trivial False.elim ?_
  refine @Commented.token Token.Portable (.mark .closeMap) _ _ trivial False.elim ?_
  exact @Commented.space Token.Portable ' ' _ _ (by decide) (.last hline)

theorem lenient_commented_ratio : ∃ d, strict? (Document.decode .liberal) ratio = some d ∧
    lenient (Document.decode .liberal) "a.json" ratioNoted = .ok d.wholeNumbers := by
  have hsome : (strict? (Document.decode .liberal) ratio).isSome = true := by decide +kernel
  obtain ⟨d, hd⟩ := Option.isSome_iff_exists.1 hsome
  exact ⟨d, hd, (lenient_commented commented_ratio "a.json").1 d hd⟩

/-- The number that a document sets under a key. -/
def numberAt (key : String) (d : Document) : Option Number :=
  match Table.get? d.settings key with
  | some (.num x) => some x
  | _ => none

/-- The comment changes the document. -/
theorem lenient_ratio_ne : ¬ ∀ (text commented path : String) (d : Document),
    Commented (fun _ => True) text.toList commented.toList →
    strict? (Document.decode .liberal) text = some d →
    lenient (Document.decode .liberal) path commented = .ok d := by
  intro h
  have hsome : (strict? (Document.decode .liberal) ratio).isSome = true := by decide +kernel
  obtain ⟨d, hd⟩ := Option.isSome_iff_exists.1 hsome
  have hline : ∀ d ∈ " ratio".toList, Json.Relaxed.isLineEnd d = false := by
    simp [Json.Relaxed.isLineEnd]
  have hsame := h ratio ratioNoted "a.json" d (commented_note hd hline) hd
  have hdouble : (strict? (Document.decode .liberal) ratio).bind (numberAt "a") =
      some (.float (Double.ofInt 1)) := by decide +kernel
  have hint : (lenient (Document.decode .liberal) "a.json" ratioNoted).toOption.bind
      (numberAt "a") = some (.int 1) := by decide +kernel
  rw [hd] at hdouble
  rw [hsame] at hint
  exact absurd (hdouble.symm.trans hint) (by simp)

end LintConfig.Notation
