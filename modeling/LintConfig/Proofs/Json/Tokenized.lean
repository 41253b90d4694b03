import LintConfig.Proofs.Json.Tokens
import Mathlib.Data.List.TakeWhile

/-!
# Whatever is read consists of tokens

Every text that the strict reader takes consists of tokens with blanks between them
(`commented_self`), so that a comment may be added between any two of them.
-/

namespace LintConfig.Json

/-! ### Numerals -/

theorem exists_digits {cs ds rest : List Char} (h : Numeral.spanDigits cs = (ds, rest))
    (hne : ds ≠ []) : ∃ d : Digits, d.chars = ds ∧ cs = ds ++ rest := by
  obtain ⟨rfl, rfl⟩ := Prod.mk.inj h
  exact ⟨⟨_, hne, fun c hc => List.mem_takeWhile_imp hc⟩, rfl,
    (List.takeWhile_append_dropWhile).symm⟩

theorem exists_exponent {c : Char} {cs rest : List Char} {v : Int} (hc : c = 'e' ∨ c = 'E')
    (h : Numeral.exponent? (c :: cs) = some (v, rest)) :
    ∃ e : Exponent, c :: cs = e.chars ++ rest := by
  obtain ⟨sign, hsign⟩ : ∃ sign, ∀ digits : Digits,
      cs = (Exponent.mk (c == 'E') sign digits).signChars ++ (Numeral.spanSign cs).2 := by
    unfold Numeral.spanSign
    split
    · exact ⟨some true, fun _ => rfl⟩
    · exact ⟨some false, fun _ => rfl⟩
    · exact ⟨none, fun _ => rfl⟩
  rw [Numeral.exponent?, if_pos hc] at h
  dsimp only at h
  split at h
  next => cases h
  next ds rest' hne hspan =>
    obtain ⟨-, rfl⟩ := Prod.mk.inj (Option.some.inj h)
    obtain ⟨digits, rfl, heq⟩ := exists_digits hspan hne
    refine ⟨⟨c == 'E', sign, digits⟩, ?_⟩
    have hmark : (Exponent.mk (c == 'E') sign digits).mark = c := by
      rcases hc with rfl | rfl <;> rfl
    rw [Exponent.chars, hmark, List.cons_append, List.append_assoc, ← heq, ← hsign digits]

theorem exists_places {cs rest : List Char} {places : Option (List Char)}
    (h : Strict.places? cs = some (places, rest)) :
    ∃ p : Option Digits, cs = p.elim [] (fun ds => '.' :: ds.chars) ++ rest := by
  unfold Strict.places? at h
  split at h
  next cs =>
    split at h
    next => cases h
    next ds rest' hne hspan =>
      obtain ⟨-, rfl⟩ := Prod.mk.inj (Option.some.inj h)
      obtain ⟨digits, rfl, heq⟩ := exists_digits hspan hne
      exact ⟨some digits, congrArg (List.cons '.') heq⟩
  next =>
    obtain ⟨-, rfl⟩ := Prod.mk.inj (Option.some.inj h)
    exact ⟨none, rfl⟩

theorem exists_power {cs rest : List Char} {power : Option Int}
    (h : Strict.power? cs = some (power, rest)) :
    ∃ e : Option Exponent, cs = e.elim [] Exponent.chars ++ rest := by
  unfold Strict.power? at h
  split at h
  next c cs =>
    split_ifs at h with hc
    · obtain ⟨⟨v, rest'⟩, hexponent, h⟩ := Option.map_eq_some_iff.1 h
      obtain ⟨-, rfl⟩ := Prod.mk.inj h
      obtain ⟨e, he⟩ := exists_exponent hc hexponent
      exact ⟨some e, he⟩
    · obtain ⟨-, rfl⟩ := Prod.mk.inj (Option.some.inj h)
      exact ⟨none, rfl⟩
  next =>
    obtain ⟨-, rfl⟩ := Prod.mk.inj (Option.some.inj h)
    exact ⟨none, rfl⟩

theorem exists_numeral {cs rest : List Char} {n : Node} (h : Strict.number? cs = some (n, rest)) :
    ∃ t : NumberToken, cs = t.chars ++ rest := by
  obtain ⟨negative, hminus⟩ : ∃ negative : Bool,
      cs = (if negative then ['-'] else []) ++ (Strict.spanMinus cs).2 := by
    unfold Strict.spanMinus
    split
    · exact ⟨true, rfl⟩
    · exact ⟨false, rfl⟩
  unfold Strict.number? at h
  dsimp only at h
  split at h
  next => cases h
  next => cases h
  next whole cs₁ hne hzero hspan =>
    obtain ⟨⟨places, cs₂⟩, hplaces, h⟩ := Option.bind_eq_some_iff.1 h
    obtain ⟨⟨power, rest'⟩, hpower, h⟩ := Option.bind_eq_some_iff.1 h
    obtain ⟨-, rfl⟩ := Prod.mk.inj (Option.some.inj h)
    obtain ⟨digits, rfl, hwhole⟩ := exists_digits hspan hne
    obtain ⟨p, rfl⟩ := exists_places hplaces
    obtain ⟨e, rfl⟩ := exists_power hpower
    have hleading : ∀ ds, digits.chars = '0' :: ds → ds = [] := by
      intro ds hds
      cases ds with
      | nil => rfl
      | cons d ds => exact (hzero d ds hds).elim
    refine ⟨⟨negative, digits, p, e, hleading⟩, ?_⟩
    rw [hminus, hwhole]
    unfold NumberToken.chars NumberToken.signChars NumberToken.placesChars NumberToken.powerChars
    cases p <;> cases e <;> simp

/-! ### Strings -/

/-- The string in front of which a part is put. -/
theorem exists_parts_cons {p : Relaxed.Part} (hp : Part.WellSpelled p) {cs rest : List Char}
    (h : ∃ parts : List Relaxed.Part, (∀ p ∈ parts, Part.WellSpelled p) ∧
      cs = StringToken.charsOf parts ++ rest) :
    ∃ parts : List Relaxed.Part, (∀ p ∈ parts, Part.WellSpelled p) ∧
      Part.chars p ++ cs = StringToken.charsOf parts ++ rest := by
  obtain ⟨parts, hparts, rfl⟩ := h
  refine ⟨p :: parts, List.forall_mem_cons.2 ⟨hp, hparts⟩, ?_⟩
  rw [StringToken.charsOf_cons, List.append_assoc]

theorem exists_parts {cs rest : List Char} {ps : List Strict.Piece}
    (h : Strict.pieces? cs = some (ps, rest)) :
    ∃ parts : List Relaxed.Part, (∀ p ∈ parts, Part.WellSpelled p) ∧
      cs = StringToken.charsOf parts ++ rest := by
  fun_induction Strict.pieces? cs generalizing ps with
  | case1 => cases h
  | case2 cs =>
    obtain ⟨-, rfl⟩ := Prod.mk.inj (Option.some.inj h)
    exact ⟨[], by simp, rfl⟩
  | case3 a b c d cs ih =>
    obtain ⟨n, hn, h⟩ := Option.bind_eq_some_iff.1 h
    obtain ⟨⟨qs, rest'⟩, hqs, h⟩ := Option.bind_eq_some_iff.1 h
    obtain ⟨-, rfl⟩ := Prod.mk.inj (Option.some.inj h)
    have hdigits : [a, b, c, d].all Relaxed.isHexDigit = true := by
      rw [← isSome_natIn? (by simp)]
      exact Option.isSome_iff_exists.2 ⟨n, hn⟩
    exact exists_parts_cons (p := .code [a, b, c, d]) ⟨rfl, hdigits⟩ (ih hqs)
  | case4 e cs _ ih =>
    obtain ⟨c, hc, h⟩ := Option.bind_eq_some_iff.1 h
    obtain ⟨⟨qs, rest'⟩, hqs, h⟩ := Option.bind_eq_some_iff.1 h
    obtain ⟨-, rfl⟩ := Prod.mk.inj (Option.some.inj h)
    exact exists_parts_cons (p := .escape e) (Option.isSome_iff_exists.2 ⟨c, hc⟩) (ih hqs)
  | case5 => cases h
  | case6 c cs hquote _ hescape _ hc =>
    rename_i ih
    obtain ⟨⟨qs, rest'⟩, hqs, h⟩ := Option.bind_eq_some_iff.1 h
    obtain ⟨-, rfl⟩ := Prod.mk.inj (Option.some.inj h)
    have hbackslash : c ≠ '\\' := by
      intro hc
      cases cs with
      | nil => cases hqs
      | cons e cs => exact hescape e cs hc rfl
    exact exists_parts_cons (p := .char c) ⟨hquote, hbackslash, Nat.not_lt.1 hc⟩ (ih hqs)

theorem exists_string {cs rest : List Char} {ps : List Strict.Piece}
    (h : Strict.pieces? cs = some (ps, rest)) :
    ∃ t : StringToken, cs = StringToken.charsOf t.parts ++ rest := by
  obtain ⟨parts, hparts, hcs⟩ := exists_parts h
  exact ⟨⟨parts, hparts⟩, hcs⟩

/-! ### Texts -/

/-- Whether a text consists of tokens with blanks between them. -/
def Tokenized (cs : List Char) : Prop := Commented (fun _ => True) cs cs

namespace Tokenized

variable {cs rest : List Char}

theorem token (t : Token) (ht : t.RunsOn → Stops rest) (h : Tokenized rest) :
    Tokenized (t.chars ++ rest) :=
  Commented.token trivial ht h

theorem of_skipSpace (h : Tokenized (Strict.skipSpace cs)) : Tokenized cs := by
  induction cs with
  | nil => exact .done
  | cons c cs ih =>
    cases hc : isBlank c with
    | true =>
      rw [skipSpace_blank hc] at h
      exact .blank hc (ih h)
    | false => rwa [skipSpace_cons hc] at h

/-- In front of a mark there are tokens, and none runs on. -/
theorem before_mark {m : Mark} (hcs : Strict.skipSpace cs = m.char :: rest) (h : Tokenized rest) :
    Stops cs ∧ Tokenized cs := by
  have hmark : isWord m.char = false := by cases m <;> decide
  constructor
  · refine Stops.of_skipSpace ?_
    rw [hcs]
    exact stops_cons hmark rest
  · refine of_skipSpace ?_
    rw [hcs]
    exact token (.mark m) nofun h

/-- A text of blanks consists of no tokens. -/
theorem of_blank (hcs : Strict.skipSpace cs = []) : Stops cs ∧ Tokenized cs := by
  constructor
  · refine Stops.of_skipSpace ?_
    rw [hcs]
    exact stops_nil
  · refine of_skipSpace ?_
    rw [hcs]
    exact .done

end Tokenized

theorem expect?_eq_some {w cs rest : List Char} (h : Strict.expect? w cs = some rest) :
    cs = w ++ rest := by
  induction w generalizing cs with
  | nil => exact Option.some.inj h
  | cons c w ih =>
    cases cs with
    | nil => cases h
    | cons d cs =>
      rw [Strict.expect?] at h
      split_ifs at h with hc
      rw [hc, ih h]
      rfl

/-- What the readers of values, items and members take consists of tokens, if what they leave
does. -/
structure TakesTokens (fuel : Nat) : Prop where
  value : ∀ {depth : Nat} {cs rest : List Char} {n : Node},
    Strict.value? fuel depth cs = some (n, rest) → Stops rest → Tokenized rest → Tokenized cs
  items : ∀ {depth : Nat} {cs rest : List Char} {ns : List Node},
    Strict.items? fuel depth cs = some (ns, rest) → Tokenized rest → Tokenized cs
  members : ∀ {depth : Nat} {cs rest : List Char} {es : List (Node × Node)},
    Strict.members? fuel depth cs = some (es, rest) → Tokenized rest → Tokenized cs

namespace TakesTokens

open Tokenized

variable {fuel depth : Nat} {cs rest : List Char}

theorem value_succ (h : TakesTokens fuel) {n : Node}
    (hn : Strict.value? (fuel + 1) depth cs = some (n, rest)) (hstops : Stops rest)
    (hrest : Tokenized rest) : Tokenized cs := by
  refine of_skipSpace ?_
  unfold Strict.value? at hn
  split at hn
  next tail heq =>
    obtain ⟨⟨ps, rest'⟩, hps, hn⟩ := Option.map_eq_some_iff.1 hn
    obtain ⟨-, rfl⟩ := Prod.mk.inj hn
    obtain ⟨t, rfl⟩ := exists_string hps
    rw [heq]
    exact token (.string t) nofun hrest
  next tail heq =>
    obtain ⟨rest', hword, hn⟩ := Option.map_eq_some_iff.1 hn
    obtain ⟨-, rfl⟩ := Prod.mk.inj hn
    rw [heq, expect?_eq_some hword]
    exact token (.word .yes) (fun _ => hstops) hrest
  next tail heq =>
    obtain ⟨rest', hword, hn⟩ := Option.map_eq_some_iff.1 hn
    obtain ⟨-, rfl⟩ := Prod.mk.inj hn
    rw [heq, expect?_eq_some hword]
    exact token (.word .no) (fun _ => hstops) hrest
  next tail heq =>
    obtain ⟨rest', hword, hn⟩ := Option.map_eq_some_iff.1 hn
    obtain ⟨-, rfl⟩ := Prod.mk.inj hn
    rw [heq, expect?_eq_some hword]
    exact token (.word .null) (fun _ => hstops) hrest
  next tail heq =>
    rw [heq]
    refine token (.mark .openList) nofun (of_skipSpace ?_)
    split at hn
    next rest' hclose =>
      obtain ⟨-, rfl⟩ := Prod.mk.inj (Option.some.inj hn)
      rw [hclose]
      exact token (.mark .closeList) nofun hrest
    next =>
      obtain ⟨⟨ns, rest'⟩, hns, hn⟩ := Option.map_eq_some_iff.1 hn
      obtain ⟨-, rfl⟩ := Prod.mk.inj hn
      exact h.items hns hrest
  next tail heq =>
    rw [heq]
    refine token (.mark .openMap) nofun (of_skipSpace ?_)
    split at hn
    next rest' hclose =>
      obtain ⟨-, rfl⟩ := Prod.mk.inj (Option.some.inj hn)
      rw [hclose]
      exact token (.mark .closeMap) nofun hrest
    next =>
      obtain ⟨⟨es, rest'⟩, hes, hn⟩ := Option.map_eq_some_iff.1 hn
      obtain ⟨-, rfl⟩ := Prod.mk.inj hn
      exact h.members hes hrest
  next =>
    obtain ⟨t, ht⟩ := exists_numeral hn
    rw [ht]
    exact token (.number t) (fun _ => hstops) hrest

theorem items_succ (h : TakesTokens fuel) {ns : List Node}
    (hns : Strict.items? (fuel + 1) depth cs = some (ns, rest)) (hrest : Tokenized rest) :
    Tokenized cs := by
  rw [Strict.items?] at hns
  obtain ⟨⟨n, cs₁⟩, hn, hns⟩ := Option.bind_eq_some_iff.1 hns
  dsimp only at hns
  split at hns
  next cs₂ hcomma =>
    obtain ⟨⟨ns, rest'⟩, hmore, hns⟩ := Option.bind_eq_some_iff.1 hns
    obtain ⟨-, rfl⟩ := Prod.mk.inj (Option.some.inj hns)
    obtain ⟨hstops, htail⟩ := @before_mark cs₁ cs₂ .comma hcomma (h.items hmore hrest)
    exact h.value hn hstops htail
  next cs₂ hclose =>
    obtain ⟨-, rfl⟩ := Prod.mk.inj (Option.some.inj hns)
    obtain ⟨hstops, htail⟩ := @before_mark cs₁ cs₂ .closeList hclose hrest
    exact h.value hn hstops htail
  next => cases hns

theorem members_succ (h : TakesTokens fuel) {es : List (Node × Node)}
    (hes : Strict.members? (fuel + 1) depth cs = some (es, rest)) (hrest : Tokenized rest) :
    Tokenized cs := by
  rw [Strict.members?] at hes
  split at hes
  next tail hquote =>
    obtain ⟨⟨ps, cs₁⟩, hps, hes⟩ := Option.bind_eq_some_iff.1 hes
    obtain ⟨key, hkey⟩ := exists_string hps
    dsimp only at hes
    split at hes
    next cs₂ hcolon =>
      obtain ⟨⟨n, cs₃⟩, hn, hes⟩ := Option.bind_eq_some_iff.1 hes
      have hvalue : Stops cs₃ ∧ Tokenized cs₃ := by
        dsimp only at hes
        split at hes
        next cs₄ hcomma =>
          obtain ⟨⟨es, rest'⟩, hmore, hes⟩ := Option.bind_eq_some_iff.1 hes
          obtain ⟨-, rfl⟩ := Prod.mk.inj (Option.some.inj hes)
          exact @before_mark cs₃ cs₄ .comma hcomma (h.members hmore hrest)
        next cs₄ hclose =>
          obtain ⟨-, rfl⟩ := Prod.mk.inj (Option.some.inj hes)
          exact @before_mark cs₃ cs₄ .closeMap hclose hrest
        next => cases hes
      obtain ⟨-, htail⟩ := @before_mark cs₁ cs₂ .colon hcolon (h.value hn hvalue.1 hvalue.2)
      refine of_skipSpace ?_
      rw [hquote, hkey]
      exact token (.string key) nofun htail
    next => cases hes
  next => cases hes

end TakesTokens

/-- Every run of the strict reader takes tokens. -/
theorem takesTokens (fuel : Nat) : TakesTokens fuel := by
  induction fuel with
  | zero => exact ⟨nofun, nofun, nofun⟩
  | succ fuel ih => exact ⟨ih.value_succ, ih.items_succ, ih.members_succ⟩

/-- Every text that is read consists of tokens with blanks between them. -/
theorem commented_self {text : String} {n : Node} (h : Strict.node? text = some n) :
    Commented (fun _ => True) text.toList text.toList := by
  obtain ⟨⟨n', rest⟩, hvalue, hend⟩ := Option.bind_eq_some_iff.1 h
  dsimp only at hend
  split at hend
  next hnil =>
    obtain ⟨hstops, hrest⟩ := Tokenized.of_blank hnil
    exact (takesTokens _).value hvalue hstops hrest
  next => cases hend

end LintConfig.Json
