import LintConfig.Json.Relaxed
import Mathlib.Tactic.SplitIfs

/-!
# Numerals that both readers know

A `NumberToken` is a numeral by the grammar of strict JSON.  The strict reader and the relaxed one
take the same characters of a text for it (`NumberToken.strict_eq`, `NumberToken.relaxed_eq`), and
give it the same number, or one a whole double and the other the integer that it is
(`NumberToken.exists_number`).
-/

namespace LintConfig.Json

/-- Whether a character can go on with a word or a numeral. -/
def isWord (c : Char) : Bool := c.isAlphanum || c == '+' || c == '-' || c == '.'

/-- A text that does not go on with a word. -/
def Stops (cs : List Char) : Prop := ∀ c ∈ cs.head?, isWord c = false

theorem stops_nil : Stops [] := by simp [Stops]

/-- A text that does not go on with a word does not go on with an exponent. -/
theorem Stops.not_mark {c : Char} {cs : List Char} (h : Stops (c :: cs)) :
    ¬ (c = 'e' ∨ c = 'E') := by
  have hc : isWord c = false := h c rfl
  rintro (rfl | rfl) <;> simp [isWord] at hc

/-- At least one decimal digit. -/
structure Digits where
  chars : List Char
  ne_nil : chars ≠ []
  isDigit : ∀ c ∈ chars, c.isDigit = true

/-- The exponent of a numeral. -/
structure Exponent where
  upper : Bool
  /-- A sign, and whether it is a minus. -/
  sign : Option Bool
  digits : Digits

/-- A numeral as strict JSON spells it. -/
structure NumberToken where
  negative : Bool
  whole : Digits
  places : Option Digits
  power : Option Exponent
  /-- A zero in front stands alone. -/
  leading : ∀ cs, whole.chars = '0' :: cs → cs = []

namespace Digits

theorem spanDigits_append (ds : Digits) {cs : List Char} (h : ∀ c ∈ cs.head?, c.isDigit = false) :
    Numeral.spanDigits (ds.chars ++ cs) = (ds.chars, cs) := by
  unfold Numeral.spanDigits
  rw [List.takeWhile_append_of_pos ds.isDigit, List.dropWhile_append_of_pos ds.isDigit]
  cases cs with
  | nil => simp
  | cons c cs =>
    have hc : c.isDigit = false := h c rfl
    simp [hc]

/-- Digits start with a digit. -/
theorem exists_eq_cons (ds : Digits) : ∃ d rest, ds.chars = d :: rest ∧ d.isDigit = true := by
  cases h : ds.chars with
  | nil => exact absurd h ds.ne_nil
  | cons d rest => exact ⟨d, rest, rfl, ds.isDigit d (by simp [h])⟩

end Digits

namespace Exponent

/-- The characters of the sign. -/
def signChars (e : Exponent) : List Char :=
  match e.sign with
  | none => []
  | some true => ['-']
  | some false => ['+']

/-- The mark. -/
def mark (e : Exponent) : Char := if e.upper then 'E' else 'e'

/-- The characters of the exponent. -/
def chars (e : Exponent) : List Char := e.mark :: (e.signChars ++ e.digits.chars)

/-- The power of ten. -/
def value (e : Exponent) : Int :=
  if e.sign = some true then -(Numeral.digitsValue e.digits.chars : Int)
  else Numeral.digitsValue e.digits.chars

end Exponent

/-- A digit is no sign, no point and no mark of an exponent. -/
theorem ne_of_isDigit {d c : Char} (hd : d.isDigit = true) (hc : c.isDigit = false) : d ≠ c := by
  rintro rfl
  simp [hd] at hc

theorem isDigit_eq_false_of_stops {cs : List Char} (h : Stops cs) :
    ∀ c ∈ cs.head?, c.isDigit = false := by
  intro c hc
  have hword := h c hc
  simp only [isWord, Char.isAlphanum, Bool.or_eq_false_iff] at hword
  exact hword.1.1.1.2

theorem isDigit_head_append (ds : Digits) (cs : List Char) :
    ∀ c ∈ (ds.chars ++ cs).head?, c.isDigit = true := by
  obtain ⟨d, rest, hd, hdigit⟩ := ds.exists_eq_cons
  simp [hd, hdigit]

theorem spanSign_of_isDigit {cs : List Char} (h : ∀ c ∈ cs.head?, c.isDigit = true) :
    Relaxed.spanSign cs = ([], cs) := by
  unfold Relaxed.spanSign
  split
  · exact absurd (h '+' rfl) (by decide)
  · exact absurd (h '-' rfl) (by decide)
  · rfl

theorem numeralSign_of_isDigit {cs : List Char} (h : ∀ c ∈ cs.head?, c.isDigit = true) :
    Numeral.spanSign cs = (false, cs) := by
  unfold Numeral.spanSign
  split
  · exact absurd (h '-' rfl) (by decide)
  · exact absurd (h '+' rfl) (by decide)
  · rfl

namespace Exponent

theorem mark_eq (e : Exponent) : e.mark = 'e' ∨ e.mark = 'E' := by
  unfold mark
  cases e.upper <;> simp

theorem spanSign_eq (e : Exponent) (cs : List Char) :
    Relaxed.spanSign (e.signChars ++ (e.digits.chars ++ cs)) =
      (e.signChars, e.digits.chars ++ cs) := by
  unfold signChars
  rcases e.sign with _ | _ | _
  · exact spanSign_of_isDigit (isDigit_head_append e.digits cs)
  · rfl
  · rfl

theorem numeralSign_eq (e : Exponent) (cs : List Char) :
    Numeral.spanSign (e.signChars ++ (e.digits.chars ++ cs)) =
      (decide (e.sign = some true), e.digits.chars ++ cs) := by
  unfold signChars
  rcases e.sign with _ | _ | _
  · exact numeralSign_of_isDigit (isDigit_head_append e.digits cs)
  · rfl
  · rfl

theorem exponent?_eq (e : Exponent) {cs : List Char} (h : Stops cs) :
    Numeral.exponent? (e.chars ++ cs) = some (e.value, cs) := by
  have hspan := e.digits.spanDigits_append (isDigit_eq_false_of_stops h)
  obtain ⟨d, rest, hd, -⟩ := e.digits.exists_eq_cons
  rw [chars, List.cons_append, List.append_assoc, Numeral.exponent?, if_pos e.mark_eq]
  simp only [e.numeralSign_eq, hspan]
  simp [hd, value]

end Exponent

namespace NumberToken

/-- The characters of the sign. -/
def signChars (t : NumberToken) : List Char := if t.negative then ['-'] else []

/-- The characters of the places behind the point, and of the point. -/
def placesChars (t : NumberToken) : List Char :=
  match t.places with
  | none => []
  | some ds => '.' :: ds.chars

/-- The characters of the exponent. -/
def powerChars (t : NumberToken) : List Char :=
  match t.power with
  | none => []
  | some e => e.chars

/-- The numeral as it is spelled. -/
def chars (t : NumberToken) : List Char :=
  t.signChars ++ (t.whole.chars ++ (t.placesChars ++ t.powerChars))

/-- The digits behind the point. -/
def placesDigits? (t : NumberToken) : Option (List Char) := t.places.map Digits.chars

/-- The power of ten of the exponent. -/
def power? (t : NumberToken) : Option Int := t.power.map Exponent.value

/-- The node that the strict reader makes of the numeral. -/
def strictNode (t : NumberToken) : Node :=
  Strict.numeralNode t.negative t.whole.chars t.placesDigits? t.power?

variable (t : NumberToken)

theorem isDigit_head_power {cs : List Char} (h : Stops cs) :
    ∀ c ∈ (t.powerChars ++ cs).head?, c.isDigit = false := by
  unfold powerChars
  cases t.power with
  | none => exact isDigit_eq_false_of_stops h
  | some e => rcases e.mark_eq with hm | hm <;> simp [Exponent.chars, hm]

theorem isDigit_head_places {cs : List Char} (h : Stops cs) :
    ∀ c ∈ (t.placesChars ++ (t.powerChars ++ cs)).head?, c.isDigit = false := by
  unfold placesChars
  cases t.places with
  | none => exact t.isDigit_head_power h
  | some ds => simp

theorem power?_eq {cs : List Char} (h : Stops cs) :
    Strict.power? (t.powerChars ++ cs) = some (t.power?, cs) := by
  unfold powerChars power?
  cases t.power with
  | none =>
    cases cs with
    | nil => rfl
    | cons c cs =>
      rw [List.nil_append, Strict.power?, if_neg h.not_mark]
      rfl
  | some e =>
    have he := e.exponent?_eq h
    change Strict.power? (e.mark :: (e.signChars ++ e.digits.chars ++ cs)) = _
    rw [Strict.power?, if_pos e.mark_eq]
    change (Numeral.exponent? (e.chars ++ cs)).map _ = _
    rw [he]
    rfl

theorem point_notMem_head_power {cs : List Char} (h : Stops cs) :
    '.' ∉ (t.powerChars ++ cs).head? := by
  unfold powerChars
  cases t.power with
  | none => exact fun hc => absurd (h '.' hc) (by decide)
  | some e => rcases e.mark_eq with hm | hm <;> simp [Exponent.chars, hm]

theorem places?_eq {cs : List Char} (h : Stops cs) :
    Strict.places? (t.placesChars ++ (t.powerChars ++ cs)) =
      some (t.placesDigits?, t.powerChars ++ cs) := by
  unfold placesChars placesDigits?
  cases t.places with
  | none =>
    have hpoint := t.point_notMem_head_power h
    rw [List.nil_append]
    unfold Strict.places?
    split
    next heq => simp [heq] at hpoint
    next => rfl
  | some ds =>
    have hspan := ds.spanDigits_append (t.isDigit_head_power h)
    obtain ⟨d, rest, hd, -⟩ := ds.exists_eq_cons
    change Strict.places? ('.' :: (ds.chars ++ (t.powerChars ++ cs))) = _
    rw [Strict.places?, hspan]
    simp [hd]

theorem spanMinus_eq (cs : List Char) : Strict.spanMinus (t.signChars ++ (t.whole.chars ++ cs)) =
    (t.negative, t.whole.chars ++ cs) := by
  unfold signChars
  cases t.negative with
  | true => rfl
  | false =>
    have hhead := isDigit_head_append t.whole cs
    simp only [Bool.false_eq_true, if_false, List.nil_append]
    unfold Strict.spanMinus
    split
    next heq => exact absurd (hhead '-' (by simp [heq])) (by decide)
    next => rfl

/-- The strict reader takes a numeral for what it is. -/
theorem strict_eq {cs : List Char} (h : Stops cs) :
    Strict.number? (t.chars ++ cs) = some (t.strictNode, cs) := by
  have hwhole := t.whole.spanDigits_append (t.isDigit_head_places h)
  unfold Strict.number? chars
  simp only [List.append_assoc, spanMinus_eq, hwhole]
  split
  next heq => exact absurd (Prod.ext_iff.1 heq).1 t.whole.ne_nil
  next heq => exact absurd (t.leading _ (Prod.ext_iff.1 heq).1) (by simp)
  next heq =>
    obtain ⟨rfl, rfl⟩ := Prod.mk.inj heq
    simp [t.places?_eq h, t.power?_eq h, strictNode]

/-! ### The relaxed reader -/

theorem spanExponent_eq {cs : List Char} (h : Stops cs) :
    Relaxed.spanExponent (t.powerChars ++ cs) = (t.powerChars, cs) := by
  unfold powerChars
  cases t.power with
  | none =>
    cases cs with
    | nil => rfl
    | cons c cs =>
      rw [List.nil_append, Relaxed.spanExponent, if_neg h.not_mark]
  | some e =>
    have hspan := e.digits.spanDigits_append (isDigit_eq_false_of_stops h)
    obtain ⟨d, rest, hd, -⟩ := e.digits.exists_eq_cons
    change Relaxed.spanExponent (e.mark :: (e.signChars ++ e.digits.chars ++ cs)) = _
    rw [Relaxed.spanExponent, if_pos e.mark_eq, List.append_assoc, e.spanSign_eq]
    simp only [hspan]
    simp [hd, Exponent.chars]

theorem spanWhole_eq {cs : List Char} (h : ∀ c ∈ cs.head?, c.isDigit = false) :
    Relaxed.spanWhole (t.whole.chars ++ cs) = (t.whole.chars, cs) := by
  have hspan := t.whole.spanDigits_append h
  obtain ⟨d, rest, hd, -⟩ := t.whole.exists_eq_cons
  by_cases hzero : d = '0'
  · subst hzero
    obtain rfl := t.leading rest hd
    rw [hd]
    rfl
  · rw [hd] at hspan ⊢
    simpa [Relaxed.spanWhole, hzero] using hspan

theorem decimal?_eq {cs : List Char} (h : Stops cs) :
    Relaxed.decimal? (t.whole.chars ++ (t.placesChars ++ (t.powerChars ++ cs))) =
      some (t.whole.chars ++ (t.placesChars ++ t.powerChars), cs) := by
  have hwhole := t.spanWhole_eq (t.isDigit_head_places h)
  obtain ⟨d, rest, hd, -⟩ := t.whole.exists_eq_cons
  unfold Relaxed.decimal?
  rw [hwhole, hd]
  unfold placesChars
  cases t.places with
  | none =>
    have hpoint := t.point_notMem_head_power h
    rw [List.nil_append]
    split
    next heq => simp at heq
    next heq => simp at heq
    next heq =>
      obtain ⟨-, heq⟩ := Prod.mk.inj heq
      simp [heq] at hpoint
    next heq =>
      obtain ⟨rfl, rfl⟩ := Prod.mk.inj heq
      simp [t.spanExponent_eq h]
  | some ds =>
    have hspan := ds.spanDigits_append (t.isDigit_head_power h)
    simp [hspan, t.spanExponent_eq h]

theorem head_places {cs : List Char} (h : Stops cs) {c : Char}
    (hc : c ∈ (t.placesChars ++ (t.powerChars ++ cs)).head?) :
    c = '.' ∨ c = 'e' ∨ c = 'E' ∨ isWord c = false := by
  unfold placesChars at hc
  cases hp : t.places with
  | some ds =>
    simp [hp] at hc
    exact .inl hc.symm
  | none =>
    unfold powerChars at hc
    cases he : t.power with
    | some e =>
      obtain rfl : e.mark = c := by simpa [hp, he, Exponent.chars] using hc
      rcases e.mark_eq with hm | hm
      · exact .inr (.inl hm)
      · exact .inr (.inr (.inl hm))
    | none => exact .inr (.inr (.inr (h c (by simpa [hp, he] using hc))))

/-- A zero is not the start of a hexadecimal numeral. -/
theorem not_hex {cs : List Char} (h : Stops cs) {x : Char} {rest : List Char}
    (heq : t.whole.chars ++ (t.placesChars ++ (t.powerChars ++ cs)) = '0' :: x :: rest) :
    ¬ (x = 'x' ∨ x = 'X') := by
  obtain ⟨d, ds, hd, -⟩ := t.whole.exists_eq_cons
  rw [hd, List.cons_append, List.cons.injEq] at heq
  obtain ⟨rfl, heq⟩ := heq
  obtain rfl := t.leading ds hd
  rw [List.nil_append] at heq
  have hx : x = '.' ∨ x = 'e' ∨ x = 'E' ∨ isWord x = false := t.head_places h (by simp [heq])
  rintro (rfl | rfl) <;> simp [isWord] at hx

theorem unsigned?_eq {cs : List Char} (h : Stops cs) :
    Relaxed.unsigned? (t.whole.chars ++ (t.placesChars ++ (t.powerChars ++ cs))) =
      some (t.whole.chars ++ (t.placesChars ++ t.powerChars), cs) := by
  have hdecimal := t.decimal?_eq h
  have hhex (x : Char) (rest : List Char) := @t.not_hex cs h x rest
  have hhead := isDigit_head_append t.whole (t.placesChars ++ (t.powerChars ++ cs))
  generalize t.whole.chars ++ (t.placesChars ++ (t.powerChars ++ cs)) = text at *
  have hword (w : List Char) (c : Char) (hc : c.isDigit = false) :
      Strict.expect? (c :: w) text = none := by
    cases text with
    | nil => rfl
    | cons d ds =>
      have hne : c ≠ d := (ne_of_isDigit (hhead d rfl) hc).symm
      simp [Strict.expect?, hne]
  have hinfinity : Strict.expect? "Infinity".toList text = none :=
    hword "nfinity".toList 'I' (by decide)
  have hnan : Strict.expect? "NaN".toList text = none := hword "aN".toList 'N' (by decide)
  unfold Relaxed.unsigned?
  rw [hinfinity, hnan, hdecimal]
  dsimp only
  split
  next r heq =>
    -- a hexadecimal numeral would need an `x` behind the zero
    split at heq
    next x rest =>
      rw [if_neg (hhex _ _ rfl)] at heq
      cases heq
    next => cases heq
  next => rfl

theorem relaxedSign_eq (cs : List Char) :
    Relaxed.spanSign (t.signChars ++ (t.whole.chars ++ cs)) =
      (t.signChars, t.whole.chars ++ cs) := by
  unfold signChars
  cases t.negative with
  | true => rfl
  | false => exact spanSign_of_isDigit (isDigit_head_append t.whole cs)

/-- The relaxed reader takes the same characters for the numeral. -/
theorem relaxed_eq {cs : List Char} (h : Stops cs) :
    Relaxed.numeral? (t.chars ++ cs) = some (t.chars, cs) := by
  unfold Relaxed.numeral? chars
  simp [List.append_assoc, t.relaxedSign_eq, t.unsigned?_eq h]

end NumberToken

/-! ### The number of a numeral -/

theorem digit?_of_isDigit {c : Char} (h : c.isDigit = true) :
    Yaml.digit? 10 c = some (c.toNat - '0'.toNat) := by
  have hbounds : c.toNat - '0'.toNat < 10 := by
    simp only [Char.isDigit, Bool.and_eq_true, decide_eq_true_eq, ge_iff_le] at h
    have hle : c.toNat ≤ 57 := h.2
    have hzero : '0'.toNat = 48 := rfl
    omega
  unfold Yaml.digit?
  simp only [h, if_true]
  exact if_pos hbounds

theorem Digits.natIn?_eq (ds : Digits) :
    Yaml.natIn? 10 ds.chars = some (Numeral.digitsValue ds.chars) := by
  have hfold (cs : List Char) (hcs : ∀ c ∈ cs, c.isDigit = true) (n : Nat) :
      cs.foldl (fun acc c => do return 10 * (← acc) + (← Yaml.digit? 10 c)) (some n) =
        some (cs.foldl (fun n c => 10 * n + (c.toNat - '0'.toNat)) n) := by
    induction cs generalizing n with
    | nil => rfl
    | cons c cs ih =>
      rw [List.forall_mem_cons] at hcs
      rw [List.foldl_cons, List.foldl_cons, digit?_of_isDigit hcs.1]
      exact ih hcs.2 _
  obtain ⟨d, rest, hd, -⟩ := ds.exists_eq_cons
  have hdigits := hfold ds.chars ds.isDigit 0
  rw [hd] at hdigits ⊢
  exact hdigits

namespace NumberToken

variable (t : NumberToken)

/-- Whether there is neither a point nor an exponent. -/
def isInteger : Bool := t.places.isNone && t.power.isNone

/-- The value of an integer. -/
def integer : Int :=
  if t.negative then -(Numeral.digitsValue t.whole.chars : Int)
  else Numeral.digitsValue t.whole.chars

/-- The value of any other numeral. -/
def numeral : Numeral where
  negative := t.negative
  digits := Numeral.digitsValue (t.whole.chars ++ t.placesDigits?.getD [])
  power := t.power?.getD 0 - (t.placesDigits?.getD []).length

theorem exists_chars : ∃ d rest, t.chars = t.signChars ++ d :: rest ∧ d.isDigit = true := by
  obtain ⟨d, rest, hd, hdigit⟩ := t.whole.exists_eq_cons
  exact ⟨d, rest ++ (t.placesChars ++ t.powerChars), by simp [chars, hd], hdigit⟩

theorem isSpecial_eq : Relaxed.isSpecial t.chars = false := by
  obtain ⟨d, rest, ht, hdigit⟩ := t.exists_chars
  have hne (c : Char) (hc : c.isDigit = false) : d ≠ c := ne_of_isDigit hdigit hc
  have hofList (w : String) (hw : w.toList ≠ t.chars) : String.ofList t.chars ≠ w := by
    rintro rfl
    exact hw String.toList_ofList
  unfold Relaxed.isSpecial
  rw [List.contains_eq_mem, decide_eq_false_iff_not]
  simp only [List.mem_cons, List.not_mem_nil, or_false, not_or]
  refine ⟨hofList _ ?_, hofList _ ?_, hofList _ ?_, hofList _ ?_⟩ <;>
    rw [ht, signChars] <;> cases t.negative <;>
    simp [(hne 'I' rfl).symm, (hne 'N' rfl).symm, (hne '-' rfl).symm]

theorem isHex_eq : Relaxed.isHex t.chars = false := by
  unfold Relaxed.isHex
  split
  next c x tail heq =>
    cases hneg : t.negative with
    | true => simp [chars, signChars, hneg] at heq
    | false =>
      have hwhole : t.whole.chars ++ (t.placesChars ++ (t.powerChars ++ [])) =
          '0' :: c :: x :: tail := by
        simpa [chars, signChars, hneg] using heq
      have hnot := t.not_hex stops_nil hwhole
      simpa using hnot
  next => rfl

/-- The characters of digits are none of those that mark other numerals. -/
theorem contains_digits (ds : Digits) {c : Char} (hc : c.isDigit = false) :
    ds.chars.contains c = false := by
  rw [List.contains_eq_mem, decide_eq_false_iff_not]
  intro hmem
  simp [ds.isDigit c hmem] at hc

/-- Points and marks of exponents stand where they have a meaning only. -/
theorem contains_eq {c : Char} (hc : c.isDigit = false) (hplus : c ≠ '+') (hminus : c ≠ '-') :
    t.chars.contains c = ((t.places.isSome && c == '.') || t.power.any fun e => c == e.mark) := by
  have hdigits (ds : Digits) := contains_digits ds hc
  have hsign : t.signChars.contains c = false := by
    unfold signChars
    cases t.negative <;> simp [hminus]
  have hplaces : t.placesChars.contains c = (t.places.isSome && c == '.') := by
    unfold placesChars
    cases t.places <;> simp [List.contains_cons, hdigits, -List.contains_eq_mem]
  have hpower : t.powerChars.contains c = t.power.any fun e => c == e.mark := by
    unfold powerChars
    cases t.power with
    | none => rfl
    | some e =>
      have hsign : e.signChars.contains c = false := by
        unfold Exponent.signChars
        rcases e.sign with _ | _ | _ <;> simp [hplus, hminus]
      simp [Exponent.chars, List.contains_cons, List.contains_append, hsign, hdigits,
        -List.contains_eq_mem]
  simp only [chars, List.contains_append, hsign, hdigits, hplaces, hpower, Bool.false_or]

theorem isInteger_eq : Relaxed.isInteger t.chars = t.isInteger := by
  unfold Relaxed.isInteger isInteger
  rw [t.isSpecial_eq, t.isHex_eq, t.contains_eq rfl (by decide) (by decide),
    t.contains_eq rfl (by decide) (by decide), t.contains_eq rfl (by decide) (by decide)]
  rcases t.places with _ | ds <;> rcases t.power with _ | e
  · rfl
  · rcases e.mark_eq with hm | hm <;> simp [hm]
  · rfl
  · rcases e.mark_eq with hm | hm <;> simp [hm]

theorem spanSign_eq (cs : List Char) : Numeral.spanSign (t.signChars ++ (t.whole.chars ++ cs)) =
    (t.negative, t.whole.chars ++ cs) := by
  unfold signChars
  cases t.negative with
  | true => rfl
  | false => exact numeralSign_of_isDigit (isDigit_head_append t.whole cs)

theorem spanPlaces_eq {cs : List Char} (h : Stops cs) :
    Numeral.spanPlaces (t.placesChars ++ (t.powerChars ++ cs)) =
      (t.placesDigits?.getD [], t.powerChars ++ cs) := by
  unfold placesChars placesDigits?
  cases t.places with
  | none =>
    have hpoint := t.point_notMem_head_power h
    rw [List.nil_append]
    unfold Numeral.spanPlaces
    split
    next heq => simp [heq] at hpoint
    next => rfl
  | some ds => exact ds.spanDigits_append (t.isDigit_head_power h)

/-- The numeral is read as it is spelled. -/
theorem ofChars?_eq : Numeral.ofChars? t.chars = some t.numeral := by
  have hwhole := t.whole.spanDigits_append (t.isDigit_head_places stops_nil)
  have hplaces := t.spanPlaces_eq stops_nil
  rw [List.append_nil] at hwhole hplaces
  have hnonempty : t.whole.chars.isEmpty = false := by simpa using t.whole.ne_nil
  unfold Numeral.ofChars? chars
  simp only [spanSign_eq, hwhole, hplaces, hnonempty, Bool.false_and, Bool.false_eq_true, if_false]
  unfold numeral power? powerChars
  cases t.power with
  | none => simp
  | some e =>
    have hpower := e.exponent?_eq stops_nil
    rw [List.append_nil, Exponent.chars] at hpower
    simp [Exponent.chars, hpower]
    omega

/-- Whether both readers have a number for the numeral: an integer has to be a signed 64-bit one,
any other number in the range of doubles. -/
def Portable : Prop :=
  if t.isInteger then Number.minInt ≤ t.integer ∧ t.integer ≤ Number.maxSigned
  else t.numeral.toDouble.isFinite = true

variable {t}

theorem portable_iff_of_isInteger (h : t.isInteger = true) :
    t.Portable ↔ Number.minInt ≤ t.integer ∧ t.integer ≤ Number.maxSigned := by
  rw [Portable, if_pos h]

theorem portable_iff_of_not_isInteger (h : t.isInteger = false) :
    t.Portable ↔ t.numeral.toDouble.isFinite = true := by
  rw [Portable, if_neg (by simp [h])]

theorem isInteger_iff : t.isInteger = true ↔ t.places = none ∧ t.power = none := by
  rw [isInteger, Bool.and_eq_true, Option.isNone_iff_eq_none, Option.isNone_iff_eq_none]

theorem strictNode_of_isInteger (h : t.isInteger = true) :
    t.strictNode = Strict.integerNode t.negative (Numeral.digitsValue t.whole.chars) := by
  obtain ⟨hplaces, hpower⟩ := isInteger_iff.1 h
  rw [strictNode, placesDigits?, power?, hplaces, hpower]
  rfl

theorem strictNode_of_not_isInteger (h : t.isInteger = false) :
    t.strictNode = Strict.floatNode t.numeral := by
  unfold strictNode Strict.numeralNode
  split
  next hplaces hpower =>
    have hinteger := isInteger_iff (t := t)
    simp [placesDigits?] at hplaces
    simp [power?] at hpower
    simp [h, hplaces, hpower] at hinteger
  next => rfl

theorem relaxed_of_isInteger (h : t.isInteger = true) (hp : t.Portable) :
    Relaxed.number t.chars = .ok (.num (.int t.integer)) := by
  rw [portable_iff_of_isInteger h, integer] at hp
  obtain ⟨hplaces, hpower⟩ := isInteger_iff.1 h
  have hchars : t.chars = t.signChars ++ (t.whole.chars ++ []) := by
    rw [chars, placesChars, powerChars, hplaces, hpower]
    rfl
  have hsign : t.signChars = ['-'] ↔ t.negative = true := by
    unfold signChars
    cases t.negative <;> simp
  unfold Relaxed.number
  rw [t.isSpecial_eq, t.isHex_eq, t.isInteger_eq, h, hchars, t.relaxedSign_eq]
  simp [t.whole.natIn?_eq, hsign, hp, integer]

theorem relaxed_of_not_isInteger (h : t.isInteger = false) (hp : t.Portable) :
    Relaxed.number t.chars = .ok (.num (.float t.numeral.toDouble)) := by
  rw [portable_iff_of_not_isInteger h] at hp
  unfold Relaxed.number
  rw [t.isSpecial_eq, t.isHex_eq, t.isInteger_eq, h, t.ofChars?_eq]
  simp [hp]

theorem wholeNumber_zero (negative : Bool) :
    wholeNumber (.float (Double.zero negative)) = .int 0 := by
  cases negative <;> decide +kernel

/-- A negative zero is a double for the strict reader; any other signed 64-bit integer is one. -/
theorem exists_integer {negative : Bool} {n : Nat} {v : Int}
    (hv : v = if negative then -(n : Int) else n)
    (hbounds : Number.minInt ≤ v ∧ v ≤ Number.maxSigned) :
    ∃ x, Strict.integerNode negative n = .num x ∧ wholeNumber x = .int v := by
  have hmax : Number.maxSigned ≤ Number.maxInt := by decide
  unfold Strict.integerNode
  by_cases hzero : (negative && n == 0) = true
  · refine ⟨_, if_pos hzero, ?_⟩
    simp only [Bool.and_eq_true, beq_iff_eq] at hzero
    obtain rfl : v = 0 := by simp [hv, hzero]
    exact wholeNumber_zero true
  · refine ⟨.int v, ?_, rfl⟩
    rw [if_neg hzero, ← hv, if_pos ⟨hbounds.1, by omega⟩]

/-- The two readers agree on a number up to whether a whole one is an integer. -/
theorem exists_number (hp : t.Portable) : ∃ x y, t.strictNode = .num x ∧
    Relaxed.number t.chars = .ok (.num y) ∧ wholeNumber y = wholeNumber x := by
  cases h : t.isInteger with
  | false =>
    refine ⟨_, _, ?_, relaxed_of_not_isInteger h hp, rfl⟩
    rw [portable_iff_of_not_isInteger h] at hp
    rw [strictNode_of_not_isInteger h, Strict.floatNode, if_pos hp]
  | true =>
    have hbounds := (portable_iff_of_isInteger h).1 hp
    obtain ⟨x, hx, hwhole⟩ := exists_integer rfl hbounds
    exact ⟨x, _, (strictNode_of_isInteger h).trans hx, relaxed_of_isInteger h hp, hwhole.symm⟩

end NumberToken

end LintConfig.Json
