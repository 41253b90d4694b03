import LintConfig.Json.Relaxed

/-!
# Strings that both readers know

A `StringToken` is what stands between the quotes of a string by the grammar of strict JSON.  The
two readers take the same parts of it, and join them to the same text, if it is `Portable`: the
line ends of Unicode are escaped, and surrogates come in pairs whose character lies in a
supplementary plane of odd number.  For a character of an even one the relaxed reader gives
another, as it joins the halves bit by bit.
-/

namespace LintConfig.Json

open Relaxed (Part)

namespace Part

/-- The characters of a part. -/
def chars : Part → List Char
  | .char c => [c]
  | .escape c => ['\\', c]
  | .code ds => '\\' :: 'u' :: ds

/-- Whether strict JSON has a part. -/
def WellSpelled : Part → Prop
  | .char c => c ≠ '"' ∧ c ≠ '\\' ∧ 0x20 ≤ c.toNat
  | .escape c => (Strict.escaped? c).isSome = true
  | .code ds => ds.length = 4 ∧ ds.all Relaxed.isHexDigit = true

/-- The number of hexadecimal digits. -/
def unit (ds : List Char) : Nat := (Yaml.natIn? 16 ds).getD 0

/-- What the strict reader makes of a part. -/
def piece : Part → Strict.Piece
  | .char c => .char c
  | .escape c => .char ((Strict.escaped? c).getD c)
  | .code ds => Strict.pieceOfUnit (unit ds)

end Part

/-- A string as strict JSON spells it. -/
structure StringToken where
  parts : List Part
  wellSpelled : ∀ p ∈ parts, Part.WellSpelled p

/-- Whether a number is the first half of a surrogate pair. -/
def IsLead (n : Nat) : Prop := 0xD800 ≤ n ∧ n ≤ 0xDBFF

/-- Whether a number is the second half of a surrogate pair. -/
def IsTrail (n : Nat) : Prop := 0xDC00 ≤ n ∧ n ≤ 0xDFFF

/-- The code point of a surrogate pair. -/
def pairPoint (lead trail : Nat) : Nat := 0x10000 + (lead - 0xD800) * 0x400 + (trail - 0xDC00)

namespace StringToken

/-- Parts that both readers join to the same text. -/
inductive PortableParts : List Part → Prop where
  | nil : PortableParts []
  | char {c : Char} {ps : List Part} (hc : Relaxed.isLineEnd c = false) (h : PortableParts ps) :
      PortableParts (.char c :: ps)
  | escape {c : Char} {ps : List Part} (h : PortableParts ps) : PortableParts (.escape c :: ps)
  | code {ds : List Char} {ps : List Part}
      (hds : ¬ IsLead (Part.unit ds) ∧ ¬ IsTrail (Part.unit ds)) (h : PortableParts ps) :
      PortableParts (.code ds :: ps)
  | pair {lead trail : List Char} {ps : List Part} (hlead : IsLead (Part.unit lead))
      (htrail : IsTrail (Part.unit trail))
      (hodd : pairPoint (Part.unit lead) (Part.unit trail) / 0x10000 % 2 = 1)
      (h : PortableParts ps) : PortableParts (.code lead :: .code trail :: ps)

/-- Whether both readers have the same text for the string. -/
def Portable (t : StringToken) : Prop := PortableParts t.parts

/-- The string as it is spelled, without the quote in front. -/
def charsOf (ps : List Part) : List Char := ps.flatMap Part.chars ++ ['"']

/-- The string as it is spelled. -/
def chars (t : StringToken) : List Char := '"' :: charsOf t.parts

end StringToken

/-! ### Hexadecimal digits -/

theorem isSome_natIn? {ds : List Char} (hne : ds ≠ []) :
    (Yaml.natIn? 16 ds).isSome = ds.all Relaxed.isHexDigit := by
  have hfold (cs : List Char) (acc : Option Nat) :
      (cs.foldl (fun acc c => do return 16 * (← acc) + (← Yaml.digit? 16 c)) acc).isSome =
        (acc.isSome && cs.all Relaxed.isHexDigit) := by
    induction cs generalizing acc with
    | nil => simp
    | cons c cs ih =>
      rw [List.foldl_cons, ih, List.all_cons, ← Bool.and_assoc]
      congr 1
      rcases acc with _ | n <;> rcases hc : Yaml.digit? 16 c with _ | d <;>
        simp [Relaxed.isHexDigit, hc]
  cases ds with
  | nil => exact absurd rfl hne
  | cons d ds => exact (hfold (d :: ds) (some 0)).trans (Bool.true_and _)

theorem Part.natIn?_eq {ds : List Char} (h : Part.WellSpelled (.code ds)) :
    Yaml.natIn? 16 ds = some (Part.unit ds) := by
  have hne : ds ≠ [] := List.ne_nil_of_length_pos (by have := h.1; omega)
  have hsome : (Yaml.natIn? 16 ds).isSome = true := (isSome_natIn? hne).trans h.2
  obtain ⟨n, hn⟩ := Option.isSome_iff_exists.1 hsome
  rw [Part.unit, hn]
  rfl

/-- The four digits of a numeric escape. -/
theorem Part.exists_digits {ds : List Char} (h : Part.WellSpelled (.code ds)) :
    ∃ a b c d, ds = [a, b, c, d] := by
  have hlength := h.1
  match ds, hlength with
  | [a, b, c, d], _ => exact ⟨a, b, c, d, rfl⟩

/-- The characters that may stand behind a backslash. -/
theorem Part.eq_of_escape {c : Char} (h : Part.WellSpelled (.escape c)) :
    c = '"' ∨ c = '\\' ∨ c = '/' ∨ c = 'b' ∨ c = 'f' ∨ c = 'n' ∨ c = 'r' ∨ c = 't' := by
  change (Strict.escaped? c).isSome = true at h
  unfold Strict.escaped? at h
  split at h <;> simp at h ⊢

namespace StringToken

theorem charsOf_cons (p : Part) (ps : List Part) :
    charsOf (p :: ps) = Part.chars p ++ charsOf ps := by
  simp [charsOf]

/-- The strict reader takes a string for its parts. -/
theorem strict_eq {ps : List Part} (h : ∀ p ∈ ps, Part.WellSpelled p) (cs : List Char) :
    Strict.pieces? (charsOf ps ++ cs) = some (ps.map Part.piece, cs) := by
  induction ps with
  | nil => rfl
  | cons p ps ih =>
    rw [List.forall_mem_cons] at h
    have hrest := ih h.2
    have hp := h.1
    rw [charsOf_cons, List.append_assoc, List.map_cons]
    cases p with
    | char c =>
      obtain ⟨hquote, hbackslash, hc⟩ := hp
      simp [Part.chars, Strict.pieces?, hbackslash, hrest, Part.piece, Nat.not_lt.2 hc]
    | escape c =>
      rcases Part.eq_of_escape hp with rfl | rfl | rfl | rfl | rfl | rfl | rfl | rfl <;>
        simp [Part.chars, Strict.pieces?, Strict.escaped?, hrest, Part.piece]
    | code ds =>
      obtain ⟨a, b, c, d, rfl⟩ := Part.exists_digits hp
      simp [Part.chars, Strict.pieces?, Strict.hexUnit?, Part.natIn?_eq hp, hrest, Part.piece]

/-- The relaxed reader takes the same characters for the string. -/
theorem relaxed_eq {ps : List Part} (h : ∀ p ∈ ps, Part.WellSpelled p) (hp : PortableParts ps)
    (cs : List Char) : Relaxed.parts? '"' (charsOf ps ++ cs) = some (ps, cs) := by
  have hcode {ds ds' : List Char} (hds : Part.WellSpelled (.code ds)) {ps : List Part}
      (hrest : Relaxed.parts? '"' ds' = some (ps, cs)) :
      Relaxed.parts? '"' (Part.chars (.code ds) ++ ds') = some (.code ds :: ps, cs) := by
    obtain ⟨a, b, c, d, rfl⟩ := Part.exists_digits hds
    simp only [Part.chars, List.cons_append, List.nil_append]
    rw [Relaxed.parts?, if_pos hds.2, hrest]
    rfl
  induction hp with
  | nil => rfl
  | @char c ps hc hps ih =>
    rw [List.forall_mem_cons] at h
    obtain ⟨⟨hquote, hbackslash, -⟩, h⟩ := h
    rw [charsOf_cons, List.append_assoc]
    simp [Part.chars, Relaxed.parts?, hquote, hbackslash, hc, ih h]
  | @escape c ps hps ih =>
    rw [List.forall_mem_cons] at h
    rw [charsOf_cons, List.append_assoc]
    rcases Part.eq_of_escape h.1 with rfl | rfl | rfl | rfl | rfl | rfl | rfl | rfl <;>
      simp [Part.chars, Relaxed.parts?, Relaxed.isLineEnd, ih h.2]
  | code _ _ ih =>
    rw [List.forall_mem_cons] at h
    rw [charsOf_cons, List.append_assoc]
    exact hcode h.1 (ih h.2)
  | pair _ _ _ _ ih =>
    simp only [List.forall_mem_cons] at h
    rw [charsOf_cons, charsOf_cons, List.append_assoc, List.append_assoc]
    exact hcode h.1 (hcode h.2.1 (ih h.2.2))

/-! ### The text of a string -/

/-- Halves are joined alike for a supplementary plane of odd number. -/
theorem joined_eq {lead trail : Nat} (hlead : IsLead lead) (htrail : IsTrail trail)
    (hodd : pairPoint lead trail / 0x10000 % 2 = 1) :
    ((lead - 0xD800) <<< 10) ||| ((trail - 0xDC00) + 0x10000) = pairPoint lead trail := by
  unfold IsLead at hlead
  unfold IsTrail at htrail
  unfold pairPoint at hodd ⊢
  obtain ⟨x, rfl⟩ : ∃ x, lead = 0xD800 + x := ⟨lead - 0xD800, by omega⟩
  obtain ⟨y, rfl⟩ : ∃ y, trail = 0xDC00 + y := ⟨trail - 0xDC00, by omega⟩
  rw [Nat.add_sub_cancel_left, Nat.add_sub_cancel_left] at hodd ⊢
  -- the bit that the shifted half shares with the plane's offset is clear
  obtain ⟨a, b, rfl, hb⟩ : ∃ a b, x = 128 * a + b ∧ b < 64 := ⟨x / 128, x % 128, by omega, by omega⟩
  have hy : y < 2 ^ 10 := by omega
  have hby : b <<< 10 + y < 2 ^ 16 := by
    rw [Nat.shiftLeft_eq]
    omega
  have hplane : 1 <<< 16 + (b <<< 10 + y) < 2 ^ 17 := by
    rw [Nat.shiftLeft_eq 1]
    omega
  have hshift : (128 * a + b) <<< 10 = a <<< 17 ||| b <<< 10 := by
    have hb10 : b <<< 10 < 2 ^ 17 := by
      rw [Nat.shiftLeft_eq]
      omega
    rw [← Nat.shiftLeft_add_eq_or_of_lt hb10]
    simp only [Nat.shiftLeft_eq]
    omega
  have hoffset : y + 0x10000 = 1 <<< 16 ||| y := by
    rw [← Nat.shiftLeft_add_eq_or_of_lt (by omega), Nat.shiftLeft_eq]
    omega
  calc (128 * a + b) <<< 10 ||| (y + 0x10000)
      = a <<< 17 ||| (1 <<< 16 ||| (b <<< 10 ||| y)) := by
        rw [hshift, hoffset]
        ac_rfl
    _ = a <<< 17 + (1 <<< 16 + (b <<< 10 + y)) := by
        rw [← Nat.shiftLeft_add_eq_or_of_lt hy, ← Nat.shiftLeft_add_eq_or_of_lt hby,
          ← Nat.shiftLeft_add_eq_or_of_lt hplane]
    _ = 0x10000 + (128 * a + b) * 0x400 + y := by
        simp only [Nat.shiftLeft_eq]
        omega

theorem joinPieces?_unit {n : Nat} (hlead : ¬ IsLead n) (htrail : ¬ IsTrail n)
    (ps : List Strict.Piece) : Strict.joinPieces? (Strict.pieceOfUnit n :: ps) =
      (Strict.joinPieces? ps).map (Char.ofNat n :: ·) := by
  have hno : ¬ (0xD800 ≤ n ∧ n ≤ 0xDFFF) := by
    unfold IsLead at hlead
    unfold IsTrail at htrail
    omega
  rw [Strict.pieceOfUnit, if_neg hno, Strict.joinPieces?]
  cases Strict.joinPieces? ps <;> rfl

theorem joinPieces?_pair {lead trail : Nat} (hlead : IsLead lead) (htrail : IsTrail trail)
    (ps : List Strict.Piece) :
    Strict.joinPieces? (Strict.pieceOfUnit lead :: Strict.pieceOfUnit trail :: ps) =
      (Strict.joinPieces? ps).map (Char.ofNat (pairPoint lead trail) :: ·) := by
  unfold IsLead at hlead
  unfold IsTrail at htrail
  have hleadHalf : 0xD800 ≤ lead ∧ lead ≤ 0xDFFF := by omega
  have htrailHalf : 0xD800 ≤ trail ∧ trail ≤ 0xDFFF := by omega
  have hpair : lead < 0xDC00 ∧ 0xDC00 ≤ trail := by omega
  rw [Strict.pieceOfUnit, Strict.pieceOfUnit, if_pos hleadHalf, if_pos htrailHalf,
    Strict.joinPieces?, if_pos hpair]
  cases Strict.joinPieces? ps <;> rfl

theorem characters_code {ds : List Char} {n : Nat} (hn : Yaml.natIn? 16 ds = some n)
    (hlead : ¬ IsLead n) (htrail : ¬ IsTrail n) (ps : List Part) :
    Relaxed.characters (.code ds :: ps) =
      (Relaxed.characters ps).map (Char.ofNat n :: ·) := by
  rw [Relaxed.characters.eq_def]
  simp only [hn, Option.getD_some]
  refine (if_neg htrail).trans ((if_neg hlead).trans ?_)
  cases Relaxed.characters ps <;> rfl

theorem characters_pair {lead trail : List Char} {n m : Nat} (hn : Yaml.natIn? 16 lead = some n)
    (hm : Yaml.natIn? 16 trail = some m) (hlead : IsLead n) (htrail : IsTrail m)
    (hodd : pairPoint n m / 0x10000 % 2 = 1) (ps : List Part) :
    Relaxed.characters (.code lead :: .code trail :: ps) =
      (Relaxed.characters ps).map (Char.ofNat (pairPoint n m) :: ·) := by
  have hnot : ¬ IsTrail n := by
    unfold IsLead at hlead
    unfold IsTrail
    omega
  rw [Relaxed.characters.eq_def]
  simp only [hn, Relaxed.Part.spelling, hm, Option.getD_some, joined_eq hlead htrail hodd]
  refine (if_neg hnot).trans ((if_pos hlead).trans ((if_pos htrail).trans ?_))
  cases Relaxed.characters ps <;> rfl

/-- The two readers join the parts to the same characters. -/
theorem exists_characters {ps : List Part} (h : ∀ p ∈ ps, Part.WellSpelled p)
    (hp : PortableParts ps) : ∃ cs, Strict.joinPieces? (ps.map Part.piece) = some cs ∧
      Relaxed.characters ps = .ok cs := by
  induction hp with
  | nil => exact ⟨[], rfl, rfl⟩
  | @char c ps hc hps ih =>
    obtain ⟨cs, hjoin, hcharacters⟩ := ih (List.forall_mem_cons.1 h).2
    refine ⟨c :: cs, ?_, ?_⟩
    · simp [Part.piece, Strict.joinPieces?, hjoin]
    · rw [Relaxed.characters, hcharacters]
      rfl
  | @escape c ps hps ih =>
    rw [List.forall_mem_cons] at h
    obtain ⟨cs, hjoin, hcharacters⟩ := ih h.2
    have hvalue : (Strict.escaped? c).getD c = Relaxed.escapeValue c := by
      rcases Part.eq_of_escape h.1 with rfl | rfl | rfl | rfl | rfl | rfl | rfl | rfl <;> rfl
    refine ⟨Relaxed.escapeValue c :: cs, ?_, ?_⟩
    · simp [Part.piece, Strict.joinPieces?, hjoin, hvalue]
    · rw [Relaxed.characters, hcharacters]
      rfl
  | @code ds ps hds hps ih =>
    rw [List.forall_mem_cons] at h
    obtain ⟨cs, hjoin, hcharacters⟩ := ih h.2
    refine ⟨Char.ofNat (Part.unit ds) :: cs, ?_, ?_⟩
    · rw [List.map_cons, Part.piece, joinPieces?_unit hds.1 hds.2, hjoin]
      rfl
    · rw [characters_code (Part.natIn?_eq h.1) hds.1 hds.2, hcharacters]
      rfl
  | @pair lead trail ps hlead htrail hodd hps ih =>
    simp only [List.forall_mem_cons] at h
    obtain ⟨cs, hjoin, hcharacters⟩ := ih h.2.2
    have hleadUnit := Part.natIn?_eq h.1
    have htrailUnit := Part.natIn?_eq h.2.1
    refine ⟨Char.ofNat (pairPoint (Part.unit lead) (Part.unit trail)) :: cs, ?_, ?_⟩
    · rw [List.map_cons, List.map_cons, Part.piece, Part.piece, joinPieces?_pair hlead htrail,
        hjoin]
      rfl
    · rw [characters_pair hleadUnit htrailUnit hlead htrail hodd, hcharacters]
      rfl

theorem stringNode_eq (t : StringToken) (hp : t.Portable) : ∃ s,
    Strict.stringNode (t.parts.map Part.piece) = .str s ∧ Relaxed.text t.parts = .ok s := by
  obtain ⟨cs, hjoin, hcharacters⟩ := exists_characters t.wellSpelled hp
  refine ⟨String.ofList cs, ?_, ?_⟩
  · rw [Strict.stringNode, hjoin]
  · rw [Relaxed.text, hcharacters]
    rfl

/-- Whether a character needs no escape in either notation. -/
def isPlain (c : Char) : Bool :=
  c != '"' && c != '\\' && decide (0x20 ≤ c.toNat) && !Relaxed.isLineEnd c

/-- The string of characters that need no escape. -/
def plain (cs : List Char) (h : cs.all isPlain = true) : StringToken where
  parts := cs.map .char
  wellSpelled := by
    intro p hp
    obtain ⟨c, hc, rfl⟩ := List.mem_map.1 hp
    have hplain := List.all_eq_true.1 h c hc
    simp only [isPlain, Bool.and_eq_true, bne_iff_ne, decide_eq_true_eq] at hplain
    exact ⟨hplain.1.1.1, hplain.1.1.2, hplain.1.2⟩

theorem portable_plain {cs : List Char} (h : cs.all isPlain = true) : (plain cs h).Portable := by
  have hparts (cs : List Char) (h : cs.all isPlain = true) : PortableParts (cs.map .char) := by
    induction cs with
    | nil => exact .nil
    | cons c cs ih =>
      rw [List.all_cons, Bool.and_eq_true] at h
      have hend : Relaxed.isLineEnd c = false := by
        simp only [isPlain, Bool.and_eq_true, Bool.not_eq_true'] at h
        exact h.1.2
      exact .char hend (ih h.2)
  exact hparts cs h

end StringToken

end LintConfig.Json
