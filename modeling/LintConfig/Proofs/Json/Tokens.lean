import LintConfig.Proofs.Json.Numerals
import LintConfig.Proofs.Json.Strings

/-!
# Texts with comments added

`Commented ok text commented` says that the second text is the first one with comments, and with
spaces of any kind, added between its tokens, each of which is `ok`.  The reader of the first text
and the reader of the second find the same token next (`Commented.front`), and what is left behind
it is again such a pair.
-/

namespace LintConfig.Json

/-- The punctuation marks. -/
inductive Mark where
  | openList
  | closeList
  | openMap
  | closeMap
  | colon
  | comma
deriving DecidableEq

/-- The character of a mark. -/
def Mark.char : Mark → Char
  | .openList => '['
  | .closeList => ']'
  | .openMap => '\x7b'
  | .closeMap => '\x7d'
  | .colon => ':'
  | .comma => ','

/-- The words. -/
inductive Word where
  | null
  | yes
  | no

/-- The characters of a word. -/
def Word.chars : Word → List Char
  | .null => ['n', 'u', 'l', 'l']
  | .yes => ['t', 'r', 'u', 'e']
  | .no => ['f', 'a', 'l', 's', 'e']

/-- The tokens of strict JSON. -/
inductive Token where
  | mark (m : Mark)
  | word (w : Word)
  | number (t : NumberToken)
  | string (t : StringToken)

namespace Token

/-- A token as it is spelled. -/
def chars : Token → List Char
  | .mark m => [m.char]
  | .word w => w.chars
  | .number t => t.chars
  | .string t => t.chars

/-- Whether both readers have the same value for the token, up to whether a whole number is an
integer. -/
def Portable : Token → Prop
  | .mark _ => True
  | .word _ => True
  | .number t => t.Portable
  | .string t => t.Portable

/-- Whether a token goes on as long as it can. -/
def RunsOn : Token → Prop
  | .mark _ => False
  | .word _ => True
  | .number _ => True
  | .string _ => False

end Token

/-- The spaces of strict JSON. -/
def isBlank (c : Char) : Bool := c == ' ' || c == '\n' || c == '\r' || c == '\t'

/-- The second text is the first one with spaces and comments added between its tokens. -/
inductive Commented (ok : Token → Prop) : List Char → List Char → Prop where
  | done : Commented ok [] []
  | blank {c : Char} {cs ds : List Char} (hc : isBlank c = true) (h : Commented ok cs ds) :
      Commented ok (c :: cs) (c :: ds)
  | token {t : Token} {cs ds : List Char} (ht : ok t) (hcs : t.RunsOn → Stops cs)
      (h : Commented ok cs ds) : Commented ok (t.chars ++ cs) (t.chars ++ ds)
  /-- A space is added. -/
  | space {c : Char} {cs ds : List Char} (hc : Relaxed.isSpace c = true) (h : Commented ok cs ds) :
      Commented ok cs (c :: ds)
  /-- A block comment is added. -/
  | block {text cs ds : List Char} (htext : ¬ ['*', '/'] <:+: text) (h : Commented ok cs ds) :
      Commented ok cs ('/' :: '*' :: (text ++ '*' :: '/' :: ds))
  /-- A line comment is added. -/
  | line {text cs ds : List Char} {c : Char} (htext : ∀ d ∈ text, Relaxed.isLineEnd d = false)
      (hc : Relaxed.isLineEnd c = true) (h : Commented ok cs ds) :
      Commented ok cs ('/' :: '/' :: (text ++ c :: ds))
  /-- A line comment is added at the end. -/
  | last {text : List Char} (htext : ∀ d ∈ text, Relaxed.isLineEnd d = false) :
      Commented ok [] ('/' :: '/' :: text)

/-! ### The start of a token -/

theorem toNat_of_isDigit {c : Char} (h : c.isDigit = true) : 48 ≤ c.toNat ∧ c.toNat ≤ 57 := by
  simp only [Char.isDigit, Bool.and_eq_true, decide_eq_true_eq, ge_iff_le] at h
  exact h

theorem NumberToken.exists_head (t : NumberToken) :
    ∃ c cs, t.chars = c :: cs ∧ (c.isDigit = true ∨ c = '-') := by
  obtain ⟨d, rest, ht, hd⟩ := t.exists_chars
  unfold signChars at ht
  cases hneg : t.negative with
  | true => exact ⟨'-', d :: rest, by rw [ht, hneg]; rfl, .inr rfl⟩
  | false => exact ⟨d, rest, by rw [ht, hneg]; rfl, .inl hd⟩

namespace Token

/-- A token starts with something that neither reader skips. -/
theorem exists_head (t : Token) : ∃ c cs, t.chars = c :: cs ∧ isBlank c = false ∧
    Relaxed.isSpace c = false ∧ c ≠ '/' := by
  cases t with
  | mark m => cases m <;> exact ⟨_, _, rfl, by decide, by decide, by decide⟩
  | word w => cases w <;> exact ⟨_, _, rfl, by decide, by decide, by decide⟩
  | string t => exact ⟨_, _, rfl, by decide, by decide, by decide⟩
  | number t =>
    obtain ⟨c, cs, ht, hc | rfl⟩ := t.exists_head
    · have hbounds := toNat_of_isDigit hc
      have hne (d : Char) (hd : d.isDigit = false) : c ≠ d := ne_of_isDigit hc hd
      refine ⟨c, cs, ht, ?_, ?_, hne '/' rfl⟩
      · simp [isBlank, hne ' ' rfl, hne '\n' rfl, hne '\r' rfl, hne '\t' rfl]
      · simp [Relaxed.isSpace, Relaxed.isLineEnd, hne '\n' rfl, hne '\r' rfl]
        omega
    · exact ⟨_, _, ht, by decide, by decide, by decide⟩

/-- Only a mark starts like one. -/
theorem eq_mark {t : Token} {m : Mark} {cs ds : List Char} (h : t.chars ++ cs = m.char :: ds) :
    t = .mark m ∧ cs = ds := by
  cases t with
  | mark m' =>
    obtain ⟨hchar, rfl⟩ := List.cons.inj h
    have hm : m' = m := by
      revert hchar
      cases m' <;> cases m <;> decide
    rw [hm]
    exact ⟨rfl, rfl⟩
  | word w => cases w <;> cases m <;> simp [chars, Word.chars, Mark.char] at h
  | string t => cases m <;> simp [chars, StringToken.chars, Mark.char] at h
  | number t =>
    obtain ⟨c, rest, ht, hc⟩ := t.exists_head
    rw [chars, ht, List.cons_append, List.cons.injEq] at h
    obtain ⟨rfl, -⟩ := h
    cases m <;> simp [Mark.char] at hc

/-- Only a string starts with a quote. -/
theorem eq_string {t : Token} {cs ds : List Char} (h : t.chars ++ cs = '"' :: ds) :
    ∃ s, t = .string s ∧ StringToken.charsOf s.parts ++ cs = ds := by
  cases t with
  | mark m => cases m <;> simp [chars, Mark.char] at h
  | word w => cases w <;> simp [chars, Word.chars] at h
  | string s => exact ⟨s, rfl, (List.cons.inj h).2⟩
  | number t =>
    obtain ⟨c, rest, ht, hc⟩ := t.exists_head
    rw [chars, ht, List.cons_append, List.cons.injEq] at h
    obtain ⟨rfl, -⟩ := h
    simp at hc

end Token

/-! ### Skipping -/

theorem isSpace_of_isBlank {c : Char} (h : isBlank c = true) : Relaxed.isSpace c = true := by
  simp only [isBlank, Bool.or_eq_true, beq_iff_eq] at h
  rcases h with ((rfl | rfl) | rfl) | rfl <;> decide

theorem toNat_of_isWord {c : Char} (h : isWord c = true) : 0x20 < c.toNat ∧ c.toNat < 0x80 := by
  simp only [isWord, Bool.or_eq_true, beq_iff_eq] at h
  rcases h with ((h | rfl) | rfl) | rfl
  · change ((decide ('A'.val ≤ c.val ∧ c.val ≤ 'Z'.val) ||
      decide ('a'.val ≤ c.val) && decide (c.val ≤ 'z'.val)) ||
      decide ('0'.val ≤ c.val) && decide (c.val ≤ '9'.val)) = true at h
    simp only [Bool.or_eq_true, Bool.and_eq_true, decide_eq_true_eq] at h
    change ((65 ≤ c.toNat ∧ c.toNat ≤ 90) ∨ (97 ≤ c.toNat ∧ c.toNat ≤ 122)) ∨
      (48 ≤ c.toNat ∧ c.toNat ≤ 57) at h
    omega
  all_goals decide

theorem isWord_of_isSpace {c : Char} (h : Relaxed.isSpace c = true) : isWord c = false := by
  rw [← Bool.not_eq_true]
  intro hword
  have hbounds := toNat_of_isWord hword
  have hne (d : Char) (hd : isWord d = false) : c ≠ d := by
    rintro rfl
    simp [hword] at hd
  simp [Relaxed.isSpace, Relaxed.isLineEnd, hne '\n' rfl, hne '\r' rfl] at h
  omega

theorem stops_cons {c : Char} (h : isWord c = false) (cs : List Char) : Stops (c :: cs) := by
  intro d hd
  obtain rfl : c = d := by simpa using hd
  exact h

theorem skipSpace_blank {c : Char} (h : isBlank c = true) (cs : List Char) :
    Strict.skipSpace (c :: cs) = Strict.skipSpace cs := by
  simp only [isBlank, Bool.or_eq_true, beq_iff_eq] at h
  rcases h with ((rfl | rfl) | rfl) | rfl <;> rfl

theorem skipSpace_cons {c : Char} (h : isBlank c = false) (cs : List Char) :
    Strict.skipSpace (c :: cs) = c :: cs := by
  simp only [isBlank, Bool.or_eq_false_iff, beq_eq_false_iff_ne] at h
  unfold Strict.skipSpace
  split <;> simp_all

/-- Blanks stop a word or a numeral. -/
theorem Stops.of_skipSpace {cs : List Char} (h : Stops (Strict.skipSpace cs)) : Stops cs := by
  cases cs with
  | nil => exact stops_nil
  | cons c cs =>
    cases hc : isBlank c with
    | true => exact stops_cons (isWord_of_isSpace (isSpace_of_isBlank hc)) cs
    | false => rwa [skipSpace_cons hc] at h

theorem skip_eq {c : Char} (hc : c ≠ '/') (cs : List Char) :
    Relaxed.skip (c :: cs) = if Relaxed.isSpace c then Relaxed.skip cs else c :: cs := by
  unfold Relaxed.skip
  rw [Relaxed.skipGap.eq_def]
  split <;> simp_all

theorem skip_space {c : Char} (h : Relaxed.isSpace c = true) (cs : List Char) :
    Relaxed.skip (c :: cs) = Relaxed.skip cs := by
  have hc : c ≠ '/' := by
    rintro rfl
    exact absurd h (by decide)
  rw [skip_eq hc, if_pos h]

theorem skip_cons {c : Char} (h : Relaxed.isSpace c = false) (hc : c ≠ '/') (cs : List Char) :
    Relaxed.skip (c :: cs) = c :: cs := by
  rw [skip_eq hc, if_neg (by simp [h])]

theorem skip_block {text : List Char} (h : ¬ ['*', '/'] <:+: text) (cs : List Char) :
    Relaxed.skip ('/' :: '*' :: (text ++ '*' :: '/' :: cs)) = Relaxed.skip cs := by
  have hinside (opened : List Char) : Relaxed.skipGap (.block opened) (text ++ '*' :: '/' :: cs) =
      Relaxed.skip cs := by
    induction text with
    | nil => rfl
    | cons c text ih =>
      have hrest := ih fun hinfix => h (List.infix_cons hinfix)
      have hclose : ¬ (c = '*' ∧ ∃ ds, text ++ '*' :: '/' :: cs = '/' :: ds) := by
        rintro ⟨rfl, ds, hds⟩
        cases text with
        | nil => simp at hds
        | cons d text =>
          obtain ⟨rfl, -⟩ := List.cons.inj hds
          exact h ⟨[], text, rfl⟩
      rw [← hrest, List.cons_append, Relaxed.skipGap.eq_def]
      split <;> simp_all
  exact hinside _

theorem skipGap_line {text : List Char} (h : ∀ d ∈ text, Relaxed.isLineEnd d = false)
    (cs : List Char) : Relaxed.skipGap .line (text ++ cs) = Relaxed.skipGap .line cs := by
  induction text with
  | nil => rfl
  | cons c text ih =>
    rw [List.forall_mem_cons] at h
    rw [List.cons_append, Relaxed.skipGap, if_neg (by simp [h.1]), ih h.2]

theorem skip_line {text : List Char} (h : ∀ d ∈ text, Relaxed.isLineEnd d = false) {c : Char}
    (hc : Relaxed.isLineEnd c = true) (cs : List Char) :
    Relaxed.skip ('/' :: '/' :: (text ++ c :: cs)) = Relaxed.skip cs := by
  change Relaxed.skipGap .line (text ++ c :: cs) = _
  rw [skipGap_line h, Relaxed.skipGap, if_pos hc]
  rfl

theorem skip_last {text : List Char} (h : ∀ d ∈ text, Relaxed.isLineEnd d = false) :
    Relaxed.skip ('/' :: '/' :: text) = [] := by
  change Relaxed.skipGap .line text = []
  rw [← List.append_nil text, skipGap_line h]
  rfl

/-! ### The next token -/

namespace Commented

variable {ok : Token → Prop} {cs ds : List Char}

/-- A line comment may be added at the end, whatever was added before. -/
theorem note (h : Commented ok cs ds) {comment : List Char}
    (hcomment : ∀ d ∈ comment, Relaxed.isLineEnd d = false) :
    Commented ok cs (ds ++ ' ' :: '/' :: '/' :: comment) := by
  induction h with
  | done => exact .space (by decide) (.last hcomment)
  | blank hc _ ih => exact .blank hc ih
  | token ht hcs _ ih =>
    rw [List.append_assoc]
    exact .token ht hcs ih
  | space hc _ ih => exact .space hc ih
  | block htext _ ih =>
    simp only [List.cons_append, List.append_assoc]
    exact .block htext ih
  | line htext hc _ ih =>
    simp only [List.cons_append, List.append_assoc]
    exact .line htext hc ih
  | last htext =>
    -- the line comment that is there goes on
    refine .last (List.forall_mem_append.2 ⟨htext, ?_⟩)
    simpa [Relaxed.isLineEnd] using hcomment

/-- A word or a numeral stops in the second text where it stops in the first. -/
theorem stops (h : Commented ok cs ds) (hcs : Stops cs) : Stops ds := by
  induction h with
  | done => exact hcs
  | @blank c _ _ hc => exact stops_cons (isWord_of_isSpace (isSpace_of_isBlank hc)) _
  | @token t =>
    obtain ⟨c, rest, ht, -⟩ := t.exists_head
    rw [ht, List.cons_append] at hcs ⊢
    exact stops_cons (hcs c rfl) _
  | space hc => exact stops_cons (isWord_of_isSpace hc) _
  | block => exact stops_cons (by decide) _
  | line => exact stops_cons (by decide) _
  | last => exact stops_cons (by decide) _

/-- Spaces in front of the first text do not matter. -/
theorem skipSpace (h : Commented ok cs ds) : Commented ok (Strict.skipSpace cs) ds := by
  induction h with
  | done => exact .done
  | blank hc _ ih =>
    rw [skipSpace_blank hc]
    exact .space (isSpace_of_isBlank hc) ih
  | @token t _ _ ht hcs h =>
    obtain ⟨c, rest, hchars, hc, -⟩ := t.exists_head
    have htoken := Commented.token ht hcs h
    rw [hchars, List.cons_append] at htoken ⊢
    rwa [skipSpace_cons hc]
  | space hc _ ih => exact .space hc ih
  | block htext _ ih => exact .block htext ih
  | line htext hc _ ih => exact .line htext hc ih
  | last htext => exact .last htext

/-- Both texts are at their end, or the same token is next in both. -/
theorem front (h : Commented ok cs ds) :
    Strict.skipSpace cs = [] ∧ Relaxed.skip ds = [] ∨
    ∃ t cs' ds', ok t ∧ (t.RunsOn → Stops cs' ∧ Stops ds') ∧ Commented ok cs' ds' ∧
      Strict.skipSpace cs = t.chars ++ cs' ∧ Relaxed.skip ds = t.chars ++ ds' := by
  induction h with
  | done => exact .inl ⟨rfl, rfl⟩
  | blank hc _ ih => rwa [skipSpace_blank hc, skip_space (isSpace_of_isBlank hc)]
  | @token t cs ds ht hcs h =>
    obtain ⟨c, rest, hchars, hblank, hspace, hslash⟩ := t.exists_head
    refine .inr ⟨t, cs, ds, ht, fun hruns => ⟨hcs hruns, h.stops (hcs hruns)⟩, h, ?_, ?_⟩
    · rw [hchars, List.cons_append, skipSpace_cons hblank]
    · rw [hchars, List.cons_append, skip_cons hspace hslash]
  | space hc _ ih => rwa [skip_space hc]
  | block htext _ ih => rwa [skip_block htext]
  | line htext hc _ ih => rwa [skip_line htext hc]
  | last htext => exact .inl ⟨rfl, skip_last htext⟩

/-- A mark that is next in one of the texts is next in the other. -/
theorem front_mark (h : Commented ok cs ds) (m : Mark) :
    (∀ cs', Strict.skipSpace cs = m.char :: cs' →
      ∃ ds', Relaxed.skip ds = m.char :: ds' ∧ Commented ok cs' ds') ∧
    ∀ ds', Relaxed.skip ds = m.char :: ds' → ∃ cs', Strict.skipSpace cs = m.char :: cs' := by
  rcases h.front with ⟨hcs, hds⟩ | ⟨t, cs', ds', -, -, hrest, hcs, hds⟩
  · rw [hcs, hds]
    exact ⟨fun _ hmark => by simp at hmark, fun _ hmark => by simp at hmark⟩
  · rw [hcs, hds]
    constructor
    · intro rest hmark
      obtain ⟨rfl, rfl⟩ := Token.eq_mark hmark
      exact ⟨ds', rfl, hrest⟩
    · intro rest hmark
      obtain ⟨rfl, -⟩ := Token.eq_mark hmark
      exact ⟨cs', rfl⟩

/-- A string that is next in the first text is next in the second. -/
theorem front_string (h : Commented ok cs ds) {rest : List Char}
    (hcs : Strict.skipSpace cs = '"' :: rest) : ∃ s cs' ds', ok (.string s) ∧
      rest = StringToken.charsOf s.parts ++ cs' ∧
      Relaxed.skip ds = '"' :: (StringToken.charsOf s.parts ++ ds') ∧ Commented ok cs' ds' := by
  rcases h.front with ⟨hnil, -⟩ | ⟨t, cs', ds', ht, -, hrest, htoken, hds⟩
  · simp [hnil] at hcs
  · rw [htoken] at hcs
    obtain ⟨s, rfl, rfl⟩ := Token.eq_string hcs
    exact ⟨s, cs', ds', ht, rfl, hds, hrest⟩

/-- Nothing is taken away. -/
theorem length_le (h : Commented ok cs ds) : cs.length ≤ ds.length := by
  induction h <;> simp only [List.length_nil, List.length_cons, List.length_append] at * <;> omega

end Commented

end LintConfig.Json
