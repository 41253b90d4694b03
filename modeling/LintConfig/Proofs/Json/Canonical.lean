import LintConfig.Json.Canonical
import LintConfig.Json.Strict
import LintConfig.Proofs.Number.Layout
import LintConfig.Proofs.Table.Sorted

/-!
# Canonical texts are unambiguous

A canonical text ends where it ends: if two of them, each followed by what may follow a value,
make the same text, then they are the same (`delimited_canonicalChars`).  So the canonical text of a
container determines those of its parts: of an array in order (`canonical_arr_iff`), of an object
under each name, the order of names aside (`canonical_obj_iff`).
-/

namespace LintConfig.Json

open Strict

/-! ### Strings -/

theorem hexUnit?_hexPair : ∀ n < 32,
    hexUnit? '0' '0' (Nat.digitChar (n / 16)) (Nat.digitChar (n % 16)) = some n := by
  decide

/-- A character that is written in a string is read back. -/
theorem pieces?_escapeChar (c : Char) (cs : List Char) : pieces? (escapeChar c ++ cs) =
    (pieces? cs).map fun r => (.char c :: r.1, r.2) := by
  have hshort (e : Char) (hne : e ≠ 'u') (he : escaped? e = some c)
      (hc : escapeChar c = ['\\', e]) : pieces? (escapeChar c ++ cs) =
        (pieces? cs).map fun r => (.char c :: r.1, r.2) := by
    rw [hc]
    cases h : pieces? cs <;> simp [pieces?, hne, he, h]
  by_cases hquote : c = '"'
  · subst hquote
    exact hshort '"' (by decide) rfl rfl
  by_cases hslash : c = '\\'
  · subst hslash
    exact hshort '\\' (by decide) rfl rfl
  by_cases hcontrol : c.toNat < 0x20
  · have hc : c = Char.ofNat c.toNat := (Char.ofNat_toNat c).symm
    by_cases hnamed : c.toNat = 8 ∨ c.toNat = 9 ∨ c.toNat = 10 ∨ c.toNat = 12 ∨ c.toNat = 13
    · rcases hnamed with h | h | h | h | h <;> rw [h] at hc <;> subst hc
      · exact hshort 'b' (by decide) rfl rfl
      · exact hshort 't' (by decide) rfl rfl
      · exact hshort 'n' (by decide) rfl rfl
      · exact hshort 'f' (by decide) rfl rfl
      · exact hshort 'r' (by decide) rfl rfl
    · have hescape : escapeChar c = '\\' :: 'u' :: '0' :: '0' :: hexPair c.toNat := by
        simp only [not_or] at hnamed
        simp [escapeChar, hquote, hslash, hcontrol, hnamed]
      have hpiece : pieceOfUnit c.toNat = .char c := by
        rw [pieceOfUnit, if_neg (by omega), ← hc]
      rw [hescape]
      cases h : pieces? cs <;>
        simp [hexPair, pieces?, hexUnit?_hexPair c.toNat hcontrol, hpiece, h]
  · have hplain : escapeChar c = [c] := by simp [escapeChar, hquote, hslash, hcontrol]
    rw [hplain]
    cases h : pieces? cs <;> simp [pieces?, hslash, hcontrol, h]

theorem pieces?_flatMap_escapeChar (cs rest : List Char) :
    pieces? (cs.flatMap escapeChar ++ '"' :: rest) = some (cs.map .char, rest) := by
  induction cs with
  | nil => rfl
  | cons c cs ih =>
    rw [List.flatMap_cons, List.append_assoc, pieces?_escapeChar, ih]
    rfl

/-- A string ends where it ends, since it can be read back. -/
theorem stringChars_append_inj {s s' : String} {rest rest' : List Char}
    (h : stringChars s ++ rest = stringChars s' ++ rest') : s = s' ∧ rest = rest' := by
  simp only [stringChars, List.cons_append, List.append_assoc, List.nil_append, List.cons.injEq,
    true_and] at h
  have hread := congrArg pieces? h
  rw [pieces?_flatMap_escapeChar, pieces?_flatMap_escapeChar, Option.some.injEq,
    Prod.mk.injEq] at hread
  obtain ⟨hchars, hrest⟩ := hread
  have hinj : Function.Injective Piece.char := fun _ _ h => Piece.char.inj h
  exact ⟨String.toList_inj.1 (hinj.list_map hchars), hrest⟩

theorem stringChars_injective : Function.Injective stringChars := fun s s' h =>
  (stringChars_append_inj (by rw [h] : stringChars s ++ [] = stringChars s' ++ [])).1

/-! ### What may follow a value -/

/-- A text that does not go on with a character of a number. -/
def Ends (rest : List Char) : Prop := ∀ c ∈ rest.head?, isNumeral c = false

/-- A text is told apart from others even if more follows. -/
def Delimited (texts : Set (List Char)) (t : List Char) : Prop :=
  ∀ t' ∈ texts, ∀ rest rest', Ends rest → Ends rest' → t ++ rest = t' ++ rest' →
    t = t' ∧ rest = rest'

theorem takeWhile_isNumeral {t rest : List Char} (h : ∀ c ∈ t, isNumeral c = true)
    (hrest : Ends rest) : (t ++ rest).takeWhile isNumeral = t := by
  rw [List.takeWhile_append_of_pos h]
  cases rest with
  | nil => simp
  | cons c rest =>
    have hc : isNumeral c = false := hrest c rfl
    simp [hc]

/-- What follows the first of several parts. -/
theorem commaJoin_cons (t : List Char) (ts : List (List Char)) (close : Char) (r : List Char) :
    commaJoin (t :: ts) ++ close :: r =
      t ++ match ts with
        | [] => close :: r
        | u :: us => ',' :: (commaJoin (u :: us) ++ close :: r) := by
  cases ts <;> simp [commaJoin]

/-- Parts that are told apart are told apart when they are joined by commas. -/
theorem commaJoin_append_inj {texts : Set (List Char)} {close : Char}
    (hclose : isNumeral close = false) (hcomma : close ≠ ',')
    (hhead : ∀ t ∈ texts, ∃ c cs, t = c :: cs ∧ c ≠ close) {ts ts' : List (List Char)}
    (hts : ∀ t ∈ ts, t ∈ texts) (hdelimited : ∀ t ∈ ts, Delimited texts t)
    (hts' : ∀ t ∈ ts', t ∈ texts)
    {r r' : List Char} (h : commaJoin ts ++ close :: r = commaJoin ts' ++ close :: r') :
    ts = ts' ∧ r = r' := by
  have hends (us : List (List Char)) (r : List Char) : Ends (match us with
      | [] => close :: r
      | u :: us => ',' :: (commaJoin (u :: us) ++ close :: r)) := by
    intro c hc
    cases us with
    | nil =>
      obtain rfl : close = c := by simpa using hc
      exact hclose
    | cons u us =>
      obtain rfl : ',' = c := by simpa using hc
      decide
  induction ts generalizing ts' with
  | nil =>
    cases ts' with
    | nil => exact ⟨rfl, (List.cons.inj h).2⟩
    | cons t' us' =>
      obtain ⟨c, cs, rfl, hc⟩ := hhead t' (hts' t' (by simp))
      rw [commaJoin_cons] at h
      exact absurd (List.cons.inj h).1.symm hc
  | cons t us ih =>
    cases ts' with
    | nil =>
      obtain ⟨c, cs, rfl, hc⟩ := hhead t (hts t (by simp))
      rw [commaJoin_cons] at h
      exact absurd (List.cons.inj h).1 hc
    | cons t' us' =>
      rw [commaJoin_cons, commaJoin_cons] at h
      obtain ⟨rfl, hrest⟩ := hdelimited t (by simp) t' (hts' t' (by simp)) _ _ (hends us r)
        (hends us' r') h
      match us, us' with
      | [], [] => exact ⟨rfl, (List.cons.inj hrest).2⟩
      | [], u' :: us' => exact absurd (List.cons.inj hrest).1 hcomma
      | u :: us, [] => exact absurd (List.cons.inj hrest).1.symm hcomma
      | u :: us, u' :: us' =>
        obtain ⟨hus, hr⟩ := ih (fun v hv => hts v (List.mem_cons_of_mem t hv))
          (fun v hv => hdelimited v (List.mem_cons_of_mem t hv))
          (fun v hv => hts' v (List.mem_cons_of_mem t hv)) (List.cons.inj hrest).2
        exact ⟨by rw [hus], hr⟩

/-! ### Values -/

/-- The kind of a value. -/
inductive Kind where
  | null
  | bool
  | num
  | str
  | arr
  | obj
deriving DecidableEq

/-- The kind of a value. -/
def kind : Json → Kind
  | .null => .null
  | .bool _ => .bool
  | .num _ => .num
  | .str _ => .str
  | .arr _ => .arr
  | .obj _ => .obj

/-- The kind of values whose text starts with a character. -/
def kindOfHead (c : Char) : Kind :=
  if c = 'n' then .null
  else if c = 't' ∨ c = 'f' then .bool
  else if c = '"' then .str
  else if c = '[' then .arr
  else if c = braceOpen then .obj
  else .num

/-- The first character of a text tells the kind of the value. -/
theorem exists_head (j : Json) :
    ∃ c cs, canonicalChars j = c :: cs ∧ kindOfHead c = j.kind ∧ c ≠ ']' := by
  cases j with
  | null => exact ⟨'n', _, rfl, by decide⟩
  | bool b => cases b <;> exact ⟨_, _, rfl, by decide⟩
  | num n =>
    rw [canonicalChars]
    cases hn : n.canonical with
    | nil => exact absurd hn n.canonical_ne_nil
    | cons c cs =>
      have hc : isNumeral c = true := Number.isNumeral_of_mem_canonical (by rw [hn]; simp)
      have hne (d : Char) (hd : isNumeral d = false) : c ≠ d := by
        rintro rfl
        simp [hc] at hd
      refine ⟨c, cs, rfl, ?_, hne ']' (by decide)⟩
      simp [kindOfHead, kind, hne 'n' (by decide), hne 't' (by decide), hne 'f' (by decide),
        hne '"' (by decide), hne '[' (by decide), hne braceOpen (by decide)]
  | str s => exact ⟨'"', _, rfl, rfl, by decide⟩
  | arr items => exact ⟨'[', _, rfl, rfl, by decide⟩
  | obj members => exact ⟨braceOpen, _, rfl, rfl, by decide⟩

theorem kind_eq_of_append_eq {j j' : Json} {rest rest' : List Char}
    (h : canonicalChars j ++ rest = canonicalChars j' ++ rest') : j.kind = j'.kind := by
  obtain ⟨c, cs, hj, hkind, -⟩ := exists_head j
  obtain ⟨c', cs', hj', hkind', -⟩ := exists_head j'
  rw [hj, hj'] at h
  rw [← hkind, ← hkind', (List.cons.inj h).1]

/-- Values with one text are of one kind. -/
theorem kind_eq {j j' : Json} (h : canonicalChars j = canonicalChars j') : j.kind = j'.kind :=
  kind_eq_of_append_eq (by rw [h] : canonicalChars j ++ [] = canonicalChars j' ++ [])

/-- The texts of values. -/
def texts : Set (List Char) := Set.range canonicalChars

/-- The texts of members. -/
def memberTexts : Set (List Char) := {t | ∃ e : Entry, e.2 ∈ texts ∧ t = entryChars e}

theorem delimited_entryChars {e : Entry} (h : Delimited texts e.2) :
    Delimited memberTexts (entryChars e) := by
  rintro _ ⟨e', he', rfl⟩ rest rest' hrest hrest' heq
  simp only [entryChars, List.append_assoc, List.cons_append] at heq
  obtain ⟨hname, heq⟩ := stringChars_append_inj heq
  obtain ⟨htext, heq⟩ := h e'.2 he' rest rest' hrest hrest' (List.cons.inj heq).2
  exact ⟨by rw [Prod.ext hname htext], heq⟩

theorem delimited_map_entryChars {es : List Entry} (h : ∀ e ∈ es, Delimited texts e.2) :
    ∀ t ∈ (sortEntries es).map entryChars, Delimited memberTexts t := by
  intro t ht
  obtain ⟨e, he, rfl⟩ := List.mem_map.1 ht
  exact delimited_entryChars (h e (List.mem_mergeSort.1 he))

theorem mem_texts_of_mem_items {items : List Json} {t : List Char} (h : t ∈ canonicalItems items) :
    t ∈ texts := by
  induction items with
  | nil => simp [canonicalItems] at h
  | cons j js ih =>
    rw [canonicalItems, List.mem_cons] at h
    rcases h with rfl | h
    · exact ⟨j, rfl⟩
    · exact ih h

theorem mem_texts_of_mem_members {members : List (String × Json)} {e : Entry}
    (h : e ∈ canonicalMembers members) : e.2 ∈ texts := by
  induction members with
  | nil => simp [canonicalMembers] at h
  | cons m ms ih =>
    obtain ⟨k, j⟩ := m
    rw [canonicalMembers, List.mem_cons] at h
    rcases h with rfl | h
    · exact ⟨j, rfl⟩
    · exact ih h

theorem mem_memberTexts (members : List (String × Json)) :
    ∀ t ∈ (sortEntries (canonicalMembers members)).map entryChars, t ∈ memberTexts := by
  intro t ht
  obtain ⟨e, he, rfl⟩ := List.mem_map.1 ht
  exact ⟨e, mem_texts_of_mem_members (List.mem_mergeSort.1 he), rfl⟩

theorem exists_head_of_mem {t : List Char} (h : t ∈ texts) : ∃ c cs, t = c :: cs ∧ c ≠ ']' := by
  obtain ⟨j, rfl⟩ := h
  obtain ⟨c, cs, hj, -, hbracket⟩ := exists_head j
  exact ⟨c, cs, hj, hbracket⟩

theorem exists_head_of_mem_memberTexts {t : List Char} (h : t ∈ memberTexts) :
    ∃ c cs, t = c :: cs ∧ c ≠ braceClose := by
  obtain ⟨e, -, rfl⟩ := h
  exact ⟨'"', _, rfl, by decide⟩

mutual

theorem delimited_canonicalChars : ∀ j, Delimited texts (canonicalChars j)
  | .null => by
    rintro _ ⟨j', rfl⟩ rest rest' hrest hrest' h
    have hkind := kind_eq_of_append_eq h
    cases j' <;> cases hkind
    exact ⟨rfl, List.append_cancel_left h⟩
  | .bool b => by
    rintro _ ⟨j', rfl⟩ rest rest' hrest hrest' h
    have hkind := kind_eq_of_append_eq h
    cases j' <;> cases hkind
    next b' => cases b <;> cases b' <;> simp_all [canonicalChars]
  | .num n => by
    rintro _ ⟨j', rfl⟩ rest rest' hrest hrest' h
    have hkind := kind_eq_of_append_eq h
    cases j' <;> cases hkind
    next n' =>
      rw [canonicalChars, canonicalChars] at h ⊢
      -- a number ends where the first character stands that is in no number
      have htaken := congrArg (List.takeWhile isNumeral) h
      rw [takeWhile_isNumeral (fun _ => Number.isNumeral_of_mem_canonical) hrest,
        takeWhile_isNumeral (fun _ => Number.isNumeral_of_mem_canonical) hrest'] at htaken
      rw [htaken] at h
      exact ⟨htaken, List.append_cancel_left h⟩
  | .str s => by
    rintro _ ⟨j', rfl⟩ rest rest' hrest hrest' h
    have hkind := kind_eq_of_append_eq h
    cases j' <;> cases hkind
    next s' =>
      rw [canonicalChars, canonicalChars] at h ⊢
      obtain ⟨rfl, hsame⟩ := stringChars_append_inj h
      exact ⟨rfl, hsame⟩
  | .arr items => by
    rintro _ ⟨j', rfl⟩ rest rest' hrest hrest' h
    have hkind := kind_eq_of_append_eq h
    cases j' <;> cases hkind
    next items' =>
      rw [canonicalChars, canonicalChars] at h ⊢
      simp only [List.cons_append, List.append_assoc, List.nil_append, List.cons.injEq,
        true_and] at h
      obtain ⟨hsame, hrest⟩ := commaJoin_append_inj (by decide) (by decide)
        (fun t => exists_head_of_mem)
        (fun t => mem_texts_of_mem_items) (delimited_canonicalItems items)
        (fun t => mem_texts_of_mem_items) h
      exact ⟨by rw [hsame], hrest⟩
  | .obj members => by
    rintro _ ⟨j', rfl⟩ rest rest' hrest hrest' h
    have hkind := kind_eq_of_append_eq h
    cases j' <;> cases hkind
    next members' =>
      rw [canonicalChars, canonicalChars] at h ⊢
      simp only [List.cons_append, List.append_assoc, List.nil_append, List.cons.injEq,
        true_and] at h
      have hdelimited := delimited_map_entryChars (delimited_canonicalMembers members)
      obtain ⟨hsame, hrest⟩ := commaJoin_append_inj (by decide) (by decide)
        (fun t => exists_head_of_mem_memberTexts) (mem_memberTexts members) hdelimited
        (mem_memberTexts members') h
      exact ⟨by rw [hsame], hrest⟩

theorem delimited_canonicalItems :
    ∀ items, ∀ t ∈ canonicalItems items, Delimited texts t
  | [], t, h => by simp [canonicalItems] at h
  | j :: js, t, h => by
    rw [canonicalItems, List.mem_cons] at h
    rcases h with rfl | h
    · exact delimited_canonicalChars j
    · exact delimited_canonicalItems js t h

theorem delimited_canonicalMembers :
    ∀ members, ∀ e ∈ canonicalMembers members, Delimited texts e.2
  | [], e, h => by simp [canonicalMembers] at h
  | (k, j) :: ms, e, h => by
    rw [canonicalMembers, List.mem_cons] at h
    rcases h with rfl | h
    · exact delimited_canonicalChars j
    · exact delimited_canonicalMembers ms e h

end

/-! ### Containers -/

theorem canonicalItems_eq_map (items : List Json) :
    canonicalItems items = items.map canonicalChars := by
  induction items with
  | nil => rfl
  | cons j js ih => rw [canonicalItems, ih, List.map_cons]

theorem canonicalMembers_eq_map (members : List (String × Json)) :
    canonicalMembers members = members.map fun m => (m.1, canonicalChars m.2) := by
  induction members with
  | nil => rfl
  | cons m ms ih => rw [canonicalMembers, ih, List.map_cons]

theorem canonical_str_iff {s s' : String} :
    canonicalChars (.str s) = canonicalChars (.str s') ↔ s = s' := by
  rw [canonicalChars, canonicalChars, stringChars_injective.eq_iff]

theorem canonical_bool_iff {b b' : Bool} :
    canonicalChars (.bool b) = canonicalChars (.bool b') ↔ b = b' := by
  cases b <;> cases b' <;> decide

/-- The text of an array determines those of its items. -/
theorem canonical_arr_iff {items items' : List Json} :
    canonicalChars (.arr items) = canonicalChars (.arr items') ↔
      items.map canonicalChars = items'.map canonicalChars := by
  rw [canonicalChars, canonicalChars, ← canonicalItems_eq_map, ← canonicalItems_eq_map]
  refine ⟨fun h => ?_, fun h => by rw [h]⟩
  exact (commaJoin_append_inj (by decide) (by decide) (fun _ => exists_head_of_mem)
    (fun t => mem_texts_of_mem_items) (delimited_canonicalItems items)
    (fun t => mem_texts_of_mem_items) (List.cons.inj h).2).1

theorem canonical_strings_iff {ss ss' : List String} :
    canonicalChars (.strings ss) = canonicalChars (.strings ss') ↔ ss = ss' := by
  have hinj : Function.Injective (canonicalChars ∘ str) := fun _ _ h => canonical_str_iff.1 h
  rw [strings, strings, canonical_arr_iff, List.map_map, List.map_map, hinj.list_map.eq_iff]

theorem entryChars_inj {e e' : Entry} (h : entryChars e = entryChars e') : e = e' := by
  obtain ⟨hname, htext⟩ := stringChars_append_inj h
  exact Prod.ext hname (List.cons.inj htext).2

/-- The text of an object determines those of its members under each name. -/
theorem canonical_obj_iff {members members' : List (String × Json)} :
    canonicalChars (.obj members) = canonicalChars (.obj members') ↔
      Table.Alike canonicalChars members members' := by
  have hvalues (ms : List (String × Json)) (k : String) :
      Table.values (canonicalMembers ms) k = (Table.values ms k).map canonicalChars := by
    rw [canonicalMembers_eq_map, Table.values_map]
  rw [canonicalChars, canonicalChars]
  constructor
  · intro h k
    obtain ⟨hsame, -⟩ := commaJoin_append_inj (by decide) (by decide)
      (fun t => exists_head_of_mem_memberTexts) (mem_memberTexts members)
      (delimited_map_entryChars (delimited_canonicalMembers members)) (mem_memberTexts members')
      (List.cons.inj h).2
    have hsorted : sortEntries (canonicalMembers members) = sortEntries (canonicalMembers members') :=
      (List.map_injective_iff.2 fun _ _ => entryChars_inj) hsame
    rw [← hvalues, ← hvalues]
    exact Table.sorted_eq_iff.1 hsorted k
  · intro h
    have hsorted : sortEntries (canonicalMembers members) = sortEntries (canonicalMembers members') :=
      Table.sorted_eq_iff.2 fun k => by rw [hvalues, hvalues, h k]
    rw [hsorted]

end LintConfig.Json
