import LintConfig.Proofs.Decode.Permuted
import LintConfig.Proofs.Json.Parts

/-!
# What settings and rule entries are read from

A setting is read from any JSON value without nulls, and from no other one, and is written as that
value again, repeated names settled (`Setting.exists_ofNode?_iff`, `Setting.toJson_of_ofNode?`).  A
rule entry is read from a text, a number, or an array that starts with one of them and has no nulls;
only an array without options is written in another form (`RuleEntry.decode_arr_eq_ok_iff`).
-/

namespace LintConfig

open Decode

/-- A list is related to some list, element by element, just if each of its elements is related to
something. -/
theorem exists_forall₂_iff {α β : Type} {R : α → β → Prop} {as : List α} :
    (∃ bs, List.Forall₂ R as bs) ↔ ∀ a ∈ as, ∃ b, R a b := by
  constructor
  · rintro ⟨bs, h⟩
    induction h with
    | nil => simp
    | cons hab _ ih => exact List.forall_mem_cons.2 ⟨⟨_, hab⟩, ih⟩
  · intro h
    induction as with
    | nil => exact ⟨[], .nil⟩
    | cons a as ih =>
      obtain ⟨⟨b, hb⟩, h⟩ := List.forall_mem_cons.1 h
      obtain ⟨bs, hbs⟩ := ih h
      exact ⟨b :: bs, .cons hb hbs⟩

theorem map_eq_map_of_forall₂ {α β γ : Type} {R : α → β → Prop} {f : α → γ} {g : β → γ}
    {as : List α} {bs : List β} (h : List.Forall₂ R as bs)
    (hR : ∀ a ∈ as, ∀ b, R a b → g b = f a) : bs.map g = as.map f := by
  induction h with
  | nil => rfl
  | cons hab _ ih =>
    rw [List.map_cons, List.map_cons, hR _ List.mem_cons_self _ hab,
      ih fun a ha => hR a (List.mem_cons_of_mem _ ha)]

/-! ### Settings -/

namespace Setting

variable {v : Json} {s : Setting} {js : List Json} {ms : List (String × Json)}

theorem itemsOf?_eq_some_iff {ss : List Setting} : itemsOf? (Node.ofItems js) = some ss ↔
    List.Forall₂ (fun j s => ofNode? (.ofJson j) = some s) js ss := by
  induction js generalizing ss with
  | nil => simp [Node.ofItems, itemsOf?, eq_comm]
  | cons j js ih =>
    simp only [Node.ofItems, itemsOf?, Option.bind_eq_bind, Option.bind_eq_some_iff, ih,
      List.forall₂_cons_left_iff]
    simp [eq_comm]

theorem entriesOf?_eq_some_iff_matched {es : List (String × Setting)} :
    entriesOf? (Node.ofMembers ms) = some es ↔
      Table.Matched (fun _ j s => ofNode? (.ofJson j) = some s) ms es := by
  induction ms generalizing es with
  | nil => simp [Node.ofMembers, entriesOf?, Table.Matched, eq_comm]
  | cons m ms ih =>
    simp only [Node.ofMembers, entriesOf?, Option.bind_eq_bind, Option.bind_eq_some_iff, ih,
      Table.Matched, List.forall₂_cons_left_iff]
    simp [Node.keyAtom?, eq_comm]

/-- A setting is read from a value just if no null occurs in it. -/
theorem exists_ofNode?_iff (v : Json) : (∃ s, ofNode? (.ofJson v) = some s) ↔ v.NullFree := by
  induction v using Json.induction with
  | null => simp [Node.ofJson, ofNode?, Json.not_nullFree_null]
  | bool b => simp [Node.ofJson, ofNode?, Json.nullFree_bool]
  | num n => simp [Node.ofJson, ofNode?, Json.nullFree_num]
  | str t => simp [Node.ofJson, ofNode?, Json.nullFree_str]
  | arr items ih =>
    rw [Json.nullFree_arr_iff, ← forall₂_congr ih, ← exists_forall₂_iff]
    simp [Node.ofJson, ofNode?, itemsOf?_eq_some_iff]
  | obj members ih =>
    have hvalue (m : String × Json) : (∃ e : String × Setting, m.1 = e.1 ∧
        ofNode? (.ofJson m.2) = some e.2) ↔ ∃ s, ofNode? (.ofJson m.2) = some s := by
      constructor
      · rintro ⟨e, -, he⟩
        exact ⟨e.2, he⟩
      · rintro ⟨s, hs⟩
        exact ⟨(m.1, s), rfl, hs⟩
    rw [Json.nullFree_obj_iff, ← forall₂_congr ih, ← forall₂_congr fun m _ => hvalue m,
      ← exists_forall₂_iff]
    simp [Node.ofJson, ofNode?, entriesOf?_eq_some_iff_matched, Table.Matched]

/-- What was read from a value is written as that value. -/
theorem toJson_of_ofNode? (h : ofNode? (.ofJson v) = some s) : s.toJson = v.collapse := by
  induction v using Json.induction generalizing s with
  | null => cases h
  | bool b => cases h; rfl
  | num n => cases h; rfl
  | str t => cases h; rfl
  | arr items ih =>
    obtain ⟨ss, hss, rfl⟩ := Option.map_eq_some_iff.1 h
    rw [toJson, Json.collapse, itemsJson_eq_map, Json.collapseItems_eq_map]
    exact congrArg Json.arr (map_eq_map_of_forall₂ (itemsOf?_eq_some_iff.1 hss)
      fun j hj s hs => ih j hj hs)
  | obj members ih =>
    obtain ⟨es, hes, rfl⟩ := Option.map_eq_some_iff.1 h
    rw [toJson, Json.collapse, entriesJson_eq_mapValues, Json.collapseMembers_eq_mapValues,
      Table.mapValues_ofEntries]
    refine congrArg (fun ms => Json.obj (Table.ofEntries ms)) ?_
    refine map_eq_map_of_forall₂ (entriesOf?_eq_some_iff_matched.1 hes) fun m hm e he => ?_
    rw [he.1, ih m hm he.2]

theorem exists_itemsOf?_iff :
    (∃ ss, itemsOf? (Node.ofItems js) = some ss) ↔ ∀ j ∈ js, j.NullFree := by
  simp only [itemsOf?_eq_some_iff, exists_forall₂_iff, exists_ofNode?_iff]

theorem itemsJson_of_itemsOf? {ss : List Setting} (h : itemsOf? (Node.ofItems js) = some ss) :
    itemsJson ss = js.map Json.collapse := by
  rw [itemsJson_eq_map]
  exact map_eq_map_of_forall₂ (itemsOf?_eq_some_iff.1 h) fun _ _ _ => toJson_of_ofNode?

end Setting

/-- Settings are read from an object as a setting is. -/
theorem Settings.decode_eq_ok_iff {v : Json} {t : Settings} :
    Settings.decode (.ofJson v) = .ok t ↔ Setting.ofNode? (.ofJson v) = some (.map t) := by
  cases v with
  | null => exact iff_of_false nofun nofun
  | bool b => exact iff_of_false nofun nofun
  | num n => exact iff_of_false nofun nofun
  | str s => exact iff_of_false nofun nofun
  | arr items =>
    refine iff_of_false nofun fun h => ?_
    obtain ⟨ss, -, h⟩ := Option.map_eq_some_iff.1 h
    cases h
  | obj members =>
    constructor
    · intro h
      obtain ⟨es, hes, rfl⟩ := exists_of_map_eq_ok h
      rw [Node.ofJson, Setting.ofNode?, Setting.entriesOf?_eq_some_iff.2 hes, Option.map_some]
    · intro h
      obtain ⟨es, hes, h⟩ := Option.map_eq_some_iff.1 h
      cases h
      rw [Node.ofJson, decode, table, Setting.entriesOf?_eq_some_iff.1 hes]
      rfl

theorem Settings.exists_decode_iff (v : Json) : (∃ t, Settings.decode (.ofJson v) = .ok t) ↔
    v.NullFree ∧ ∃ members, v = .obj members := by
  simp only [Settings.decode_eq_ok_iff, ← Setting.exists_ofNode?_iff]
  constructor
  · rintro ⟨t, ht⟩
    refine ⟨⟨_, ht⟩, ?_⟩
    have hwritten : (Setting.map t).toJson = v.collapse := Setting.toJson_of_ofNode? ht
    cases v with
    | obj members => exact ⟨members, rfl⟩
    | _ => cases hwritten
  · rintro ⟨⟨s, hs⟩, members, rfl⟩
    obtain ⟨es, -, rfl⟩ := Option.map_eq_some_iff.1 hs
    exact ⟨_, hs⟩

/-! ### Rule entries -/

namespace RawSeverity

/-- A severity as the first element of a list. -/
def toSetting : RawSeverity → Setting
  | .code n => .num n
  | .word s => .str s

theorem ofNode?_eq_toSetting_iff {r : RawSeverity} {v : Json} :
    Setting.ofNode? (.ofJson v) = some r.toSetting ↔ v = r.toJson := by
  constructor
  · intro h
    have hwritten := Setting.toJson_of_ofNode? h
    cases v with
    | arr items => cases r <;> cases hwritten
    | obj members => cases r <;> cases hwritten
    | _ => cases r <;> exact hwritten.symm
  · rintro rfl
    cases r <;> rfl

end RawSeverity

/-- A text or a number, as which a severity is written. -/
def Json.IsSeverity (v : Json) : Prop := (∃ s, v = .str s) ∨ ∃ n, v = .num n

theorem Json.IsSeverity.nullFree {v : Json} (h : v.IsSeverity) : v.NullFree := by
  obtain ⟨s, rfl⟩ | ⟨n, rfl⟩ := h
  · exact Json.nullFree_str s
  · exact Json.nullFree_num n

theorem Json.isSeverity_iff {v : Json} : v.IsSeverity ↔ ∃ r : RawSeverity, v = r.toJson := by
  constructor
  · rintro (⟨s, rfl⟩ | ⟨n, rfl⟩)
    · exact ⟨.word s, rfl⟩
    · exact ⟨.code n, rfl⟩
  · rintro ⟨_ | _, rfl⟩
    · exact .inr ⟨_, rfl⟩
    · exact .inl ⟨_, rfl⟩

namespace RuleEntry

variable {v : Json} {e : RuleEntry} {items : List Json}

/-- A list stands for an entry if it starts with a severity; the others are its options, if there
are any. -/
theorem ofList_eq_ok_iff {ss : List Setting} : ofList ss = .ok e ↔ ∃ options,
    ss = e.severity.toSetting :: options ∧
      e.options = if options.isEmpty then none else some options := by
  constructor
  · intro h
    cases ss with
    | nil => cases h
    | cons s rest =>
      cases s with
      | str word | num n =>
        cases h
        exact ⟨rest, rfl, rfl⟩
      | bool b | list items | map entries => cases h
  · rintro ⟨options, rfl, hoptions⟩
    obtain ⟨severity, given⟩ := e
    obtain rfl : given = _ := hoptions
    cases severity <;> rfl

theorem decode_arr_eq_ok_iff : decode (.ofJson (.arr items)) = .ok e ↔ ∃ rest options,
    items = e.severity.toJson :: rest ∧
      Setting.itemsOf? (Node.ofItems rest) = some options ∧
      e.options = if options.isEmpty then none else some options := by
  have hlist : decode (.ofJson (.arr items)) = .ok e ↔
      ∃ ss, Setting.itemsOf? (Node.ofItems items) = some ss ∧ ofList ss = .ok e := by
    rw [decode, Node.ofJson, Setting.ofNode?]
    cases Setting.itemsOf? (Node.ofItems items) <;> simp [ofSetting]
  simp only [hlist, ofList_eq_ok_iff, Setting.itemsOf?_eq_some_iff]
  constructor
  · rintro ⟨_, hitems, options, rfl, hoptions⟩
    obtain ⟨j, rest, hj, hrest, rfl⟩ := List.forall₂_cons_right_iff.1 hitems
    rw [RawSeverity.ofNode?_eq_toSetting_iff.1 hj]
    exact ⟨rest, options, rfl, hrest, hoptions⟩
  · rintro ⟨rest, options, rfl, hrest, hoptions⟩
    exact ⟨_, .cons (RawSeverity.ofNode?_eq_toSetting_iff.2 rfl) hrest, options, rfl, hoptions⟩

theorem decode_severity (r : RawSeverity) : decode (.ofJson r.toJson) = .ok ⟨r, none⟩ := by
  cases r <;> rfl

/-- What is neither a severity nor an array is no entry. -/
theorem decode_ne_ok (hseverity : ¬ v.IsSeverity) (harr : ∀ items, v ≠ .arr items) :
    decode (.ofJson v) ≠ .ok e := by
  cases v with
  | null => nofun
  | bool b => nofun
  | num n => exact absurd (.inr ⟨n, rfl⟩) hseverity
  | str s => exact absurd (.inl ⟨s, rfl⟩) hseverity
  | arr items => exact absurd rfl (harr items)
  | obj members =>
    rw [decode, Node.ofJson, Setting.ofNode?]
    cases Setting.entriesOf? (Node.ofMembers members) <;> simp [ofSetting]

/-- An entry is read from a severity, or from an array without nulls that starts with one. -/
theorem exists_decode_iff (v : Json) : (∃ e, decode (.ofJson v) = .ok e) ↔
    v.IsSeverity ∨ ∃ head rest, v = .arr (head :: rest) ∧ head.IsSeverity ∧ v.NullFree := by
  constructor
  · rintro ⟨e, h⟩
    by_cases hseverity : v.IsSeverity
    · exact .inl hseverity
    by_cases harr : ∃ items, v = .arr items
    · obtain ⟨items, rfl⟩ := harr
      obtain ⟨rest, options, rfl, hrest, -⟩ := decode_arr_eq_ok_iff.1 h
      have hhead : e.severity.toJson.IsSeverity := Json.isSeverity_iff.2 ⟨e.severity, rfl⟩
      exact .inr ⟨_, rest, rfl, hhead, Json.nullFree_arr_iff.2 (List.forall_mem_cons.2
        ⟨hhead.nullFree, Setting.exists_itemsOf?_iff.1 ⟨options, hrest⟩⟩)⟩
    · exact absurd h (decode_ne_ok hseverity fun items hv => harr ⟨items, hv⟩)
  · rintro (hseverity | ⟨head, rest, rfl, hhead, hfree⟩)
    · obtain ⟨r, rfl⟩ := Json.isSeverity_iff.1 hseverity
      exact ⟨_, decode_severity r⟩
    · obtain ⟨r, rfl⟩ := Json.isSeverity_iff.1 hhead
      obtain ⟨-, hrest⟩ := List.forall_mem_cons.1 (Json.nullFree_arr_iff.1 hfree)
      obtain ⟨options, hoptions⟩ := Setting.exists_itemsOf?_iff.2 hrest
      exact ⟨⟨r, _⟩, decode_arr_eq_ok_iff.2 ⟨rest, options, rfl, hoptions, rfl⟩⟩

/-- An array without options stands for the same entry as its severity, which the entry is written
as. -/
theorem decode_singleton {head : Json} (h : decode (.ofJson (.arr [head])) = .ok e) :
    e.toJson = head ∧ decode (.ofJson head) = .ok e := by
  obtain ⟨_, options, hitems, hrest, hoptions⟩ := decode_arr_eq_ok_iff.1 h
  obtain ⟨rfl, rfl⟩ := List.cons_eq_cons.1 hitems
  cases hrest
  obtain ⟨severity, given⟩ := e
  obtain rfl : given = none := hoptions
  exact ⟨rfl, decode_severity severity⟩

/-- Every other entry is written as the value that it was read from. -/
theorem toJson_of_decode (h : decode (.ofJson v) = .ok e) (hv : ∀ head, v ≠ .arr [head]) :
    e.toJson = v.collapse := by
  obtain ⟨r, rfl⟩ | ⟨head, rest, rfl, -⟩ :=
    ((exists_decode_iff v).1 ⟨e, h⟩).imp_left Json.isSeverity_iff.1
  · rw [decode_severity] at h
    cases h
    cases r <;> rfl
  · obtain ⟨_, options, hitems, hrest, hoptions⟩ := decode_arr_eq_ok_iff.1 h
    obtain ⟨rfl, rfl⟩ := List.cons_eq_cons.1 hitems
    have hwritten := Setting.itemsJson_of_itemsOf? hrest
    have hsome : e.options = some options := by
      cases options with
      | nil =>
        obtain rfl : rest = [] := List.map_eq_nil_iff.1 hwritten.symm
        exact absurd rfl (hv e.severity.toJson)
      | cons s ss => exact hoptions
    rw [toJson, hsome, Json.collapse, Json.collapseItems_eq_map, List.map_cons, ← hwritten]
    cases e.severity <;> rfl

end RuleEntry

/-! ### What is read and what is written -/

namespace Decode

/-- A setting is read from just the values without nulls, settings in a table from just the objects
among them, and both are written as the value that they were read from, which is kept as it is if no
object in it repeats a name.  An entry is read from just the texts and numbers and the arrays
without nulls that start with one, and is written as the value that it was read from, but an array
of one element as that element, which stands for the same entry. -/
theorem nullFree_roundTrip (v : Json) :
    ((∃ s, setting (.ofJson v) = .ok s) ↔ v.NullFree) ∧
    (∀ s, setting (.ofJson v) = .ok s → s.toJson = v.collapse ∧ (v.Keyed → s.toJson = v)) ∧
    ((∃ t, Settings.decode (.ofJson v) = .ok t) ↔ v.NullFree ∧ ∃ members, v = .obj members) ∧
    (∀ t, Settings.decode (.ofJson v) = .ok t →
      t.toJson = v.collapse ∧ (v.Keyed → t.toJson = v)) ∧
    ((∃ e, RuleEntry.decode (.ofJson v) = .ok e) ↔
      v.IsSeverity ∨ ∃ head rest, v = .arr (head :: rest) ∧ head.IsSeverity ∧ v.NullFree) ∧
    ∀ e, RuleEntry.decode (.ofJson v) = .ok e →
      (∀ head, v = .arr [head] → e.toJson = head ∧ RuleEntry.decode (.ofJson head) = .ok e) ∧
      ((∀ head, v ≠ .arr [head]) → e.toJson = v.collapse ∧ (v.Keyed → e.toJson = v)) := by
  have hkept {j : Json} (hj : j = v.collapse) : j = v.collapse ∧ (v.Keyed → j = v) :=
    ⟨hj, fun hv => hj.trans hv.collapse_eq_self⟩
  refine ⟨?settings, fun s hs => hkept ?setting, Settings.exists_decode_iff v,
    fun t ht => hkept ?table, RuleEntry.exists_decode_iff v,
    fun e he => ⟨?bare, fun hv => hkept ?entry⟩⟩
  case settings => simp only [Setting.setting_eq_ok_iff, Setting.exists_ofNode?_iff]
  case setting => exact Setting.toJson_of_ofNode? (Setting.setting_eq_ok_iff.1 hs)
  case table => exact Setting.toJson_of_ofNode? (Settings.decode_eq_ok_iff.1 ht)
  case bare =>
    rintro head rfl
    exact RuleEntry.decode_singleton he
  case entry => exact RuleEntry.toJson_of_decode he hv

/-- Numbers of both kinds under two keys. -/
def limits : Json := .obj [("max", .num (.int 1)), ("ratio", .num (.float (.ofInt 1)))]

/-- Settings, and a rule with these settings as its options or without options. -/
theorem nullFree_roundTrip_limits :
    (∃ s, setting (.ofJson limits) = .ok s ∧ s.toJson = limits) ∧
    (∃ t, Settings.decode (.ofJson limits) = .ok t ∧ t.toJson = limits) ∧
    (∃ e, RuleEntry.decode (.ofJson (.arr [.str "warn", limits])) = .ok e ∧
      e.toJson = .arr [.str "warn", limits]) ∧
    ∃ e, RuleEntry.decode (.ofJson (.arr [.str "warn"])) = .ok e ∧ e.toJson = .str "warn" ∧
      RuleEntry.decode (.ofJson (.str "warn")) = .ok e := by
  have hlimits : limits.Keyed := by
    simp [limits, Json.keyed_obj_iff, Json.keyed_num, Table.keys]
  have harr : (Json.arr [.str "warn", limits]).Keyed := by
    simp [Json.keyed_arr_iff, Json.keyed_str, hlimits]
  obtain ⟨-, hsetting, -, htable, -⟩ := nullFree_roundTrip limits
  obtain ⟨-, -, -, -, -, hoptions⟩ := nullFree_roundTrip (.arr [.str "warn", limits])
  obtain ⟨-, -, -, -, -, hbare⟩ := nullFree_roundTrip (.arr [.str "warn"])
  exact ⟨⟨_, rfl, (hsetting _ rfl).2 hlimits⟩, ⟨_, rfl, (htable _ rfl).2 hlimits⟩,
    ⟨_, rfl, ((hoptions _ rfl).2 (by simp)).2 harr⟩, ⟨_, rfl, (hbare _ rfl).1 _ rfl⟩⟩

end Decode

end LintConfig
