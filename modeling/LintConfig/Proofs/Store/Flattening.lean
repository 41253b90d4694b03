import LintConfig.Proofs.Store.Walk
import Mathlib.Data.List.Chain
import Mathlib.Logic.Relation

/-!
# Loading is flattening

Three views of what a reference extends.  `Catalog.Extends` is the graph, `Catalog.Flattens` the
list in which every reference stands after the flattening of its bases, and `Catalog.trail?` the
tree of places that a walk visits, in which a base that is reached twice has two places.  Places
are ordered as a depth-first walk from left to right meets them, which is the lexicographic order,
so `Catalog.FirstProblem` needs no walk to be stated.

Loading from memory into an empty store succeeds exactly if all that is reached is there and
nothing extends itself, and then gives the flattening; otherwise it fails with the first problem
(`load_flattens_or_first_problem`).
-/

namespace LintConfig

open Relation

namespace Catalog

/-- A fragment lists a reference among those that it extends. -/
def Extends (c : Catalog) (a b : String) : Prop := ∃ f, c a = some f ∧ b ∈ f.references

/-- The flattening of references: for each of them, from left to right, the flattening of what it
extends and then the reference itself. -/
inductive Flattens (c : Catalog) : List String → List String → Prop
  | nil : Flattens c [] []
  | cons {r : String} {rs : List String} {f : Fragment} {bases rest : List String}
      (h : c r = some f) (hbases : Flattens c f.references bases) (hrest : Flattens c rs rest) :
      Flattens c (r :: rs) (bases ++ r :: rest)

/-- The references that a fragment extends; a missing one extends none. -/
def basesOf (c : Catalog) (r : String) : List String := ((c r).map Fragment.references).getD []

/-- The references from the outermost one to a place.  A place says which reference to take from
the list at hand, which from the list of those that it extends, and so on. -/
def trail? (c : Catalog) : List String → List Nat → Option (List String)
  | _, [] => some []
  | rs, i :: place => do
    let r ← rs[i]?
    return r :: (← trail? c (c.basesOf r) place)

/-- What is wrong with a reference that is met after a trail of others. -/
inductive Problem (c : Catalog) (trail : List String) (r : String) : Error → Prop
  | missing (h : c r = none) : Problem c trail r (.unresolvedReference r trail.getLast?)
  | closes (h : (c r).isSome) (hr : r ∈ trail) :
      Problem c trail r (.cyclicInheritance (Store.cycleThrough trail r))

/-- No place below some references has a problem, `loading` being the trail that leads to them. -/
def Sound (c : Catalog) (loading rs : List String) : Prop :=
  ∀ place trail r e, c.trail? rs place = some (trail ++ [r]) → ¬ c.Problem (loading ++ trail) r e

/-- A place has a problem, and no place before it has one. -/
def FirstProblem (c : Catalog) (loading rs : List String) (e : Error) : Prop :=
  ∃ place trail r, c.trail? rs place = some (trail ++ [r]) ∧ c.Problem (loading ++ trail) r e ∧
    ∀ place' < place, ∀ trail' r' e', c.trail? rs place' = some (trail' ++ [r']) →
      ¬ c.Problem (loading ++ trail') r' e'

/-- Every reference that is reached from one is there, and none extends itself. -/
def WellFounded (c : Catalog) (root : String) : Prop :=
  (∀ id, ReflTransGen c.Extends root id → (c id).isSome) ∧
    ∀ id, ReflTransGen c.Extends root id → ¬ TransGen c.Extends id id

variable {c : Catalog} {loading rs : List String} {r : String} {f : Fragment}

theorem basesOf_eq (h : c r = some f) : c.basesOf r = f.references := by simp [basesOf, h]

/-! ### Places -/

theorem trail?_eq_cons_iff {i : Nat} {place : List Nat} {l : List String} :
    c.trail? rs (i :: place) = some l ↔
      ∃ r l', rs[i]? = some r ∧ c.trail? (c.basesOf r) place = some l' ∧ l = r :: l' := by
  simp only [trail?, bind, Option.bind_eq_some_iff, pure, Option.some.injEq]
  constructor
  · rintro ⟨r, hr, l', hl, rfl⟩
    exact ⟨r, l', hr, hl, rfl⟩
  · rintro ⟨r, l', hr, hl, rfl⟩
    exact ⟨r, hr, l', hl, rfl⟩

theorem trail?_nil_ne {trail : List String} {r : String} :
    c.trail? rs [] ≠ some (trail ++ [r]) := by
  simp [trail?]

/-- The first reference of a trail, and the trail from there on. -/
theorem trail?_cons_eq_append {i : Nat} {place : List Nat} {trail : List String} {x : String}
    (h : c.trail? rs (i :: place) = some (trail ++ [x])) :
    ∃ r, rs[i]? = some r ∧ (place = [] ∧ trail = [] ∧ x = r ∨
      ∃ trail', trail = r :: trail' ∧ c.trail? (c.basesOf r) place = some (trail' ++ [x])) := by
  obtain ⟨r, l, hr, hl, heq⟩ := trail?_eq_cons_iff.1 h
  refine ⟨r, hr, ?_⟩
  cases trail with
  | nil =>
    rw [List.nil_append, List.cons.injEq] at heq
    obtain ⟨rfl, rfl⟩ := heq
    cases place with
    | nil => exact .inl ⟨rfl, rfl, rfl⟩
    | cons j place =>
      obtain ⟨_, _, -, -, h⟩ := trail?_eq_cons_iff.1 hl
      cases h
  | cons y trail' =>
    rw [List.cons_append, List.cons.injEq] at heq
    obtain ⟨rfl, rfl⟩ := heq
    exact .inr ⟨trail', rfl, hl⟩

theorem trail?_skip (r : String) (i : Nat) (place : List Nat) :
    c.trail? (r :: rs) ((i + 1) :: place) = c.trail? rs (i :: place) := by
  simp [trail?]

theorem trail?_first (r : String) (rs : List String) (place : List Nat) :
    c.trail? (r :: rs) (0 :: place) = (c.trail? (c.basesOf r) place).map (r :: ·) := by
  cases h : c.trail? (c.basesOf r) place <;> simp [trail?, h]

/-- A trail goes on to each base of its last reference. -/
theorem exists_trail?_snoc {place : List Nat} {trail : List String} {a b : String}
    (h : c.trail? rs place = some (trail ++ [a])) (hab : c.Extends a b) :
    ∃ place', c.trail? rs place' = some (trail ++ [a] ++ [b]) := by
  obtain ⟨f, hf, hb⟩ := hab
  obtain ⟨j, hj⟩ := List.mem_iff_getElem?.1 hb
  induction place generalizing rs trail with
  | nil => exact absurd h trail?_nil_ne
  | cons i place ih =>
    obtain ⟨r, hr, ⟨rfl, rfl, rfl⟩ | ⟨trail', rfl, htail⟩⟩ := trail?_cons_eq_append h
    · refine ⟨[i, j], trail?_eq_cons_iff.2 ⟨a, [b], hr, ?_, rfl⟩⟩
      exact trail?_eq_cons_iff.2 ⟨b, [], by rwa [basesOf_eq hf], rfl, rfl⟩
    · obtain ⟨place', hplace'⟩ := ih htail
      exact ⟨i :: place', trail?_eq_cons_iff.2 ⟨r, _, hr, hplace', rfl⟩⟩

theorem exists_trail?_of_transGen {place : List Nat} {trail : List String} {a b : String}
    (h : c.trail? rs place = some (trail ++ [a])) (hab : TransGen c.Extends a b) :
    ∃ place' between, c.trail? rs place' = some (trail ++ [a] ++ between ++ [b]) := by
  induction hab with
  | single hab =>
    obtain ⟨place', hplace'⟩ := exists_trail?_snoc h hab
    exact ⟨place', [], by simpa using hplace'⟩
  | tail _ hbc ih =>
    obtain ⟨place', between, hplace'⟩ := ih
    obtain ⟨place'', hplace''⟩ := exists_trail?_snoc hplace' hbc
    exact ⟨place'', between ++ [_], by simpa using hplace''⟩

/-- Every reference that is reached has a place. -/
theorem exists_trail?_of_reached {root id : String} (h : ReflTransGen c.Extends root id) :
    ∃ place trail, c.trail? [root] place = some (trail ++ [id]) := by
  have hroot : c.trail? [root] [0] = some ([] ++ [root]) := rfl
  rcases reflTransGen_iff_eq_or_transGen.1 h with rfl | h
  · exact ⟨[0], [], hroot⟩
  · obtain ⟨place, between, hplace⟩ := exists_trail?_of_transGen hroot h
    exact ⟨place, _, hplace⟩

/-- Along a trail each reference extends the next. -/
theorem isChain_of_trail? {place : List Nat} {l : List String} (h : c.trail? rs place = some l) :
    l.IsChain c.Extends ∧ ∀ r ∈ l.head?, r ∈ rs := by
  induction place generalizing rs l with
  | nil =>
    obtain rfl : [] = l := by simpa [trail?] using h
    simp
  | cons i place ih =>
    obtain ⟨r, l', hr, hl', rfl⟩ := trail?_eq_cons_iff.1 h
    obtain ⟨hchain, hhead⟩ := ih hl'
    refine ⟨?_, by simpa using List.mem_of_getElem? hr⟩
    cases l' with
    | nil => simp
    | cons x l' =>
      refine List.isChain_cons_cons.2 ⟨?_, hchain⟩
      have hx : x ∈ c.basesOf r := hhead x rfl
      cases hf : c r with
      | none => simp [basesOf, hf] at hx
      | some f => exact ⟨f, hf, by rwa [basesOf_eq hf] at hx⟩

/-- The references of a trail lead to its last one. -/
theorem transGen_of_trail? {place : List Nat} {trail : List String} {a b : String}
    (h : c.trail? rs place = some (trail ++ [b])) (ha : a ∈ trail) : TransGen c.Extends a b := by
  have hchain := (isChain_of_trail? h).1.imp fun _ _ h => TransGen.single h
  have hpair := hchain.pairwise
  rw [List.pairwise_append] at hpair
  exact hpair.2.2 a ha b (by simp)

theorem reached_of_trail? {place : List Nat} {trail : List String} {root id : String}
    (h : c.trail? [root] place = some (trail ++ [id])) : ReflTransGen c.Extends root id := by
  obtain ⟨-, hhead⟩ := isChain_of_trail? h
  cases trail with
  | nil =>
    obtain rfl : id = root := by simpa using hhead
    exact .refl
  | cons a trail =>
    obtain rfl : a = root := by simpa using hhead
    exact (transGen_of_trail? h (by simp)).to_reflTransGen

/-! ### Problems and the graph -/

theorem Sound.wellFounded {root : String} (h : c.Sound [] [root]) : c.WellFounded root := by
  refine ⟨fun id hid => ?_, fun id hid hcycle => ?_⟩
  · obtain ⟨place, trail, hplace⟩ := exists_trail?_of_reached hid
    by_contra hnone
    rw [Option.not_isSome_iff_eq_none] at hnone
    exact h place trail id _ hplace (.missing hnone)
  · obtain ⟨place, trail, hplace⟩ := exists_trail?_of_reached hid
    obtain ⟨place', between, hplace'⟩ := exists_trail?_of_transGen hplace hcycle
    obtain ⟨_, ⟨f, hf, -⟩, -⟩ := TransGen.head'_iff.1 hcycle
    exact h place' _ id _ hplace' (.closes (by rw [hf]; rfl) (by simp))

theorem FirstProblem.not_wellFounded {root : String} {e : Error}
    (h : c.FirstProblem [] [root] e) : ¬ c.WellFounded root := by
  rintro ⟨hall, hacyclic⟩
  obtain ⟨place, trail, r, hplace, hproblem, -⟩ := h
  have hreached := reached_of_trail? hplace
  cases hproblem with
  | missing hnone =>
    have := hall r hreached
    simp [hnone] at this
  | closes _ hr => exact hacyclic r hreached (transGen_of_trail? hplace hr)

theorem Problem.unique {trail : List String} {e e' : Error} (h : c.Problem trail r e)
    (h' : c.Problem trail r e') : e = e' := by
  cases h with
  | missing hnone =>
    cases h' with
    | missing => rfl
    | closes hsome => simp [hnone] at hsome
  | closes hsome _ =>
    cases h' with
    | missing hnone => simp [hnone] at hsome
    | closes => rfl

/-- The order of places is total, so there is one first problem at most. -/
theorem FirstProblem.unique {e e' : Error} (h : c.FirstProblem loading rs e)
    (h' : c.FirstProblem loading rs e') : e = e' := by
  obtain ⟨place, trail, r, hplace, hproblem, hfirst⟩ := h
  obtain ⟨place', trail', r', hplace', hproblem', hfirst'⟩ := h'
  rcases lt_trichotomy place place' with hlt | rfl | hlt
  · exact absurd hproblem (hfirst' place hlt trail r e hplace)
  · obtain ⟨rfl, hr⟩ := List.append_inj' (Option.some.inj (hplace.symm.trans hplace')) rfl
    obtain rfl : r = r' := by simpa using hr
    exact hproblem.unique hproblem'
  · exact absurd hproblem' (hfirst place' hlt trail' r' e' hplace')

end Catalog

/-! ### Walks -/

namespace Walk

open Catalog

variable {c : Catalog} {loading rs : List String} {r : String} {f : Fragment}

theorem flattens {fs : List Fragment} (hid : ∀ id f, c id = some f → f.id = id)
    (h : Walk c loading rs (.ok fs)) : c.Flattens rs (fs.map Fragment.id) := by
  generalize hx : (Except.ok fs : Except Error (List Fragment)) = x at h
  induction h generalizing fs with
  | done =>
    cases hx
    exact .nil
  | visited h hr _ _ ih ih' =>
    cases hx
    rw [List.map_append, List.map_cons, hid _ _ h]
    exact .cons h (ih rfl) (ih' rfl)
  | _ => cases hx

/-- The places below a list are those below its first reference, and those below the others. -/
theorem sound_cons (h : c r = some f) (hr : r ∉ loading)
    (hbases : c.Sound (loading ++ [r]) f.references) (hrest : c.Sound loading rs) :
    c.Sound loading (r :: rs) := by
  intro place trail x e hplace hproblem
  match place with
  | [] => exact trail?_nil_ne hplace
  | 0 :: place =>
    obtain ⟨r', hr', ⟨-, rfl, rfl⟩ | ⟨trail', rfl, htail⟩⟩ := trail?_cons_eq_append hplace
    · obtain rfl : r = x := by simpa using hr'
      cases hproblem with
      | missing hnone => simp [h] at hnone
      | closes _ hmem => exact hr (by simpa using hmem)
    · obtain rfl : r = r' := by simpa using hr'
      rw [basesOf_eq h] at htail
      exact hbases place trail' x e htail (by simpa using hproblem)
  | (i + 1) :: place =>
    rw [trail?_skip] at hplace
    exact hrest (i :: place) trail x e hplace hproblem

theorem sound {fs : List Fragment} (h : Walk c loading rs (.ok fs)) : c.Sound loading rs := by
  generalize hx : (Except.ok fs : Except Error (List Fragment)) = x at h
  induction h generalizing fs with
  | done =>
    intro place trail r e hplace
    match place with
    | [] => exact absurd hplace trail?_nil_ne
    | i :: place =>
      obtain ⟨r', hr', -⟩ := trail?_cons_eq_append hplace
      simp at hr'
  | visited h hr _ _ ih ih' => exact sound_cons h hr (ih rfl) (ih' rfl)
  | _ => cases hx

/-- A problem of the first reference of a list comes before all others. -/
theorem firstProblem_here {e : Error} (h : c.Problem loading r e) :
    c.FirstProblem loading (r :: rs) e := by
  refine ⟨[0], [], r, rfl, by simpa using h, fun place hlt trail' r' e' hplace => ?_⟩
  match place with
  | [] => exact absurd hplace trail?_nil_ne
  | i :: place => simp [List.cons_lt_cons_iff] at hlt

theorem firstProblem_inside {e : Error} (h : c r = some f) (hr : r ∉ loading)
    (hbases : c.FirstProblem (loading ++ [r]) f.references e) :
    c.FirstProblem loading (r :: rs) e := by
  obtain ⟨place, trail, x, hplace, hproblem, hfirst⟩ := hbases
  refine ⟨0 :: place, r :: trail, x, ?_, by simpa using hproblem, ?_⟩
  · rw [trail?_first, basesOf_eq h, hplace]
    rfl
  · intro place' hlt trail' r' e' hplace' hproblem'
    match place' with
    | [] => exact trail?_nil_ne hplace'
    | i :: place' =>
      obtain ⟨rfl, hlt'⟩ : i = 0 ∧ place' < place := by simpa [List.cons_lt_cons_iff] using hlt
      obtain ⟨y, hy, ⟨-, rfl, rfl⟩ | ⟨trail'', rfl, htail⟩⟩ := trail?_cons_eq_append hplace'
      · obtain rfl : r = r' := by simpa using hy
        cases hproblem' with
        | missing hnone => simp [h] at hnone
        | closes _ hmem => exact hr (by simpa using hmem)
      · obtain rfl : r = y := by simpa using hy
        rw [basesOf_eq h] at htail
        exact hfirst place' hlt' trail'' r' e' htail (by simpa using hproblem')

theorem firstProblem_later {e : Error} (h : c r = some f) (hr : r ∉ loading)
    (hbases : c.Sound (loading ++ [r]) f.references) (hrest : c.FirstProblem loading rs e) :
    c.FirstProblem loading (r :: rs) e := by
  obtain ⟨place, trail, x, hplace, hproblem, hfirst⟩ := hrest
  match place, hplace with
  | [], hplace => exact absurd hplace trail?_nil_ne
  | i :: place, hplace =>
    refine ⟨(i + 1) :: place, trail, x, by rwa [trail?_skip], hproblem, ?_⟩
    intro place' hlt trail' r' e' hplace' hproblem'
    match place' with
    | [] => exact trail?_nil_ne hplace'
    | 0 :: place' =>
      -- nothing is wrong with the first reference, so the rest of the list may be left out
      have hnil : c.Sound loading [] := sound (.done loading)
      have hone := sound_cons h hr hbases hnil (0 :: place') trail' r' e'
      rw [trail?_first] at hplace' hone
      exact hone hplace' hproblem'
    | (j + 1) :: place' =>
      rw [trail?_skip] at hplace'
      have hlt' : j :: place' < i :: place := by
        simpa [List.cons_lt_cons_iff] using hlt
      exact hfirst _ hlt' trail' r' e' hplace' hproblem'

theorem firstProblem {e : Error} (h : Walk c loading rs (.error e)) :
    c.FirstProblem loading rs e := by
  generalize hx : (Except.error e : Except Error (List Fragment)) = x at h
  induction h generalizing e with
  | missing h =>
    cases hx
    exact firstProblem_here (.missing h)
  | closes h hr =>
    cases hx
    exact firstProblem_here (.closes (by rw [h]; rfl) hr)
  | inside h hr _ ih => exact firstProblem_inside h hr (ih hx)
  | later h hr hb _ _ ih => exact firstProblem_later h hr hb.sound (ih hx)
  | _ => cases hx

end Walk

/-! ### Loading -/

namespace Library

theorem catalog_id {lib : Library} {id : String} {f : Fragment} (h : lib.catalog id = some f) :
    f.id = id := by
  obtain ⟨d, -, rfl⟩ := Option.map_eq_some_iff.1 h
  rfl

end Library

namespace Store

variable {lib : Library}

/-- A greater bound on the depth changes nothing. -/
theorem loadFrom_eq_of_le (h : lib.InMemory) {s : Store} {reference : String} {f : Fragment}
    (hf : s.catalog lib reference = some f) {fuel : Nat} (hfuel : depthBound lib s ≤ fuel) :
    (loadFrom lib fuel [] reference s).1 = (loadFrom lib (depthBound lib s) [] reference s).1 := by
  have hbound : lib.names.length < depthBound lib s := by
    have hle := Library.length_names_le lib
    unfold depthBound
    omega
  obtain ⟨x, s₁, hx, hwalk, -⟩ := loadFrom_walk h fuel [] reference s f hf List.nodup_nil
    (by simp) (by simp only [List.length_nil]; omega)
  obtain ⟨y, s₂, hy, hwalk', -⟩ := loadFrom_walk h (depthBound lib s) [] reference s f hf
    List.nodup_nil (by simp) (by simpa using hbound)
  rw [hx, hy]
  exact hwalk.unique hwalk'

/-- Loading from memory into an empty store succeeds exactly if all that the reference reaches is
there and no fragment extends itself.  It then gives the flattening of the reference, and
otherwise the first problem that a depth-first walk from left to right meets; and the bound on its
depth does not matter. -/
theorem load_flattens_or_first_problem (lib : Library) (h : lib.InMemory) (reference : String) :
    ((∃ chain, (load lib {} reference).1 = .ok chain) ↔ lib.catalog.WellFounded reference) ∧
    (∀ chain, (load lib {} reference).1 = .ok chain →
      chain.root = reference ∧ lib.catalog.Flattens [reference] chain.ids) ∧
    (∀ e, (load lib {} reference).1 = .error e ↔ lib.catalog.FirstProblem [] [reference] e) ∧
    (∀ fuel, depthBound lib {} ≤ fuel → (lib.catalog reference).isSome →
      (loadFrom lib fuel [] reference {}).1 =
        (loadFrom lib (depthBound lib {}) [] reference {}).1) := by
  obtain ⟨x, s, hx, hwalk, -⟩ := load_walk h {} reference
  rw [catalog_empty] at hwalk
  rw [hx]
  refine ⟨?_, ?_, ?_, fun fuel hfuel hsome => ?_⟩
  · cases x with
    | ok fs => exact ⟨fun _ => hwalk.sound.wellFounded, fun _ => ⟨_, rfl⟩⟩
    | error e =>
      refine ⟨fun hok => ?_, fun hwf => absurd hwf hwalk.firstProblem.not_wellFounded⟩
      obtain ⟨chain, hok⟩ := hok
      cases hok
  · intro chain hchain
    cases x with
    | ok fs =>
      cases hchain
      exact ⟨rfl, hwalk.flattens fun _ _ => Library.catalog_id⟩
    | error e => cases hchain
  · intro e
    cases x with
    | ok fs =>
      refine ⟨fun he => ?_, fun he => absurd hwalk.sound.wellFounded he.not_wellFounded⟩
      cases he
    | error e' =>
      refine ⟨fun he => ?_, fun he => ?_⟩
      · cases he
        exact hwalk.firstProblem
      · rw [he.unique hwalk.firstProblem]
        rfl
  · obtain ⟨f, hf⟩ := Option.isSome_iff_exists.1 hsome
    rw [← catalog_empty] at hf
    exact loadFrom_eq_of_le h hf hfuel

/-- A diamond of documents, and two documents that extend each other. -/
def diamondAndKnot : Library where
  sources := [.memory "memory" [
    ("app", { bases := .many ["left", "right"] }),
    ("left", { bases := .one "base" }),
    ("right", { bases := .one "base" }),
    ("base", {}),
    ("knot", { bases := .many ["base", "loop"] }),
    ("loop", { bases := .one "knot" })]]
  files := default

theorem load_diamondAndKnot :
    diamondAndKnot.InMemory ∧
    diamondAndKnot.catalog.WellFounded "app" ∧
    diamondAndKnot.catalog.Flattens ["app"] ["base", "left", "base", "right", "app"] ∧
    diamondAndKnot.catalog.FirstProblem [] ["knot"]
      (.cyclicInheritance ["knot", "loop", "knot"]) := by
  have h : diamondAndKnot.InMemory := by simp [Library.InMemory, diamondAndKnot, Source.IsMemory]
  obtain ⟨hwf, hflat, -, -⟩ := load_flattens_or_first_problem diamondAndKnot h "app"
  obtain ⟨-, -, hproblem, -⟩ := load_flattens_or_first_problem diamondAndKnot h "knot"
  have happ : ((load diamondAndKnot {} "app").1.map Chain.ids) =
      .ok ["base", "left", "base", "right", "app"] := by rfl
  cases hload : (load diamondAndKnot {} "app").1 with
  | error e => simp [hload, Except.map] at happ
  | ok chain =>
    rw [hload, Except.map, Except.ok.injEq] at happ
    exact ⟨h, hwf.1 ⟨chain, hload⟩, happ ▸ (hflat chain hload).2, (hproblem _).1 (by rfl)⟩

end Store

end LintConfig
