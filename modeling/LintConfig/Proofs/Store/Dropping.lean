import LintConfig.Proofs.Store.Flattening
import LintConfig.Proofs.Store.Loader
import LintConfig.Proofs.Store.Visits

/-!
# What is dropped

After a load has given a chain, dropping a fragment takes from the chain exactly that fragment and
those that extend it, directly or through others; what else is dropped extends it as well, through
fragments that are held (`Loader.run_load_invalidate`).  Nothing is said of fragments whose bases
were walked over in part only, so beside the chain there may be more that extend it.
-/

namespace LintConfig

open Relation

/-- A fragment of a chain lists a reference among those that it extends. -/
def Chain.Extends (c : Chain) (a b : String) : Prop :=
  ∃ f ∈ c.fragments, f.id = a ∧ b ∈ f.references

/-- What a fragment of a chain extends is in the chain. -/
def Chain.Closed (c : Chain) : Prop := ∀ f ∈ c.fragments, ∀ b ∈ f.references, b ∈ c.ids

namespace Walk

variable {c : Catalog} {loading rs : List String} {fs : List Fragment}

/-- A walk that succeeds visits its references. -/
theorem mem_ids (hid : ∀ id f, c id = some f → f.id = id) (h : Walk c loading rs (.ok fs)) :
    ∀ r ∈ rs, r ∈ fs.map Fragment.id := by
  generalize hx : (Except.ok fs : Except Error (List Fragment)) = x at h
  induction h generalizing fs with
  | done => exact fun r hr => absurd hr List.not_mem_nil
  | visited h hr _ _ ih ih' =>
    cases hx
    intro r hmem
    rw [List.map_append, List.map_cons, List.mem_append, List.mem_cons]
    rcases List.mem_cons.1 hmem with rfl | hmem
    · exact .inr (.inl (hid _ _ h).symm)
    · exact .inr (.inr (ih' rfl r hmem))
  | _ => cases hx

theorem closed (hid : ∀ id f, c id = some f → f.id = id) (h : Walk c loading rs (.ok fs)) :
    ∀ f ∈ fs, ∀ b ∈ f.references, b ∈ fs.map Fragment.id := by
  generalize hx : (Except.ok fs : Except Error (List Fragment)) = x at h
  induction h generalizing fs with
  | done =>
    cases hx
    simp
  | visited h hr hbases _ ih ih' =>
    cases hx
    intro f hf b hb
    rw [List.map_append, List.map_cons, List.mem_append, List.mem_cons]
    rcases List.mem_append.1 hf with hf | hf
    · exact .inl (ih rfl f hf b hb)
    · rcases List.mem_cons.1 hf with rfl | hf
      · exact .inl (hbases.mem_ids hid b hb)
      · exact .inr (.inr (ih' rfl f hf b hb))
  | _ => cases hx

end Walk

namespace Store

variable {s : Store} {a b id : String} {c : Chain}

/-- The fragments that a store holds. -/
def held (s : Store) : Catalog := fun id => Table.get? s.fragments id

/-- From a fragment that is held the notes lead back through fragments that are held, each of which
lists the next. -/
theorem Linked.of_path (h : Linked s) (hpath : ReflTransGen s.Noted id a) (ha : s.has a = true) :
    a = id ∨ TransGen s.held.Extends a id := by
  induction hpath with
  | refl => exact .inl rfl
  | tail _ hnoted ih =>
    obtain ⟨f, hf⟩ := has_iff.1 ha
    obtain ⟨hlisted, hhas⟩ := h.listed _ _ f hnoted hf
    have hstep : s.held.Extends _ _ := ⟨f, hf, hlisted⟩
    rcases ih hhas with rfl | hpath
    · exact .inr (.single hstep)
    · exact .inr (.head hstep hpath)

/-- A path in a chain whose fragments are recorded is noted. -/
theorem path_of_recorded (h : ∀ f ∈ c.fragments, s.Recorded f) (hpath : TransGen c.Extends a b) :
    ReflTransGen s.Noted b a := by
  have hnoted {a b : String} (hab : c.Extends a b) : s.Noted b a := by
    obtain ⟨f, hf, rfl, hb⟩ := hab
    exact (h f hf).2 b hb
  induction hpath using TransGen.head_induction_on with
  | single hab => exact .single (hnoted hab)
  | head hab _ ih => exact ih.tail (hnoted hab)

/-- From a fragment of a chain, paths through what is held stay in the chain. -/
theorem path_in_chain (h : ∀ f ∈ c.fragments, s.Recorded f) (hclosed : c.Closed) (ha : a ∈ c.ids)
    (hpath : TransGen s.held.Extends a b) : TransGen c.Extends a b := by
  have hstep {a b : String} (ha : a ∈ c.ids) (hab : s.held.Extends a b) :
      c.Extends a b ∧ b ∈ c.ids := by
    obtain ⟨f, hf, rfl⟩ := List.mem_map.1 ha
    obtain ⟨g, hg, hb⟩ := hab
    obtain rfl := Option.some.inj ((h f hf).1.symm.trans hg)
    exact ⟨⟨f, hf, rfl, hb⟩, hclosed f hf b hb⟩
  induction hpath using TransGen.head_induction_on with
  | single hab => exact .single (hstep ha hab).1
  | head hab _ ih =>
    obtain ⟨hac, hc⟩ := hstep ha hab
    exact .head hac (ih hc)

theorem mem_ids_of_path (hclosed : c.Closed) (hpath : TransGen c.Extends a b) : b ∈ c.ids := by
  obtain ⟨_, -, f, hf, -, hb⟩ := TransGen.tail'_iff.1 hpath
  exact hclosed f hf b hb

theorem mem_dropped_iff : a ∈ (s.invalidate id).1 ↔
    ReflTransGen s.Noted id a ∧ s.has a = true := by
  rw [← mem_affected_iff]
  exact List.mem_filter

end Store

namespace Loader

open Store

variable {l : Loader} {steps : List Step}

theorem linked_step (hm : l.lib.InMemory) (h : Linked l.store) (x : Step) :
    Linked (l.step x).store := by
  cases x with
  | load reference => exact (Visits.linked_keeps hm (visited_load hm h reference).1 h).1
  | invalidate id => exact h.invalidate id
  | insert source name document => exact h
  | remove source name => exact h

theorem linked_run {stale : Set String} (hfaithful : Faithful stale l) (h : Linked l.store)
    (steps : List Step) : Linked (l.run steps).store := by
  induction steps generalizing l stale with
  | nil => exact h
  | cons x steps ih => exact ih (hfaithful.step x) (linked_step hfaithful.memory h x)

/-- The fragments of a chain that was loaded are recorded, and what they extend is in the chain. -/
theorem recorded_of_load {stale : Set String} (hfaithful : Faithful stale l) (h : Linked l.store)
    {reference : String} {c : Chain} (hload : (l.load reference).1 = .ok c) :
    (∀ f ∈ c.fragments, (l.load reference).2.store.Recorded f) ∧ c.Closed := by
  obtain ⟨-, hrecorded⟩ := visited_load hfaithful.memory h reference
  refine ⟨hrecorded c hload, ?_⟩
  obtain ⟨x, s', heq, hwalk, -⟩ := load_walk hfaithful.memory l.store reference
  have hx : x.map (Chain.mk reference) = .ok c := by rw [← hload]; exact congrArg Prod.fst heq.symm
  cases x with
  | error e => cases hx
  | ok fs =>
    cases hx
    exact hwalk.closed fun _ _ => hfaithful.store.catalog_id

/-- When steps of any kind have come to a load that gave a chain, invalidating an identity drops
what is held of it and of the fragments noted as extending it, and gives their identities in
order.  Of the chain these are the identity and those fragments that extend it, directly or through
others; every other one extends it through what is held. -/
theorem run_load_invalidate {lib : Library} (hmemory : lib.InMemory) (steps : List Step)
    {reference : String} {c : Chain} {l : Loader}
    (hload : (run { lib } steps).load reference = (.ok c, l)) (id : String)
    {dropped : Names} {s : Store} (hdropped : l.store.invalidate id = (dropped, s)) :
    dropped.Pairwise (· < ·) ∧ (∀ k ∈ dropped, l.store.has k = true) ∧
    (∀ k ∈ c.ids, k ∈ dropped ↔ k = id ∨ TransGen c.Extends k id) ∧
    (id ∉ c.ids → ∀ k ∈ c.ids, k ∉ dropped) ∧
    (∀ k ∈ dropped, k = id ∨ TransGen l.store.held.Extends k id) ∧
    ∀ k, Table.get? s.fragments k =
      if k ∈ dropped then none else Table.get? l.store.fragments k := by
  have hfaithful := (Faithful.fresh hmemory).run steps
  have hlinked := linked_run (Faithful.fresh hmemory) linked_empty steps
  obtain ⟨hrecorded, hclosed⟩ := recorded_of_load hfaithful hlinked (congrArg Prod.fst hload)
  have hl := linked_step hfaithful.memory hlinked (.load reference)
  have hlast : (run { lib } steps).step (.load reference) = l := congrArg Prod.snd hload
  rw [hload] at hrecorded
  rw [hlast] at hl
  obtain rfl : (l.store.invalidate id).1 = dropped := congrArg Prod.fst hdropped
  obtain rfl : (l.store.invalidate id).2 = s := congrArg Prod.snd hdropped
  have hpath : ∀ k ∈ (l.store.invalidate id).1, k = id ∨ TransGen l.store.held.Extends k id := by
    intro k hk
    obtain ⟨hnoted, hhas⟩ := mem_dropped_iff.1 hk
    exact hl.of_path hnoted hhas
  have hchain : ∀ k ∈ c.ids, k ∈ (l.store.invalidate id).1 ↔ k = id ∨ TransGen c.Extends k id := by
    intro k hk
    constructor
    · intro hdropped
      exact (hpath k hdropped).imp_right (path_in_chain hrecorded hclosed hk)
    · intro hk'
      obtain ⟨f, hf, rfl⟩ := List.mem_map.1 hk
      refine mem_dropped_iff.2 ⟨?_, has_iff.2 ⟨f, (hrecorded f hf).1⟩⟩
      rcases hk' with heq | hk'
      · rw [heq]
      · exact path_of_recorded hrecorded hk'
  refine ⟨(sorted_affected l.store id).filter _, fun k hk => (mem_dropped_iff.1 hk).2, hchain, ?_,
    hpath, fun k => ?_⟩
  · intro hid k hk hdropped
    rcases (hchain k hk).1 hdropped with rfl | hpath
    · exact hid hk
    · exact hid (mem_ids_of_path hclosed hpath)
  · have hfilter := Table.get?_filter l.store.fragments
      (fun j => !(l.store.invalidate id).1.contains j) k
    refine hfilter.trans ?_
    by_cases hk : k ∈ (l.store.invalidate id).1 <;> simp [hk]

/-- A document that extends a second one, which extends a third; and another one, which extends the
third and one more that is missing. -/
def detour : Library where
  sources := [.memory "memory" [("app", { bases := .one "mid" }), ("mid", { bases := .one "base" }),
    ("base", {}), ("other", { bases := .many ["base", "nowhere"] })]]
  files := default

/-- A load, another one that fails half way, and a change after which the second document extends
nothing. -/
def reroute : List Step := [.load "app", .load "other", .insert 0 "mid" {}, .invalidate "mid"]

/-- What the second document extended before it was changed is forgotten, and what the load that
failed went through is not. -/
theorem run_reroute : ∃ c l, (run { lib := detour } reroute).load "app" = (.ok c, l) ∧
    c.ids = ["mid", "app"] ∧
    (l.store.invalidate "base").1 = ["base", "other"] ∧
    TransGen l.store.held.Extends "other" "base" ∧
    (l.store.invalidate "mid").1 = ["app", "mid"] ∧
    TransGen c.Extends "app" "mid" := by
  have hmemory : detour.InMemory := by simp [Library.InMemory, detour, Source.IsMemory]
  have hids : ((run { lib := detour } reroute).load "app").1.map Chain.ids =
      .ok ["mid", "app"] := by rfl
  have hbase : (((run { lib := detour } reroute).load "app").2.store.invalidate "base").1 =
      ["base", "other"] := by rfl
  have hmid : (((run { lib := detour } reroute).load "app").2.store.invalidate "mid").1 =
      ["app", "mid"] := by rfl
  rcases hload : (run { lib := detour } reroute).load "app" with ⟨e | c, l⟩
  · rw [hload] at hids
    cases hids
  · rw [hload] at hids hbase hmid
    rw [Except.map, Except.ok.injEq] at hids
    refine ⟨c, l, rfl, hids, hbase, ?_, hmid, ?_⟩
    · have hdropped : l.store.invalidate "base" = (_, _) := Prod.ext hbase rfl
      obtain ⟨-, -, -, -, hpath, -⟩ := run_load_invalidate hmemory reroute hload "base" hdropped
      exact (hpath "other" (by decide)).resolve_left (by decide)
    · have hdropped : l.store.invalidate "mid" = (_, _) := Prod.ext hmid rfl
      obtain ⟨-, -, hchain, -⟩ := run_load_invalidate hmemory reroute hload "mid" hdropped
      exact ((hchain "app" (by simp [hids])).1 (by decide)).resolve_left (by decide)

end Loader

end LintConfig
