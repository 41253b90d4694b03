import LintConfig.Proofs.Store.Dropping

/-!
# Cycles

The fragments that are being loaded stand on a trail: none of them twice, and each of them lists the
next.  A load that reports a cycle has come back to its trail (`Store.Closes`), and what it reports
is the trail from there on.  `Loader.load_cycle` says what this is in terms of the fragments that
are then held: a cycle that repeats nothing, reached from what was to be loaded; and where no held
fragment that is reached extends itself, only a missing reference keeps a load from giving a chain.
-/

namespace LintConfig

open Relation

variable {c : Catalog} {cycle loading trail : List String} {id : String}

/-- A list of names that leads back to its first one: each extends the next, and none but the last,
which is the first again, stands there twice. -/
structure Catalog.IsCycle (c : Catalog) (cycle : List String) : Prop where
  two_le : 2 ≤ cycle.length
  closed : cycle.head? = cycle.getLast?
  nodup : cycle.dropLast.Nodup
  linked : cycle.IsChain c.Extends

theorem transGen_of_isChain {α : Type} {r : α → α → Prop} {a b : α} {l : List α}
    (h : (a :: l).IsChain r) (hb : b ∈ l) : TransGen r a b := by
  have hpaths := (h.imp fun _ _ hab => TransGen.single hab).pairwise
  exact (List.pairwise_cons.1 hpaths).1 b hb

/-- A cycle leads from its first name to that name. -/
theorem Catalog.IsCycle.transGen (h : c.IsCycle cycle) (hid : id ∈ cycle.head?) :
    TransGen c.Extends id id := by
  obtain ⟨htwo, hclosed, -, hlinked⟩ := h
  match cycle with
  | [] => simp at htwo
  | [_] => simp at htwo
  | a :: b :: rest =>
    obtain rfl : a = id := by simpa using hid
    refine transGen_of_isChain hlinked (List.mem_of_getLast? ?_)
    simpa using hclosed.symm

theorem Catalog.IsCycle.exists_head (h : c.IsCycle cycle) : ∃ id, id ∈ cycle.head? := by
  cases cycle with
  | nil => simpa using h.two_le
  | cons id rest => exact ⟨id, rfl⟩

namespace Store

variable {lib : Library} {s s' s'' : Store}

/-! ### Trails -/

/-- A trail of fragments that are held comes back to one of them: each lists the next, and none
stands there twice before. -/
structure Closes (s : Store) (trail : List String) (id : String) : Prop where
  nodup : trail.Nodup
  mem : id ∈ trail
  linked : (trail ++ [id]).IsChain s.held.Extends

/-- What is reported of a trail begins where it comes back to. -/
theorem Closes.exists_between (h : s.Closes trail id) : ∃ before between,
    trail = before ++ id :: between ∧ cycleThrough trail id = id :: between ++ [id] := by
  obtain ⟨before, between, rfl, hbefore⟩ := List.eq_append_cons_of_mem h.mem
  refine ⟨before, between, rfl, ?_⟩
  have hskip : ∀ x ∈ before, (x != id) = true := fun x hx => by
    simpa using fun heq : x = id => hbefore (heq ▸ hx)
  rw [cycleThrough, List.dropWhile_append_of_pos hskip, List.dropWhile_cons_of_neg (by simp)]

theorem Closes.isCycle (h : s.Closes trail id) : s.held.IsCycle (cycleThrough trail id) := by
  obtain ⟨before, between, rfl, hcycle⟩ := h.exists_between
  have hlinked := h.linked
  rw [List.append_assoc] at hlinked
  rw [hcycle]
  refine ⟨by simp, ?_, ?_, hlinked.right_of_append⟩
  · rw [List.getLast?_concat]
    rfl
  · rw [List.dropLast_concat]
    exact (List.nodup_append.1 h.nodup).2.1

theorem Closes.head?_cycle (h : s.Closes trail id) : (cycleThrough trail id).head? = some id := by
  obtain ⟨_, _, -, hcycle⟩ := h.exists_between
  rw [hcycle]
  rfl

/-! ### Loading -/

/-- What holds after a load that goes on from a trail: the store holds what it held before, and a
cycle is reported only of a trail that goes on from this one and comes back to itself. -/
structure Traced (loading : List String) (s : Store) (x : Except Error (List Fragment) × Store) :
    Prop where
  kept : ∀ id f, s.held id = some f → x.2.held id = some f
  closes : ∀ cycle, x.1 = .error (.cyclicInheritance cycle) → ∃ trail id,
    loading <+: trail ++ [id] ∧ x.2.Closes trail id ∧ cycle = cycleThrough trail id

/-- A trail stays one while nothing is dropped. -/
theorem isChain_kept (h : loading.IsChain s.held.Extends)
    (hkept : ∀ id f, s.held id = some f → s'.held id = some f) : loading.IsChain s'.held.Extends :=
  h.imp fun _ _ ⟨f, hf, hb⟩ => ⟨f, hkept _ f hf, hb⟩

theorem isChain_concat {base : String} {f : Fragment} (h : loading.IsChain s.held.Extends)
    (hlast : loading.getLast? = some id) (hf : s.held id = some f) (hbase : base ∈ f.references) :
    (loading ++ [base]).IsChain s.held.Extends := by
  refine List.isChain_append.2 ⟨h, .singleton base, fun a ha b hb => ?_⟩
  obtain rfl : id = a := by simpa [hlast] using ha
  obtain rfl : base = b := by simpa using hb
  exact ⟨f, hf, hbase⟩

namespace Traced

variable {x : Except Error (List Fragment)} {e : Error} {fs : List Fragment}

theorem ok (hkept : ∀ id f, s.held id = some f → s'.held id = some f) :
    Traced loading s (.ok fs, s') :=
  ⟨hkept, fun cycle h => by cases h⟩

/-- An error that reports no cycle. -/
theorem error (hkept : ∀ id f, s.held id = some f → s'.held id = some f)
    (he : ∀ cycle, e ≠ .cyclicInheritance cycle) : Traced loading s (.error e, s') :=
  ⟨hkept, fun cycle h => absurd (Except.error.inj h) (he cycle)⟩

/-- An error is passed on to the fragment that was to be loaded first. -/
theorem pass {longer : List String} (h : Traced longer s' (.error e, s''))
    (hkept : ∀ id f, s.held id = some f → s'.held id = some f) (hbegins : loading <+: longer) :
    Traced loading s (.error e, s'') where
  kept id f hf := h.kept id f (hkept id f hf)
  closes cycle hcycle := by
    obtain ⟨trail, id, hlonger, hclosed⟩ := h.closes cycle (by rw [Except.error.inj hcycle])
    exact ⟨trail, id, hbegins.trans hlonger, hclosed⟩

end Traced

theorem held_fetch (hm : lib.InMemory) (hd : (lib.document? id).isSome) (s : Store) {j : String}
    {f : Fragment} (hf : s.held j = some f) : (fetch lib s id).2.held j = some f := by
  rcases fetch_cases hm hd s with ⟨g, -, hfetch⟩ | ⟨hnone, g, rfl, hfetch⟩ <;> rw [hfetch]
  · exact hf
  · refine (get?_keep s g j).trans ?_
    rw [if_neg]
    · exact hf
    · rintro rfl
      cases hnone.symm.trans hf

/-- The bases of the last fragment of a trail are traced if each of them is. -/
theorem traced_loadBases (hm : lib.InMemory)
    {visit : String → Store → Except Error (List Fragment) × Store}
    (hvisit : ∀ base s, (lib.document? base).isSome →
      (loading ++ [base]).IsChain s.held.Extends → Traced (loading ++ [base]) s (visit base s))
    (hlast : loading.getLast? = some id) {f : Fragment} (hf : s.held id = some f)
    (references : List String) (hreferences : ∀ r ∈ references, r ∈ f.references)
    (h : loading.IsChain s.held.Extends) :
    Traced loading s (loadBases lib visit id references s) := by
  induction references generalizing s with
  | nil => exact .ok fun _ _ hf => hf
  | cons r rs ih =>
    rw [loadBases, hm.locate_eq]
    cases hd : lib.document? r with
    | none => exact .error (fun _ _ hf => hf) fun _ => by simp
    | some d =>
      have htrail := isChain_concat h hlast hf (hreferences r List.mem_cons_self)
      have hbase := hvisit r (s.noteDependent r id) (by simp [hd]) htrail
      dsimp only
      generalize visit r (s.noteDependent r id) = x at hbase ⊢
      obtain ⟨e | fs, s₁⟩ := x
      · exact hbase.pass (fun _ _ hf => hf) (List.prefix_append loading [r])
      · have hrest := ih (hbase.kept id f hf)
          (fun q hq => hreferences q (List.mem_cons_of_mem r hq)) (isChain_kept h hbase.kept)
        dsimp only
        generalize loadBases lib visit id rs s₁ = y at hrest ⊢
        obtain ⟨e | gs, s₂⟩ := y
        · exact hrest.pass hbase.kept List.prefix_rfl
        · exact .ok fun j g hg => hrest.kept j g (hbase.kept j g hg)

theorem traced_loadFrom (hm : lib.InMemory) (fuel : Nat) (loading : List String) (id : String)
    (s : Store) (hd : (lib.document? id).isSome) (hnodup : loading.Nodup)
    (h : (loading ++ [id]).IsChain s.held.Extends) :
    Traced (loading ++ [id]) s (loadFrom lib fuel loading id s) := by
  induction fuel generalizing loading id s with
  | zero => exact .error (fun _ _ hf => hf) fun _ => by simp
  | succ fuel ih =>
    rw [loadFrom]
    split_ifs with hid
    · refine ⟨fun _ _ hf => hf, ?_⟩
      rintro _ ⟨⟩
      exact ⟨loading, id, List.prefix_rfl, ⟨hnodup, by simpa using hid, h⟩, rfl⟩
    · obtain ⟨f, s₁, hfetch, hf, -⟩ := exists_fetch_eq hm hd s
      have hkept : ∀ j g, s.held j = some g → s₁.held j = some g := fun j g hg => by
        have hheld := held_fetch hm hd s hg
        rwa [hfetch] at hheld
      have hnodup' : (loading ++ [id]).Nodup := by
        rw [← List.concat_eq_append]
        exact hnodup.concat (by simpa using hid)
      have hbases := traced_loadBases hm
        (fun base s hd h => ih (loading ++ [id]) base s hd hnodup' h) (by simp) hf f.references
        (fun _ hr => hr) (isChain_kept h hkept)
      rw [hfetch]
      dsimp only
      generalize loadBases lib (fun base s => loadFrom lib fuel (loading ++ [id]) base s) id
        f.references s₁ = x at hbases ⊢
      obtain ⟨e | fs, s₂⟩ := x
      · exact hbases.pass hkept List.prefix_rfl
      · exact .ok fun j g hg => hbases.kept j g (hkept j g hg)

/-- A cycle that a load reports closes a trail that begins with what was to be loaded. -/
theorem closes_of_load (hm : lib.InMemory) {reference : String}
    (h : load lib s reference = (.error (.cyclicInheritance cycle), s')) : ∃ trail id,
    [reference] <+: trail ++ [id] ∧ s'.Closes trail id ∧ cycle = cycleThrough trail id := by
  unfold load at h
  rw [hm.locate_eq] at h
  cases hd : lib.document? reference with
  | none => simp [hd] at h
  | some d =>
    have htraced := traced_loadFrom hm (depthBound lib s) [] reference s (by simp [hd])
      List.nodup_nil (.singleton reference)
    rw [hd] at h
    dsimp only at h
    generalize loadFrom lib (depthBound lib s) [] reference s = x at htraced h
    obtain ⟨e | fs, s₁⟩ := x
    · obtain ⟨he, rfl⟩ := Prod.mk.inj h
      exact htraced.closes cycle (congrArg Except.error (Except.error.inj he))
    · cases h

/-- A load fails with a missing reference or with a cycle. -/
theorem load_eq_error (hm : lib.InMemory) {reference : String} {e : Error}
    (h : load lib s reference = (.error e, s')) :
    (∃ r referrer, e = .unresolvedReference r referrer ∧ lib.document? r = none) ∨
      ∃ cycle, e = .cyclicInheritance cycle := by
  obtain ⟨x, _, hload, hwalk, -⟩ := load_walk hm s reference
  rw [h] at hload
  obtain ⟨he, -⟩ := Prod.mk.inj hload
  cases x with
  | ok fs => cases he
  | error e' =>
    obtain rfl := Except.error.inj he
    obtain ⟨_, _, _, -, hproblem, -⟩ := hwalk.firstProblem
    cases hproblem with
    | missing hnone => exact .inl ⟨_, _, rfl, by simpa [catalog] using hnone⟩
    | closes => exact .inr ⟨_, rfl⟩

end Store

namespace Loader

/-- Whatever happened before, a cycle that a load reports is one of the fragments that are then
held: each extends the next, the last is the first again, nothing else stands there twice, and what
was to be loaded extends the first, directly or through others, or is the first itself.  Where no
fragment that is reached in this way extends itself, a load gives a chain or misses a reference. -/
theorem load_cycle {l l' : Loader} (hmemory : l.lib.InMemory) {reference : String}
    {x : Except Error Chain} (hload : l.load reference = (x, l')) :
    (∀ cycle, x = .error (.cyclicInheritance cycle) → l'.store.held.IsCycle cycle ∧
      ∀ id ∈ cycle.head?, ReflTransGen l'.store.held.Extends reference id) ∧
    ((∀ id, ReflTransGen l'.store.held.Extends reference id →
        ¬ TransGen l'.store.held.Extends id id) →
      (∃ c, x = .ok c) ∨ ∃ r referrer, x = .error (.unresolvedReference r referrer) ∧
        l.lib.document? r = none) := by
  obtain ⟨hx, rfl⟩ := Prod.mk.inj hload
  have hstore : l.store.load l.lib reference = (x, (l.store.load l.lib reference).2) :=
    Prod.ext hx rfl
  have hcycle : ∀ cycle, x = .error (.cyclicInheritance cycle) →
      (l.store.load l.lib reference).2.held.IsCycle cycle ∧
      ∀ id ∈ cycle.head?,
        ReflTransGen (l.store.load l.lib reference).2.held.Extends reference id := by
    rintro _ rfl
    obtain ⟨trail, id, hbegins, hcloses, rfl⟩ := Store.closes_of_load hmemory hstore
    refine ⟨hcloses.isCycle, fun id' hid' => ?_⟩
    obtain rfl : id = id' := by simpa [hcloses.head?_cycle] using hid'
    obtain ⟨rest, hrest⟩ := hbegins
    rw [List.singleton_append] at hrest
    have hmem : id ∈ reference :: rest := hrest ▸ List.mem_concat_self
    rcases List.mem_cons.1 hmem with rfl | hmem
    · exact .refl
    · exact (transGen_of_isChain (hrest ▸ hcloses.linked) hmem).to_reflTransGen
  refine ⟨hcycle, fun hacyclic => ?_⟩
  cases x with
  | ok c => exact .inl ⟨c, rfl⟩
  | error e =>
    rcases Store.load_eq_error hmemory hstore with ⟨r, referrer, rfl, hnone⟩ | ⟨cycle, rfl⟩
    · exact .inr ⟨r, referrer, rfl, hnone⟩
    · obtain ⟨hisCycle, hreached⟩ := hcycle cycle rfl
      obtain ⟨id, hid⟩ := hisCycle.exists_head
      exact absurd (hisCycle.transGen hid) (hacyclic id (hreached id hid))

/-- A document that extends one that is shared, and one of two that extend each other. -/
def tangle : Library where
  sources := [.memory "memory" [("app", { bases := .many ["base", "left"] }),
    ("left", { bases := .many ["base", "right"] }), ("right", { bases := .one "left" }),
    ("base", {})]]
  files := default

/-- The cycle is undone in the documents, but not in what was read. -/
def undone : Loader := run { lib := tangle } [.load "app", .insert 0 "right" {}]

theorem load_undone : ∃ l, undone.load "app" =
      (.error (.cyclicInheritance ["left", "right", "left"]), l) ∧
    l.store.held.IsCycle ["left", "right", "left"] ∧
    ReflTransGen l.store.held.Extends "app" "left" := by
  have hmemory : tangle.InMemory := by simp [Library.InMemory, tangle, Source.IsMemory]
  have hmemory' : undone.lib.InMemory := ((Faithful.fresh hmemory).run _).memory
  have hresult : (undone.load "app").1 = .error (.cyclicInheritance ["left", "right", "left"]) := by
    rfl
  obtain ⟨hcycle, -⟩ := load_cycle hmemory' (Prod.ext hresult rfl : undone.load "app" = (_, _))
  obtain ⟨hisCycle, hreached⟩ := hcycle _ rfl
  exact ⟨_, Prod.ext hresult rfl, hisCycle, hreached "left" rfl⟩

end Loader

end LintConfig
