import LintConfig.Proofs.Base
import LintConfig.Proofs.Engine.Session

/-!
# Reloading comes to what a start comes to

Names whose documents were changed since they were last reloaded are stale.  `Session.Faithful`
says that a session agrees with its documents, stale names aside: the store holds current fragments,
the base was merged from a walk over current fragments, and a broken engine is one that could not be
started either.  Every step keeps this for the names that are stale after it, and when every change
was followed by a reload no name is stale (`run_base_eq_start`).
-/

namespace LintConfig

variable {c c' : Catalog} {stale : Set String} {name root : String} {fs : List Fragment}

/-- Fragments that a walk from a root came to and that a catalog still has, stale names aside. -/
structure Visited (c : Catalog) (stale : Set String) (root : String) (fs : List Fragment) :
    Prop where
  walk : ∃ read : Catalog, (∀ id f, read id = some f → f.id = id) ∧ Walk read [] [root] (.ok fs)
  current : ∀ f ∈ fs, f.id ∉ stale → c f.id = some f

namespace Visited

theorem change (h : Visited c stale root fs) (hc : ∀ id, id ≠ name → c' id = c id) :
    Visited c' (insert name stale) root fs where
  walk := h.walk
  current f hf hid := by
    rw [Set.mem_insert_iff, not_or] at hid
    rw [hc f.id hid.1]
    exact h.current f hf hid.2

theorem drop (h : Visited c stale root fs) (hname : name ∉ fs.map Fragment.id) :
    Visited c (stale \ {name}) root fs where
  walk := h.walk
  current f hf hid := by
    refine h.current f hf fun hstale => hid ⟨hstale, ?_⟩
    rintro rfl
    exact hname (List.mem_map_of_mem hf)

/-- A walk over what an up-to-date store finds. -/
theorem of_walk {lib : Library} {s : Store} (h : s.UpToDate lib.catalog stale)
    (hwalk : Walk (s.catalog lib) [] [root] (.ok fs)) : Visited lib.catalog stale root fs where
  walk := ⟨s.catalog lib, fun _ _ => h.catalog_id, hwalk⟩
  current f hf hid := by
    obtain ⟨id, hid'⟩ := hwalk.exists_catalog_eq hf
    obtain rfl := h.catalog_id hid'
    rw [← h.catalog_eq hid]
    exact hid'

/-- With nothing stale the walk goes through what the catalog has. -/
theorem walk_catalog (h : Visited c ∅ root fs) : Walk c [] [root] (.ok fs) := by
  obtain ⟨read, hid, hwalk⟩ := h.walk
  refine hwalk.congr fun f hf id hread => ?_
  rw [← hid id f hread]
  exact h.current f hf (Set.notMem_empty f.id)

end Visited

/-- Over a store with nothing stale a build comes to what it comes to from nothing. -/
theorem Engine.build_eq_fresh {lib : Library} (h : lib.InMemory) {registry : Registry}
    {options : EngineOptions} {s : Store}
    (hs : s.UpToDate (withPresets registry lib).catalog ∅) (root : String) :
    (build registry options lib s root).1 = (build registry options lib {} root).1 := by
  have hload := hs.load_eq (withPresets_inMemory h registry) root
  unfold build
  dsimp only
  rw [hload]

namespace Session

/-- The fragments of the documents, presets included. -/
def catalog (s : Session) : Catalog := (Engine.withPresets s.engine.registry s.lib).catalog

/-- A session agrees with its documents, stale names aside. -/
structure Faithful (stale : Set String) (s : Session) : Prop where
  memory : s.lib.InMemory
  store : s.engine.store.UpToDate s.catalog stale
  ready : ∀ base, s.engine.state = .ready base → ∃ fs,
    Base.ofChain (Engine.deepKeys s.engine.options) ⟨s.engine.root, fs⟩ = .ok base ∧
      Visited s.catalog stale s.engine.root fs
  broken : ∀ reason, s.engine.state = .broken reason → stale = ∅ → ∃ error,
    Engine.start s.engine.root s.lib s.engine.registry s.engine.options = .error error ∧
      error.message = reason

namespace Faithful

variable {s : Session}

theorem start {lib : Library} (h : lib.InMemory) {registry : Registry} {options : EngineOptions}
    {e : Engine} (hstart : Engine.start root lib registry options = .ok e) :
    Faithful ∅ ⟨lib, e⟩ := by
  obtain ⟨base, s, hbuild, rfl⟩ := Engine.start_eq_ok_iff.1 hstart
  obtain ⟨x, s', hwalk, hgrown, hbuild'⟩ := Engine.build_walk h registry options {} root
  rw [hbuild'] at hbuild
  obtain ⟨hbase, rfl⟩ := Prod.mk.inj hbuild
  have hempty := Store.UpToDate.empty (Engine.withPresets registry lib).catalog ∅
  refine ⟨h, hempty.grown hgrown, fun b hb => ?_, fun reason hb => by cases hb⟩
  cases hb
  cases x with
  | error error => cases hbase
  | ok fs => exact ⟨fs, hbase, .of_walk hempty hwalk⟩

/-- A change under one name makes that name stale. -/
theorem change (h : Faithful stale s) {lib : Library} (hlib : lib.InMemory)
    (hdocument : ∀ id, id ≠ name → lib.document? id = s.lib.document? id) :
    Faithful (insert name stale) { s with lib } := by
  have hcatalog (id : String) (hid : id ≠ name) :
      catalog { s with lib } id = s.catalog id := by
    simp only [catalog, Library.catalog, Engine.withPresets, Library.document?_withSource,
      hdocument id hid]
  refine ⟨hlib, h.store.change hcatalog, fun base hbase => ?_, fun reason _ hempty => ?_⟩
  · obtain ⟨fs, hmerge, hvisited⟩ := h.ready base hbase
    exact ⟨fs, hmerge, hvisited.change hcatalog⟩
  · exact absurd hempty (Set.insert_nonempty name stale).ne_empty

theorem resolve (h : Faithful stale s) (path : String) : Faithful stale (s.step (.resolve path)) := by
  obtain ⟨cache, hcache⟩ := s.engine.resolve_frame path
  simp only [step, hcache]
  exact ⟨h.memory, h.store, h.ready, h.broken⟩

/-- A build that fails on a store with nothing stale fails from nothing too. -/
theorem start_eq_error (h : s.lib.InMemory) {store : Store}
    (hstore : store.UpToDate s.catalog stale) (hstale : stale = ∅) {error : Error} {store' : Store}
    (hbuild : Engine.build s.engine.registry s.engine.options s.lib store s.engine.root =
      (.error error, store')) :
    Engine.start s.engine.root s.lib s.engine.registry s.engine.options = .error error := by
  subst hstale
  rw [Engine.start_eq_error_iff, ← Engine.build_eq_fresh h hstore, hbuild]

/-- A name that is reloaded is among what is dropped, or else is neither held nor depended on. -/
theorem mem_reloadTargets (h : Faithful stale s) (name : String) :
    name ∈ s.engine.reloadTargets s.lib name ∨
      s.engine.store.has name = false ∧ s.engine.dependsOn name = false := by
  rw [Engine.reloadTargets_eq h.memory]
  cases s.engine.store.has name <;> cases s.engine.dependsOn name <;> simp

/-- What a reload drops of the store makes the name fresh. -/
theorem dropped (h : Faithful stale s) (name : String) :
    (Engine.invalidateAll s.engine.store (s.engine.reloadTargets s.lib name)).2.UpToDate s.catalog
      (stale \ {name}) :=
  h.store.drop ((h.mem_reloadTargets name).imp_right And.left)

/-- Reloading a name makes it fresh, whether the base depended on it or not. -/
theorem reload (h : Faithful stale s) (name : String) :
    Faithful (stale \ {name}) (s.step (.reload name)) := by
  have hname := h.mem_reloadTargets name
  have hstore := h.dropped name
  set e := s.engine with he
  set targets := e.reloadTargets s.lib name with htargets
  rcases hdropped : Engine.invalidateAll e.store targets with ⟨dropped, store⟩
  rw [hdropped] at hstore
  simp only [step]
  rcases e.reload_cases s.lib name htargets.symm hdropped with
    ⟨⟨base, hbase, hnot⟩, hreload⟩ | ⟨-, error, store', hbuild, hreload⟩ |
      ⟨-, base, store', hbuild, hreload⟩
  · rw [hreload]
    refine ⟨h.memory, hstore, fun b hb => ?_, fun reason hb => ?_⟩
    · obtain ⟨fs, hmerge, hvisited⟩ := h.ready b hb
      refine ⟨fs, hmerge, hvisited.drop fun hmem => ?_⟩
      obtain rfl : base = b := Engine.State.ready.inj (hbase.symm.trans hb)
      have hsource : name ∈ base.sources := (Base.mem_sources_ofChain hmerge name).2 hmem
      rcases hname with hname | ⟨-, hname⟩
      · exact hnot name (List.mem_append_right dropped hname) hsource
      · rw [(Engine.dependsOn_of_ready hbase name).2 hsource] at hname
        cases hname
    · cases hbase.symm.trans hb
  · obtain ⟨x, _, -, hgrown, hx⟩ := Engine.build_walk h.memory e.registry e.options store e.root
    obtain ⟨-, rfl⟩ := Prod.mk.inj (hx.symm.trans hbuild)
    rw [hreload]
    refine ⟨h.memory, hstore.grown hgrown, fun b hb => (by cases hb), fun reason hb hempty => ?_⟩
    cases hb
    exact ⟨error, start_eq_error h.memory hstore hempty hbuild, rfl⟩
  · obtain ⟨x, _, hwalk, hgrown, hx⟩ := Engine.build_walk h.memory e.registry e.options store e.root
    obtain ⟨hmerge, rfl⟩ := Prod.mk.inj (hx.symm.trans hbuild)
    rw [hreload]
    refine ⟨h.memory, hstore.grown hgrown, fun b hb => ?_, fun reason hb => by cases hb⟩
    cases hb
    cases x with
    | error error => cases hmerge
    | ok fs => exact ⟨fs, hmerge, .of_walk hstore hwalk⟩

/-! ### Runs -/

/-- The names that are stale after a step. -/
def staleAfter (stale : Set String) : Step → Set String
  | .insert _ name _ => insert name stale
  | .remove _ name => insert name stale
  | .reload name => stale \ {name}
  | .resolve _ => stale

theorem step (h : Faithful stale s) (x : Step) : Faithful (staleAfter stale x) (s.step x) := by
  cases x with
  | insert source name document =>
    exact h.change (h.memory.insert source name document)
      fun id hid => s.lib.document?_insert_of_ne source document hid
  | remove source name =>
    exact h.change (h.memory.remove source name)
      fun id hid => s.lib.document?_remove_of_ne source hid
  | reload name => exact h.reload name
  | resolve path => exact h.resolve path

theorem mem_staleAfter {x : Step} {name : String} (h : name ∈ staleAfter stale x) :
    name ∈ x.changed? ∨ name ∈ stale ∧ x ≠ .reload name := by
  cases x with
  | insert source n document => exact h.imp (fun heq : name = n => heq ▸ rfl) fun h => ⟨h, by simp⟩
  | remove source n => exact h.imp (fun heq : name = n => heq ▸ rfl) fun h => ⟨h, by simp⟩
  | reload n =>
    have hne : n ≠ name := fun heq => h.2 heq.symm
    exact .inr ⟨h.1, by simpa using hne⟩
  | resolve path => exact .inr ⟨h, by simp⟩

theorem foldl_step (h : Faithful stale s) (steps : List Step) :
    Faithful (steps.foldl staleAfter stale) (s.run steps) := by
  induction steps generalizing s stale with
  | nil => exact h
  | cons x steps ih => exact ih (h.step x)

/-- No name is stale after steps whose changes are all followed by a reload. -/
theorem staleAfter_settled {steps : List Step} (hsettled : Settled steps)
    (hstale : ∀ name ∈ stale, .reload name ∈ steps) : steps.foldl staleAfter stale = ∅ :=
  foldl_eq_empty_of_settledBy (fun _ _ _ => mem_staleAfter) hsettled hstale

theorem run (h : Faithful stale s) {steps : List Step} (hsettled : Settled steps)
    (hstale : ∀ name ∈ stale, .reload name ∈ steps) : Faithful ∅ (s.run steps) :=
  staleAfter_settled hsettled hstale ▸ h.foldl_step steps

/-- A base to which nothing stale contributed is that of a fresh start. -/
theorem exists_start (h : Faithful ∅ s) {base : Base} (hbase : s.engine.state = .ready base) :
    ∃ fresh, Engine.start s.engine.root s.lib s.engine.registry s.engine.options = .ok fresh ∧
      fresh.base = .ok base := by
  obtain ⟨fs, hmerge, hvisited⟩ := h.ready base hbase
  obtain ⟨x, store, hwalk, -, hbuild⟩ :=
    Engine.build_walk h.memory s.engine.registry s.engine.options {} s.engine.root
  rw [Store.catalog_empty] at hwalk
  obtain rfl := hwalk.unique hvisited.walk_catalog
  exact ⟨_, Engine.start_eq_ok_iff.2 ⟨base, store, hbuild.trans (by simp [Except.map, Except.bind,
    hmerge]), rfl⟩, rfl⟩

end Faithful

/-- After steps in which every changed name is reloaded later, whatever happened in between, the
engine has the base that it would be started with now, and is broken with the text of the error
that it could not be started for. -/
theorem run_base_eq_start {root : String} {lib : Library} {registry : Registry}
    {options : EngineOptions} {e : Engine} (hmemory : lib.InMemory)
    (hstart : Engine.start root lib registry options = .ok e) {steps : List Step}
    (hsettled : Settled steps) :
    (∀ base, ((mk lib e).run steps).engine.base = .ok base ↔
      ∃ fresh, Engine.start root ((mk lib e).run steps).lib registry options = .ok fresh ∧
        fresh.base = .ok base) ∧
    (∀ reason, ((mk lib e).run steps).engine.state = .broken reason ↔
      ∃ error, Engine.start root ((mk lib e).run steps).lib registry options = .error error ∧
        error.message = reason) := by
  have hfaithful := (Faithful.start hmemory hstart).run hsettled (by simp)
  have hinputs := (mk lib e).run_inputs steps
  obtain ⟨_, _, -, rfl⟩ := Engine.start_eq_ok_iff.1 hstart
  obtain ⟨hroot, hregistry, hoptions⟩ := hinputs
  generalize (mk lib _).run steps = s at *
  cases hstate : s.engine.state with
  | ready base =>
    obtain ⟨fresh, hfresh, hbase⟩ := hfaithful.exists_start hstate
    rw [hroot, hregistry, hoptions] at hfresh
    rw [Engine.base_of_ready hstate, hfresh]
    refine ⟨fun b => ⟨fun hb => ⟨fresh, rfl, hbase.trans hb⟩, ?_⟩, fun reason => ⟨?_, ?_⟩⟩
    · rintro ⟨fresh', hfresh', hb⟩
      cases hfresh'
      exact hbase.symm.trans hb
    · intro h
      cases h
    · rintro ⟨error, herror, -⟩
      cases herror
  | broken reason =>
    obtain ⟨error, herror, rfl⟩ := hfaithful.broken reason hstate rfl
    rw [hroot, hregistry, hoptions] at herror
    rw [Engine.base, hstate, herror]
    refine ⟨fun b => ⟨fun hb => ?_, ?_⟩, fun reason => ⟨fun h => ⟨error, rfl, ?_⟩, ?_⟩⟩
    · cases hb
    · rintro ⟨fresh, hfresh, -⟩
      cases hfresh
    · exact Engine.State.broken.inj h
    · rintro ⟨error', herror', rfl⟩
      cases herror'
      rfl

/-- Two documents, one of which extends the other. -/
def appAndBase : Library where
  sources := [.memory "memory" [("app", { bases := .one "base" }), ("base", {})]]
  files := default

/-- The base comes to extend what extends it, is found out, and is set right. -/
def cycleAndBack : List Step :=
  [.insert 0 "base" { bases := .one "app" }, .reload "base", .resolve "a.js",
    .insert 0 "base" { env := [("node", true)] }, .reload "base"]

theorem run_cycleAndBack : ∃ e fresh, Engine.start "app" appAndBase {} {} = .ok e ∧
    ((mk appAndBase e).run (cycleAndBack.take 2)).engine.state =
      .broken "Cyclic inheritance: app -> base -> app" ∧
    Engine.start "app" ((mk appAndBase e).run cycleAndBack).lib {} {} = .ok fresh ∧
    ((mk appAndBase e).run cycleAndBack).engine.base = fresh.base := by
  have hmemory : appAndBase.InMemory := by simp [Library.InMemory, appAndBase, Source.IsMemory]
  have hok : (Engine.start "app" appAndBase {} {}).isOk = true := by rfl
  cases hstart : Engine.start "app" appAndBase {} {} with
  | error error => simp [hstart, Except.isOk, Except.toBool] at hok
  | ok e =>
    have hsettled : Settled cycleAndBack := by
      simp [Settled, SettledBy, cycleAndBack, Step.changed?]
    have hsettled' : Settled (cycleAndBack.take 2) := by
      simp [Settled, SettledBy, cycleAndBack, Step.changed?]
    have hbroken := (run_base_eq_start hmemory hstart hsettled').2
    have hbase := (run_base_eq_start hmemory hstart hsettled).1
    have hok' : (Engine.start "app" ((mk appAndBase e).run cycleAndBack).lib {} {}).isOk = true := by
      rfl
    cases hfresh : Engine.start "app" ((mk appAndBase e).run cycleAndBack).lib {} {} with
    | error error => simp [hfresh, Except.isOk, Except.toBool] at hok'
    | ok fresh =>
      refine ⟨e, fresh, rfl, ?_, hfresh, ?_⟩
      · exact (hbroken _).2 ⟨.cyclicInheritance ["app", "base", "app"], by rfl, by rfl⟩
      · obtain ⟨base, _, -, rfl⟩ := Engine.start_eq_ok_iff.1 hfresh
        exact (hbase base).2 ⟨_, hfresh, rfl⟩

end Session

end LintConfig
