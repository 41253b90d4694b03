import LintConfig.Proofs.Engine.Reloading
import LintConfig.Proofs.Store.Dropping

/-!
# Reloads that affect the base

A reload builds the base again if the base depends on what is reloaded, and on nothing else that
happened to be read: a fragment that is dropped extends the reloaded one through fragments that are
held, and from a fragment of the base such a path does not leave the base.  This is so because the
store holds the chain of the base as it was merged, with notes about all that it extends, for as
long as the base lasts (`Store.Anchors`, `Session.anchored_run`).  `Session.run_reload_affects` says
what a reload comes to of a document that the base depends on, and of one that it does not.
-/

namespace LintConfig

variable {name : String} {base : Base}

namespace Store

variable {s : Store}

/-- The store holds the chain that a base was merged from, and has noted all that it extends. -/
def Anchors (s : Store) (base : Base) : Prop :=
  ∃ c : Chain, (∀ id, id ∈ base.sources ↔ id ∈ c.ids) ∧ c.Closed ∧ ∀ f ∈ c.fragments, s.Recorded f

/-- Dropping what the base does not depend on drops nothing that it depends on. -/
theorem Anchors.notMem_sources (h : s.Anchors base) (hl : Linked s) (hname : name ∉ base.sources) :
    ∀ id ∈ (s.invalidate name).1, id ∉ base.sources := by
  obtain ⟨c, hsources, hclosed, hrecorded⟩ := h
  intro id hid hmem
  rw [hsources] at hname hmem
  obtain ⟨hnoted, hhas⟩ := mem_dropped_iff.1 hid
  -- from a fragment of the chain, a path through what is held ends in the chain
  rcases hl.of_path hnoted hhas with rfl | hpath
  · exact hname hmem
  · exact hname (mem_ids_of_path hclosed (path_in_chain hrecorded hclosed hmem hpath))

theorem Linked.invalidateAll (h : Linked s) (ids : List String) :
    Linked (Engine.invalidateAll s ids).2 := by
  induction ids generalizing s with
  | nil => exact h
  | cons id ids ih => exact ih (h.invalidate id)

theorem Recorded.invalidateAll {f : Fragment} (h : s.Recorded f) {ids : List String}
    (hf : f.id ∉ (Engine.invalidateAll s ids).1) : (Engine.invalidateAll s ids).2.Recorded f := by
  have hfilter := Table.get?_filter s.fragments
    (fun j => !(Engine.invalidateAll s ids).1.contains j) f.id
  rw [invalidateAll_frame]
  refine ⟨?_, h.2⟩
  rw [hfilter, if_pos (by simpa using hf)]
  exact h.1

theorem Anchors.invalidateAll (h : s.Anchors base) {ids : List String}
    (hdropped : ∀ id ∈ (Engine.invalidateAll s ids).1, id ∉ base.sources) :
    (Engine.invalidateAll s ids).2.Anchors base := by
  obtain ⟨c, hsources, hclosed, hrecorded⟩ := h
  refine ⟨c, hsources, hclosed, fun f hf => (hrecorded f hf).invalidateAll fun hid => ?_⟩
  exact hdropped f.id hid ((hsources f.id).2 (List.mem_map_of_mem hf))

end Store

namespace Engine

open Store

variable {e : Engine} {lib : Library}

/-- Building records the chain of the base. -/
theorem anchors_of_build (hm : lib.InMemory) {registry : Registry} {options : EngineOptions}
    {root : String} {s s' : Store} {stale : Set String}
    (hs : s.UpToDate (withPresets registry lib).catalog stale) (hl : Linked s)
    {x : Except Error Base} (hbuild : build registry options lib s root = (x, s')) :
    Linked s' ∧ ∀ base, x = .ok base → s'.Anchors base := by
  have hloader : Loader.Faithful stale ⟨withPresets registry lib, s⟩ :=
    ⟨withPresets_inMemory hm registry, hs⟩
  have hlinked := (Visits.linked_keeps hloader.memory (visited_load hloader.memory hl root).1 hl).1
  rcases hload : s.load (withPresets registry lib) root with ⟨chain, s₁⟩
  rw [build, hload] at hbuild
  rw [hload] at hlinked
  obtain ⟨hmerge, rfl⟩ := Prod.mk.inj hbuild
  refine ⟨hlinked, fun base hbase => ?_⟩
  cases chain with
  | error error =>
    rw [hbase] at hmerge
    cases hmerge
  | ok c =>
    have hload' : Loader.load ⟨withPresets registry lib, s⟩ root =
        (.ok c, ⟨withPresets registry lib, s₁⟩) := by rw [Loader.load, hload]
    obtain ⟨hrecorded, hclosed⟩ := Loader.recorded_of_load hloader hl (congrArg Prod.fst hload')
    rw [hload'] at hrecorded
    exact ⟨c, Base.mem_sources_ofChain (hmerge.trans hbase), hclosed, hrecorded⟩

/-- The store of an engine is linked, and anchors the base. -/
structure Anchored (e : Engine) : Prop where
  linked : Linked e.store
  anchors : ∀ base, e.state = .ready base → e.store.Anchors base

theorem Anchored.start {root : String} {registry : Registry} {options : EngineOptions}
    (hm : lib.InMemory) (hstart : start root lib registry options = .ok e) : Anchored e := by
  obtain ⟨base, s, hbuild, rfl⟩ := start_eq_ok_iff.1 hstart
  obtain ⟨hlinked, hanchors⟩ := anchors_of_build hm (.empty _ ∅) linked_empty hbuild
  refine ⟨hlinked, fun b hb => ?_⟩
  obtain rfl : base = b := State.ready.inj hb
  exact hanchors base rfl

/-- If the base does not depend on what is reloaded then nothing that it depends on is dropped. -/
theorem Anchored.notMem_sources (h : Anchored e) (hm : lib.InMemory)
    (hstate : e.state = .ready base) (hname : name ∉ base.sources) :
    ∀ id ∈ (invalidateAll e.store (e.reloadTargets lib name)).1 ++ e.reloadTargets lib name,
      id ∉ base.sources := by
  rw [reloadTargets_eq hm]
  split_ifs
  · have hone : (invalidateAll e.store [name]).1 = (e.store.invalidate name).1 := rfl
    rw [hone, List.forall_mem_append, List.forall_mem_singleton]
    exact ⟨(h.anchors base hstate).notMem_sources h.linked hname, hname⟩
  · intro id hid
    cases hid

/-- A reload affects the base if the base depends on what is reloaded, and not otherwise. -/
theorem Anchored.unaffected_iff (h : Anchored e) (hm : lib.InMemory)
    (hstate : e.state = .ready base) (name : String) :
    e.Unaffected ((invalidateAll e.store (e.reloadTargets lib name)).1 ++
      e.reloadTargets lib name) ↔ name ∉ base.sources := by
  refine ⟨?_, fun hname => ⟨base, hstate, h.notMem_sources hm hstate hname⟩⟩
  rintro ⟨b, hb, hnot⟩ hname
  obtain rfl : base = b := State.ready.inj (hstate.symm.trans hb)
  have htarget : name ∈ e.reloadTargets lib name := by
    rw [reloadTargets_eq hm, (dependsOn_of_ready hstate name).2 hname, Bool.or_true, if_pos rfl]
    exact List.mem_singleton_self name
  exact hnot name (List.mem_append_right _ htarget) hname

end Engine

namespace Session

open Engine Store

variable {s : Session} {stale : Set String}

theorem anchored_reload (hfaithful : Faithful stale s) (h : Anchored s.engine) (name : String) :
    Anchored (s.step (.reload name)).engine := by
  have hlinked := h.linked.invalidateAll (s.engine.reloadTargets s.lib name)
  have hstore := hfaithful.dropped name
  simp only [step]
  rcases s.engine.reload_cases s.lib name rfl rfl with
    ⟨⟨base, hbase, hnot⟩, hreload⟩ | ⟨-, error, store, hbuild, hreload⟩ |
      ⟨-, base, store, hbuild, hreload⟩ <;> rw [hreload]
  · refine ⟨hlinked, fun b hb => ?_⟩
    obtain rfl : base = b := State.ready.inj (hbase.symm.trans hb)
    exact (h.anchors base hbase).invalidateAll fun id hid => hnot id (List.mem_append_left _ hid)
  · exact ⟨(anchors_of_build hfaithful.memory hstore hlinked hbuild).1, fun b hb => by cases hb⟩
  · obtain ⟨hlinked', hanchors⟩ := anchors_of_build hfaithful.memory hstore hlinked hbuild
    refine ⟨hlinked', fun b hb => ?_⟩
    obtain rfl : base = b := State.ready.inj hb
    exact hanchors base rfl

theorem anchored_step (hfaithful : Faithful stale s) (h : Anchored s.engine) (x : Step) :
    Anchored (s.step x).engine := by
  cases x with
  | insert source name document => exact h
  | remove source name => exact h
  | reload name => exact anchored_reload hfaithful h name
  | resolve path =>
    obtain ⟨cache, hcache⟩ := s.engine.resolve_frame path
    simp only [step, hcache]
    exact ⟨h.linked, h.anchors⟩

/-- Whatever happens, the store anchors the base. -/
theorem anchored_run (hfaithful : Faithful stale s) (h : Anchored s.engine) (steps : List Step) :
    Anchored (s.run steps).engine := by
  induction steps generalizing s stale with
  | nil => exact h
  | cons x steps ih => exact ih (hfaithful.step x) (anchored_step hfaithful h x)

/-- Whatever happened to an engine with a base, reloading a document that the base depends on builds
the base again or leaves the engine broken, whether or not the document is still there.  Reloading
any other one builds nothing: what it drops from the store are fragments that the base does not
depend on either, and all else stays, the base, the cache and what was counted. -/
theorem run_reload_affects {root : String} {lib : Library} {registry : Registry}
    {options : EngineOptions} {e : Engine} (hmemory : lib.InMemory)
    (hstart : Engine.start root lib registry options = .ok e) {steps : List Step} {s : Session}
    (hrun : (mk lib e).run steps = s) (hbase : s.engine.base = .ok base) (name : String)
    {result : Except Error ReloadReport} {e' : Engine}
    (hreload : s.engine.reload s.lib name = (result, e')) :
    (name ∈ base.sources →
      (∃ report, result = .ok report ∧ report.rebuilt = true) ∨
        ∃ error, result = .error error ∧ e'.state = .broken error.message) ∧
    (name ∉ base.sources → ∃ report, result = .ok report ∧ report.rebuilt = false) ∧
    ∀ report, result = .ok report → report.rebuilt = false → name ∉ base.sources ∧
      (∀ id ∈ report.invalidated, id ∉ base.sources ∧ s.engine.store.has id) ∧
      report.fingerprintChanged = false ∧ report.purged = 0 ∧
      e' = { s.engine with store := { s.engine.store with
        fragments := s.engine.store.fragments.filter fun f =>
          !report.invalidated.contains f.1 } } := by
  have hfaithful := (Faithful.start hmemory hstart).foldl_step steps
  have hanchored := anchored_run (Faithful.start hmemory hstart) (.start hmemory hstart) steps
  rw [hrun] at hfaithful hanchored
  have hstate := state_of_base hbase
  have hiff := hanchored.unaffected_iff hfaithful.memory hstate name
  rcases s.engine.reload_cases s.lib name rfl rfl with
    ⟨hunaffected, heq⟩ | ⟨haffected, error, store, -, heq⟩ | ⟨haffected, new, store, -, heq⟩
  · obtain ⟨rfl, rfl⟩ := Prod.mk.inj (heq.symm.trans hreload)
    have hname := hiff.1 hunaffected
    have hdropped := hanchored.notMem_sources hfaithful.memory hstate hname
    refine ⟨fun hmem => absurd hmem hname, fun _ => ⟨_, rfl, rfl⟩, ?_⟩
    rintro _ ⟨⟩ -
    refine ⟨hname, fun id hid => ⟨hdropped id (List.mem_append_left _ hid), ?_⟩, rfl, rfl, ?_⟩
    · exact (mem_invalidateAll_iff.1 hid).1
    · rw [← invalidateAll_frame]
  · obtain ⟨rfl, rfl⟩ := Prod.mk.inj (heq.symm.trans hreload)
    refine ⟨fun _ => .inr ⟨error, rfl, rfl⟩, fun hname => absurd (hiff.2 hname) haffected, ?_⟩
    intro report hreport
    cases hreport
  · obtain ⟨rfl, rfl⟩ := Prod.mk.inj (heq.symm.trans hreload)
    refine ⟨fun _ => .inl ⟨_, rfl, rfl⟩, fun hname => absurd (hiff.2 hname) haffected, ?_⟩
    intro report hreport hrebuilt
    obtain rfl := Except.ok.inj hreport
    cases hrebuilt

/-- A document comes to extend the base of its base, and no longer the one in between, which stays
in the store. -/
def shortcut : List Step :=
  [.insert 0 "app" { bases := .one "base" }, .reload "app", .resolve "a.js"]

theorem start_detour : ∃ e base, Engine.start "app" Loader.detour {} {} = .ok e ∧
    ((mk Loader.detour e).run shortcut).engine.base = .ok base ∧
    ((mk Loader.detour e).run (shortcut ++ [.remove 0 "base"])).engine.base = .ok base ∧
    base.sources = ["app", "base"] ∧
    (((mk Loader.detour e).run shortcut).engine.reload
      ((mk Loader.detour e).run shortcut).lib "mid").1 = .ok ⟨["mid"], false, false, 0⟩ ∧
    (((mk Loader.detour e).run (shortcut ++ [.remove 0 "base"])).engine.reload
      ((mk Loader.detour e).run (shortcut ++ [.remove 0 "base"])).lib "base").1 =
        .error (.unresolvedReference "base" (some "app")) :=
  ⟨_, _, by rfl, by rfl, by rfl, by rfl, by rfl, by rfl⟩

/-- The document in between is dropped and nothing else happens, and the base that was removed is
missed. -/
theorem run_reload_affects_shortcut : ∃ e s s' base e' broken,
    Engine.start "app" Loader.detour {} {} = .ok e ∧
    (mk Loader.detour e).run shortcut = s ∧ s.engine.base = .ok base ∧
    s.engine.reload s.lib "mid" = (.ok ⟨["mid"], false, false, 0⟩, e') ∧
    "mid" ∉ base.sources ∧ s.engine.store.has "mid" ∧
    e' = { s.engine with store := { s.engine.store with
      fragments := s.engine.store.fragments.filter fun f => !(["mid"].contains f.1) } } ∧
    (mk Loader.detour e).run (shortcut ++ [.remove 0 "base"]) = s' ∧ "base" ∈ base.sources ∧
    s'.engine.reload s'.lib "base" =
      (.error (.unresolvedReference "base" (some "app")), broken) ∧
    broken.state = .broken (Error.unresolvedReference "base" (some "app")).message := by
  have hmemory : Loader.detour.InMemory := by
    simp [Library.InMemory, Loader.detour, Source.IsMemory]
  obtain ⟨e, base, hstart, hbase, hbase', hsources, hmid, hmissing⟩ := start_detour
  have hmem : "base" ∈ base.sources := by simp [hsources]
  have hmidReload := run_reload_affects hmemory hstart rfl hbase "mid" (Prod.ext hmid rfl)
  have hbaseReload := run_reload_affects hmemory hstart rfl hbase' "base" (Prod.ext hmissing rfl)
  obtain ⟨hnotMem, hdropped, -, -, hafter⟩ := hmidReload.2.2 _ rfl rfl
  obtain ⟨_, hok, -⟩ | ⟨error, herror, hbroken⟩ := hbaseReload.1 hmem
  · cases hok
  · obtain rfl := Except.error.inj herror
    exact ⟨e, _, _, base, _, _, hstart, rfl, hbase, Prod.ext hmid rfl, hnotMem,
      (hdropped "mid" (List.mem_singleton_self _)).2, hafter, rfl, hmem, Prod.ext hmissing rfl,
      hbroken⟩

end Session

end LintConfig
