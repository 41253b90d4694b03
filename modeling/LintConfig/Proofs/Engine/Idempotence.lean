import LintConfig.Proofs.Engine.Reachable
import LintConfig.Proofs.Engine.Reloading

/-!
# Reloading again

A reload after which no name is stale leaves nothing to do for another one.  Fragments are dropped
and read again, other ones than before perhaps, but a build comes to what a start comes to, and that
has not changed: the base is the same and nothing is purged (`Session.Faithful.reload_ready`), or
the error is the same (`Session.Faithful.reload_broken`).  Only the store can differ.
`Session.reload_again` says so of a document that is reloaded twice.
-/

namespace LintConfig

open Relation (ReflTransGen)

/-- A reload that succeeds leaves a base. -/
theorem Engine.exists_ready_of_reload {e e' : Engine} {lib : Library} {reference : String}
    {report : ReloadReport} (h : e.reload lib reference = (.ok report, e')) :
    ∃ base, e'.state = .ready base := by
  rcases e.reload_cases lib reference rfl rfl with
    ⟨⟨base, hbase, -⟩, heq⟩ | ⟨-, error, store, -, heq⟩ | ⟨-, base, store, -, heq⟩
  · obtain ⟨-, rfl⟩ := Prod.mk.inj (heq.symm.trans h)
    exact ⟨base, hbase⟩
  · cases heq.symm.trans h
  · obtain ⟨-, rfl⟩ := Prod.mk.inj (heq.symm.trans h)
    exact ⟨base, rfl⟩

namespace Session

variable {s : Session} {name : String}

theorem step_next (s : Session) (x : Step) :
    ReflTransGen Engine.Next s.engine (s.step x).engine := by
  cases x with
  | insert source name document => exact .refl
  | remove source name => exact .refl
  | reload name => exact .single (.reload s.lib name)
  | resolve path => exact .single (.resolve path)

/-- The engine of a session is in use. -/
theorem run_next (s : Session) (steps : List Step) :
    ReflTransGen Engine.Next s.engine (s.run steps).engine := by
  induction steps generalizing s with
  | nil => exact .refl
  | cons x steps ih => exact (s.step_next x).trans (ih (s.step x))

/-! ### With nothing stale -/

namespace Faithful

/-- A build after anything was dropped comes to what a start comes to. -/
theorem build_dropped (h : Faithful ∅ s) (name : String) :
    (Engine.build s.engine.registry s.engine.options s.lib
        (Engine.invalidateAll s.engine.store (s.engine.reloadTargets s.lib name)).2
        s.engine.root).1 =
      (Engine.build s.engine.registry s.engine.options s.lib {} s.engine.root).1 := by
  have hempty : (∅ : Set String) \ {name} = ∅ := Set.eq_empty_of_forall_notMem fun _ h => h.1
  exact Engine.build_eq_fresh h.memory (hempty ▸ h.dropped name) s.engine.root

/-- A session with a base keeps it and what was resolved. -/
theorem reload_ready (h : Faithful ∅ s) (hsound : Engine.Sound s.engine) {base : Base}
    (hstate : s.engine.state = .ready base) (name : String) : ∃ report store,
      s.engine.reload s.lib name = (.ok report, { s.engine with store }) ∧
        report.fingerprintChanged = false ∧ report.purged = 0 := by
  obtain ⟨fresh, hfresh, hbase⟩ := h.exists_start hstate
  obtain ⟨base', _, hbuild, rfl⟩ := Engine.start_eq_ok_iff.1 hfresh
  obtain rfl : base' = base := Except.ok.inj hbase
  have hsame := h.build_dropped name
  rw [hbuild] at hsame
  rcases s.engine.reload_cases s.lib name rfl rfl with
    ⟨-, hreload⟩ | ⟨-, error, store, hfails, -⟩ | ⟨-, new, store, hagain, hreload⟩
  · exact ⟨_, _, hreload, rfl, rfl⟩
  · rw [hfails] at hsame
    cases hsame
  · rw [hagain] at hsame
    obtain rfl : new = base' := Except.ok.inj hsame
    rw [Cache.purge_eq_self (hsound.holds_fingerprint hstate), ← hstate] at hreload
    refine ⟨_, store, hreload, ?_, rfl⟩
    simp [Engine.base?, hstate]

/-- A reload that makes everything fresh fails with the error that the session could not be started
for. -/
theorem start_of_reload_eq_error {stale : Set String} (h : Faithful stale s)
    (hstale : stale \ {name} = ∅) {error : Error} {e : Engine}
    (hreload : s.engine.reload s.lib name = (.error error, e)) :
    Engine.start s.engine.root s.lib s.engine.registry s.engine.options = .error error ∧
      e.state = .broken error.message := by
  rcases s.engine.reload_cases s.lib name rfl rfl with
    ⟨-, heq⟩ | ⟨-, error', store, hbuild, heq⟩ | ⟨-, base, store, -, heq⟩
  · cases heq.symm.trans hreload
  · obtain ⟨herror, rfl⟩ := Prod.mk.inj (heq.symm.trans hreload)
    obtain rfl := Except.error.inj herror
    exact ⟨start_eq_error h.memory (h.dropped name) hstale hbuild, rfl⟩
  · cases heq.symm.trans hreload

/-- A broken session stays broken, with the error that it could not be started for. -/
theorem reload_broken (h : Faithful ∅ s) (hsound : Engine.Sound s.engine) {error : Error}
    (hstart : Engine.start s.engine.root s.lib s.engine.registry s.engine.options = .error error)
    (hstate : s.engine.state = .broken error.message) (name : String) : ∃ store,
      s.engine.reload s.lib name = (.error error, { s.engine with store }) := by
  have hsame := h.build_dropped name
  rw [Engine.start_eq_error_iff.1 hstart] at hsame
  rcases s.engine.reload_cases s.lib name rfl rfl with
    ⟨⟨base, hbase, -⟩, -⟩ | ⟨-, error', store, hfails, hreload⟩ | ⟨-, new, store, hagain, -⟩
  · cases hstate.symm.trans hbase
  · rw [hfails] at hsame
    obtain rfl : error' = error := Except.error.inj hsame
    rw [Cache.clear_eq_self (hsound.entries_of_broken hstate), ← hstate] at hreload
    exact ⟨store, hreload⟩
  · rw [hagain] at hsame
    cases hsame

end Faithful

/-- After steps in which every changed name is reloaded later, that of one document aside, reloading
this document again changes nothing but the store: where the first reload succeeds so does the
second, the base and the cache stay and nothing is purged; and where the first one fails so does the
second, with the same error, and the engine stays broken and its cache empty. -/
theorem reload_again {root : String} {lib : Library} {registry : Registry}
    {options : EngineOptions} {e : Engine} (hmemory : lib.InMemory)
    (hstart : Engine.start root lib registry options = .ok e) {steps : List Step}
    (hsettled : Settled (steps ++ [.reload name])) (hrun : (mk lib e).run steps = s)
    {result : Except Error Engine.ReloadReport} {first : Engine}
    (hfirst : s.engine.reload s.lib name = (result, first)) :
    (∀ report, result = .ok report → ∃ base again store, first.base = .ok base ∧
      first.reload s.lib name = (.ok again, { first with store }) ∧
      again.fingerprintChanged = false ∧ again.purged = 0) ∧
    (∀ error, result = .error error → first.state = .broken error.message ∧
      first.cache.entries = [] ∧ ∃ store,
        first.reload s.lib name = (.error error, { first with store })) := by
  have hbefore := (Faithful.start hmemory hstart).foldl_step steps
  have hstale : steps.foldl Faithful.staleAfter ∅ \ {name} = ∅ := by
    have hempty : (steps ++ [Step.reload name]).foldl Faithful.staleAfter ∅ = ∅ :=
      Faithful.staleAfter_settled hsettled (by simp)
    rwa [List.foldl_append] at hempty
  have hsound := (Engine.Sound.start hstart).run ((mk lib e).run_next steps)
  rw [hrun] at hbefore hsound
  have hafter : Faithful ∅ ⟨s.lib, first⟩ := by
    have h := hbefore.reload name
    rwa [hstale, step, hfirst] at h
  replace hsound := hsound.reload s.lib name
  obtain ⟨hroot, hregistry, hoptions⟩ := s.engine.reload_inputs s.lib name
  rw [hfirst] at hsound hroot hregistry hoptions
  constructor
  · rintro report rfl
    obtain ⟨base, hbase⟩ := Engine.exists_ready_of_reload hfirst
    obtain ⟨again, store, hagain⟩ := hafter.reload_ready hsound hbase name
    exact ⟨base, again, store, Engine.base_of_ready hbase, hagain⟩
  · rintro error rfl
    obtain ⟨hfresh, hbroken⟩ := hbefore.start_of_reload_eq_error hstale hfirst
    rw [← hroot, ← hregistry, ← hoptions] at hfresh
    exact ⟨hbroken, hsound.entries_of_broken hbroken,
      hafter.reload_broken hsound hfresh hbroken name⟩

/-- The cycle is found out and set right, and a path is resolved. -/
def cycleAndResolve : List Step := cycleAndBack ++ [.resolve "a.js"]

theorem start_appAndBase : ∃ e, Engine.start "app" appAndBase {} {} = .ok e ∧
    ((mk appAndBase e).run cycleAndResolve).engine.cache.size = 1 ∧
    (((mk appAndBase e).run cycleAndResolve).engine.reload
      ((mk appAndBase e).run cycleAndResolve).lib "base").1.map (·.rebuilt) = .ok true ∧
    (((mk appAndBase e).run (cycleAndBack.take 1)).engine.reload
      ((mk appAndBase e).run (cycleAndBack.take 1)).lib "base").1 =
        .error (.cyclicInheritance ["app", "base", "app"]) :=
  ⟨_, by rfl, by rfl, by rfl, by rfl⟩

/-- Two reloads after a path was resolved, and two of a document that came to close a cycle. -/
theorem reload_again_appAndBase : ∃ e s s', Engine.start "app" appAndBase {} {} = .ok e ∧
    (mk appAndBase e).run cycleAndResolve = s ∧ s.engine.cache.size = 1 ∧
    (∃ report first base again store,
      s.engine.reload s.lib "base" = (.ok report, first) ∧ report.rebuilt = true ∧
      first.base = .ok base ∧ first.reload s.lib "base" = (.ok again, { first with store }) ∧
      again.fingerprintChanged = false ∧ again.purged = 0) ∧
    (mk appAndBase e).run (cycleAndBack.take 1) = s' ∧
    ∃ first store,
      s'.engine.reload s'.lib "base" =
        (.error (.cyclicInheritance ["app", "base", "app"]), first) ∧
      first.reload s'.lib "base" =
        (.error (.cyclicInheritance ["app", "base", "app"]), { first with store }) := by
  have hmemory : appAndBase.InMemory := by simp [Library.InMemory, appAndBase, Source.IsMemory]
  obtain ⟨e, hstart, hsize, hrebuilt, hcycle⟩ := start_appAndBase
  refine ⟨e, _, _, hstart, rfl, hsize, ?_, rfl, ?_⟩
  · have hsettled : Settled (cycleAndResolve ++ [.reload "base"]) := by
      simp [Settled, SettledBy, cycleAndResolve, cycleAndBack, Step.changed?]
    rcases hfirst : ((mk appAndBase e).run cycleAndResolve).engine.reload
      ((mk appAndBase e).run cycleAndResolve).lib "base" with ⟨error | report, first⟩
    · rw [hfirst] at hrebuilt
      cases hrebuilt
    · rw [hfirst] at hrebuilt
      obtain ⟨base, again, store, hbase, hagain, hsame, hpurged⟩ :=
        (reload_again hmemory hstart hsettled rfl hfirst).1 report rfl
      exact ⟨report, first, base, again, store, rfl, Except.ok.inj hrebuilt, hbase, hagain,
        hsame, hpurged⟩
  · have hsettled : Settled (cycleAndBack.take 1 ++ [.reload "base"]) := by
      simp [Settled, SettledBy, cycleAndBack, Step.changed?]
    obtain ⟨-, -, store, hagain⟩ :=
      (reload_again hmemory hstart hsettled rfl (Prod.ext hcycle rfl)).2 _ rfl
    exact ⟨_, store, Prod.ext hcycle rfl, hagain⟩

end Session

end LintConfig
