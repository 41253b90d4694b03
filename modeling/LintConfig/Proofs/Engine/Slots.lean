import LintConfig.Proofs.Cache.Agreement
import LintConfig.Proofs.Engine.Reachable

/-!
# Engines over a map of slots

An engine keeps results under the fingerprint of its present base only (`Engine.Sound`), so a new
result never takes the place of one under another fingerprint.  So the cache of an engine holds
what a map of slots holds after the same calls (`Engine.Reachable.exists_shows`), and resolves what
that would (`Engine.Sound.resolve_shows`), in whatever orders the map lists its slots.
-/

namespace LintConfig.Engine

open Relation (ReflTransGen)

variable {e e' : Engine} {base : Base}

/-- Steps call the cache, for results under the fingerprint of all that is kept. -/
theorem Sound.exists_calls (h : Sound e) (hrun : ReflTransGen Next e e') :
    ∃ calls : List (Cache.Call Resolved Error),
      e.cache.Current calls ∧ e'.cache = e.cache.run calls := by
  induction hrun using ReflTransGen.head_induction_on with
  | refl => exact ⟨[], trivial, rfl⟩
  | head hnext _ ih =>
    obtain ⟨calls, hcurrent, hcalls⟩ := ih (h.next hnext)
    rcases h.cache_of_next hnext with hcache | ⟨call, hcall, hcache⟩
    · rw [hcache] at hcurrent hcalls
      exact ⟨calls, hcurrent, hcalls⟩
    · rw [hcache] at hcurrent hcalls
      exact ⟨call :: calls, ⟨hcall, hcurrent⟩, hcalls⟩

/-- The order in which a map lists its slots does not count for an engine: its cache comes from
calls that hand out the same of a map of slots, whatever the orders are, and leave the same results
and statistics. -/
theorem Reachable.exists_shows (h : Reachable e) :
    ∃ calls : List (Cache.Call Resolved Error),
      e.cache = (Cache.ofCapacity e.options.cacheCapacity).run calls ∧
      ∀ listed : List (Listing × Cache.Call Resolved Error), listed.map Prod.snd = calls →
        let c := (SlotCache.ofCapacity e.options.cacheCapacity).run listed
        (SlotCache.ofCapacity e.options.cacheCapacity).answers listed =
          (Cache.ofCapacity e.options.cacheCapacity).answers calls ∧
        c.Settled ∧ c.Shows e.cache ∧ c.stats = e.cache.stats := by
  obtain ⟨root, lib, registry, options, first, hstart, hrun⟩ := h
  have hsound : Sound first := .start hstart
  have hempty : first.cache = .ofCapacity first.options.cacheCapacity := by
    obtain ⟨base, s, -, rfl⟩ := start_eq_ok_iff.1 hstart
    rfl
  obtain ⟨calls, hcurrent, hcache⟩ := hsound.exists_calls hrun
  rw [hempty] at hcurrent hcache
  rw [(inputs_of_next hrun).2, hcache]
  refine ⟨calls, rfl, fun listed hlisted => ?_⟩
  obtain rfl := hlisted
  have hsettled : (SlotCache.ofCapacity first.options.cacheCapacity : SlotCache Resolved).Settled :=
    .ofCapacity _
  obtain ⟨hanswers, hshows⟩ :=
    (SlotCache.Shows.ofCapacity _).run_of_current hsettled listed hcurrent
  exact ⟨hanswers, hsettled.run listed, hshows, hshows.stats⟩

/-- Nor does it count for what an engine resolves next. -/
theorem Sound.resolve_shows (h : Sound e) (hstate : e.state = .ready base)
    {c : SlotCache Resolved} (hc : c.Settled) (hshows : c.Shows e.cache) (order : Listing)
    (path : String) :
    let after := c.fetch order ⟨e.matchPath path, base.resolutionFingerprint⟩
      fun _ => e.compute base (e.matchPath path)
    after.1 = (e.resolve path).1 ∧ after.2.Shows (e.resolve path).2.cache := by
  obtain ⟨hanswer, hafter⟩ := hshows.perform_of_current hc
    (h.current_fetch hstate (e.matchPath path) (e.compute base (e.matchPath path))) order
  rw [resolve_eq_fetch hstate]
  exact ⟨Cache.Answer.fetched.inj hanswer, hafter⟩

end LintConfig.Engine
