import LintConfig.Proofs.Base
import LintConfig.Proofs.Cache.Calls
import LintConfig.Proofs.Engine.Session
import LintConfig.Proofs.Layer.Precedence
import Mathlib.Logic.Relation

/-!
# Engines in use

An engine in use resolves paths and reloads documents, from a library that may be another one each
time and need not be in memory.  However it came about, its base was merged from some chain, and all
that its cache keeps was computed from a base with the fingerprint of the present one
(`Engine.Sound`).
-/

namespace LintConfig.Engine

open Relation (ReflTransGen)

/-- What happens to an engine in use. -/
inductive Next (e : Engine) : Engine → Prop where
  | resolve (path : String) : Next e (e.resolve path).2
  | reload (lib : Library) (reference : String) : Next e (e.reload lib reference).2

/-- An engine that was started and is in use. -/
def Reachable (e : Engine) : Prop :=
  ∃ root lib registry options first, start root lib registry options = .ok first ∧
    ReflTransGen Next first e

variable {e e' : Engine} {base : Base} {path : String} {r : Resolved}

theorem Reachable.next (h : Reachable e) (hnext : Next e e') : Reachable e' := by
  obtain ⟨root, lib, registry, options, first, hstart, hrun⟩ := h
  exact ⟨root, lib, registry, options, first, hstart, hrun.tail hnext⟩

theorem Next.inputs (h : Next e e') : e'.registry = e.registry ∧ e'.options = e.options := by
  cases h with
  | resolve path =>
    obtain ⟨cache, hcache⟩ := e.resolve_frame path
    rw [hcache]
    exact ⟨rfl, rfl⟩
  | reload lib reference => exact (e.reload_inputs lib reference).2

/-- The plugins and the options never change. -/
theorem inputs_of_next (h : ReflTransGen Next e e') :
    e'.registry = e.registry ∧ e'.options = e.options := by
  induction h with
  | refl => exact ⟨rfl, rfl⟩
  | tail _ hlast ih => exact ⟨hlast.inputs.1.trans ih.1, hlast.inputs.2.trans ih.2⟩

/-- Nothing of an engine but its plugins and options counts for what a base gives a path. -/
theorem compute_congr (h : e'.registry = e.registry ∧ e'.options = e.options) (base : Base)
    (path : String) : e'.compute base path = e.compute base path := by
  unfold compute
  rw [h.1, h.2]

theorem fingerprint_of_compute (h : e.compute base path = .ok r) :
    r.fingerprint = base.resolutionFingerprint := by
  obtain ⟨candidate, rules, -, -, rfl⟩ := compute_eq_ok_iff.1 h
  rfl

theorem resolve_eq_fetch (h : e.state = .ready base) (path : String) :
    e.resolve path =
      ((e.cache.fetch ⟨e.matchPath path, base.resolutionFingerprint⟩
          fun _ => e.compute base (e.matchPath path)).1,
        { e with cache := (e.cache.fetch ⟨e.matchPath path, base.resolutionFingerprint⟩
          fun _ => e.compute base (e.matchPath path)).2 }) := by
  unfold resolve
  rw [base_of_ready h]

theorem resolve_broken {reason : String} (h : e.state = .broken reason) (path : String) :
    (e.resolve path).2 = e := by
  unfold resolve
  rw [Engine.base, h]

theorem exists_ofChain_of_build {registry : Registry} {options : EngineOptions} {lib : Library}
    {s s' : Store} {root : String} (h : build registry options lib s root = (.ok base, s')) :
    ∃ c, Base.ofChain (deepKeys options) c = .ok base := by
  unfold build at h
  rcases hload : s.load (withPresets registry lib) root with ⟨error | c, s''⟩ <;> rw [hload] at h
  · cases h
  · exact ⟨c, (Prod.mk.inj h).1⟩

/-! ### What is true of every engine in use -/

/-- The base was merged from a chain, and what the cache keeps has its fingerprint. -/
structure Sound (e : Engine) : Prop where
  merged : ∀ base, e.state = .ready base → ∃ c, Base.ofChain (deepKeys e.options) c = .ok base
  cached : e.cache.Holds fun k r => ∃ base, e.state = .ready base ∧
    k.fingerprint = base.resolutionFingerprint ∧ r.fingerprint = base.resolutionFingerprint

namespace Sound

theorem start {root : String} {lib : Library} {registry : Registry} {options : EngineOptions}
    (h : start root lib registry options = .ok e) : Sound e := by
  obtain ⟨base, s, hbuild, rfl⟩ := start_eq_ok_iff.1 h
  constructor
  · intro b hb
    cases hb
    exact exists_ofChain_of_build hbuild
  · exact .ofCapacity options.cacheCapacity

theorem resolve (h : Sound e) (path : String) : Sound (e.resolve path).2 := by
  cases hstate : e.state with
  | broken reason => rwa [resolve_broken hstate]
  | ready base =>
    rw [resolve_eq_fetch hstate]
    refine ⟨h.merged, h.cached.fetch fun r hr => ?_⟩
    exact ⟨base, hstate, rfl, fingerprint_of_compute hr⟩

theorem reload (h : Sound e) (lib : Library) (reference : String) :
    Sound (e.reload lib reference).2 := by
  rcases reload_cases e lib reference rfl rfl with
    ⟨-, hreload⟩ | ⟨-, error, s, -, hreload⟩ | ⟨-, base, s, hbuild, hreload⟩ <;> rw [hreload]
  · exact ⟨h.merged, h.cached⟩
  · exact ⟨fun b hb => (by cases hb), .clear e.cache⟩
  · constructor
    · intro b hb
      cases hb
      exact exists_ofChain_of_build hbuild
    · refine (h.cached.purge base.resolutionFingerprint).mono fun k r hk => ?_
      -- what survives the purge was kept under a fingerprint that both bases have
      obtain ⟨hlive, old, -, hkey, hr⟩ := hk
      exact ⟨base, rfl, hlive, hr.trans (hkey.symm.trans hlive)⟩

/-- All that is kept is kept under the fingerprint of the base. -/
theorem holds_fingerprint (h : Sound e) (hstate : e.state = .ready base) :
    e.cache.Holds fun k _ => k.fingerprint = base.resolutionFingerprint :=
  h.cached.mono fun k r hk => by
    obtain ⟨b, hb, hkey, -⟩ := hk
    rwa [State.ready.inj (hstate.symm.trans hb)]

/-- A result for the base is added to results for the base. -/
theorem current_fetch (h : Sound e) (hstate : e.state = .ready base) (path : String)
    (result : Except Error Resolved) :
    (Cache.Call.fetch ⟨path, base.resolutionFingerprint⟩ result).Current e.cache := by
  intro k hk
  obtain ⟨entry, hentry, rfl⟩ := List.mem_map.1 hk
  exact h.holds_fingerprint hstate entry hentry

/-- A broken engine keeps nothing. -/
theorem entries_of_broken (h : Sound e) {reason : String} (hstate : e.state = .broken reason) :
    e.cache.entries = [] := by
  refine List.eq_nil_iff_forall_not_mem.2 fun entry hentry => ?_
  obtain ⟨base, hbase, -⟩ := h.cached entry hentry
  cases hstate.symm.trans hbase

/-- A step calls the cache once at most, for a result under the fingerprint of all that is kept. -/
theorem cache_of_next (h : Sound e) (hnext : Next e e') :
    e'.cache = e.cache ∨
      ∃ call : Cache.Call Resolved Error, call.Current e.cache ∧ e'.cache = call.after e.cache := by
  cases hnext with
  | resolve path =>
    cases hstate : e.state with
    | broken reason => exact .inl (congrArg cache (resolve_broken hstate path))
    | ready base =>
      rw [resolve_eq_fetch hstate]
      exact .inr ⟨_, h.current_fetch hstate _ (e.compute base (e.matchPath path)), rfl⟩
  | reload lib reference =>
    rcases reload_cases e lib reference rfl rfl with
      ⟨-, hreload⟩ | ⟨-, error, s, -, hreload⟩ | ⟨-, base, s, -, hreload⟩ <;> rw [hreload]
    · exact .inl rfl
    · exact .inr ⟨.clear, trivial, rfl⟩
    · exact .inr ⟨.purge base.resolutionFingerprint, trivial, rfl⟩

theorem next (h : Sound e) (hnext : Next e e') : Sound e' := by
  cases hnext with
  | resolve path => exact h.resolve path
  | reload lib reference => exact h.reload lib reference

theorem run (h : Sound e) (hrun : ReflTransGen Next e e') : Sound e' := by
  induction hrun with
  | refl => exact h
  | tail _ hlast ih => exact ih.next hlast

end Sound

theorem Reachable.sound (h : Reachable e) : Sound e := by
  obtain ⟨root, lib, registry, options, first, hstart, hrun⟩ := h
  exact (Sound.start hstart).run hrun

/-- What a path resolves to has the fingerprint of the present base. -/
theorem Sound.fingerprint_of_resolve (h : Sound e) (hstate : e.state = .ready base)
    (hresolve : (e.resolve path).1 = .ok r) : r.fingerprint = base.resolutionFingerprint := by
  rw [resolve_eq_fetch hstate] at hresolve
  obtain ⟨b, hb, -, hr⟩ := h.cached.of_fetch
    (fun r hr => ⟨base, hstate, rfl, fingerprint_of_compute hr⟩) hresolve
  obtain rfl : base = b := State.ready.inj (hstate.symm.trans hb)
  exact hr

end LintConfig.Engine
