import LintConfig.Proofs.Engine.Reachable

/-!
# While a base lasts

An engine whose base lasts resolves paths and is told of documents that do not matter to it
(`Keeps`).  As long as the cache has nothing under the fingerprint of the base that the base does
not give (`Transparent`), a path is configured in the same way with or without the cache
(`Transparent.resolve_eq_compute`).  A started engine is transparent, and so is one whose last
reload changed the fingerprint (`Transparent.of_reload`).
-/

namespace LintConfig.Engine

open Relation (ReflTransGen)

variable {e e' : Engine} {base new : Base} {lib : Library} {reference : String}
  {report : ReloadReport}

/-! ### What a successful reload leaves -/

/-- A reload that does not build the base again changes the store only. -/
theorem reload_kept (h : e.reload lib reference = (.ok report, e'))
    (hkept : report.rebuilt = false) : ∃ s, e' = { e with store := s } := by
  rcases reload_cases e lib reference rfl rfl with
    ⟨-, hreload⟩ | ⟨-, error, s', -, hreload⟩ | ⟨-, new, s', -, hreload⟩
  · obtain ⟨-, rfl⟩ := Prod.mk.inj (hreload.symm.trans h)
    exact ⟨_, rfl⟩
  · cases (Prod.mk.inj (hreload.symm.trans h)).1
  · obtain ⟨hreport, -⟩ := Prod.mk.inj (hreload.symm.trans h)
    obtain rfl := Except.ok.inj hreport
    cases hkept

/-- A reload that builds the base again keeps what the cache has under the new fingerprint. -/
theorem reload_rebuilt (h : e.reload lib reference = (.ok report, e'))
    (hrebuilt : report.rebuilt = true) : ∃ new s s',
      build e.registry e.options lib s e.root = (.ok new, s') ∧
      report.fingerprintChanged =
        (e.base?.all fun old => old.resolutionFingerprint != new.resolutionFingerprint) ∧
      report.purged = (e.cache.purge new.resolutionFingerprint).1 ∧
      e' = { e with
        store := s'
        state := .ready new
        cache := (e.cache.purge new.resolutionFingerprint).2 } := by
  rcases reload_cases e lib reference rfl rfl with
    ⟨-, hreload⟩ | ⟨-, error, s', -, hreload⟩ | ⟨-, new, s', hbuild, hreload⟩
  · obtain ⟨hreport, -⟩ := Prod.mk.inj (hreload.symm.trans h)
    obtain rfl := Except.ok.inj hreport
    cases hrebuilt
  · cases (Prod.mk.inj (hreload.symm.trans h)).1
  · obtain ⟨hreport, rfl⟩ := Prod.mk.inj (hreload.symm.trans h)
    obtain rfl := Except.ok.inj hreport
    exact ⟨new, _, s', hbuild, rfl, rfl, rfl⟩

/-! ### Engines with one base -/

/-- What happens to an engine in use without its base being built again. -/
inductive Keeps (e : Engine) : Engine → Prop where
  | resolve (path : String) : Keeps e (e.resolve path).2
  | reload {lib : Library} {reference : String} {report : ReloadReport} {e' : Engine}
    (h : e.reload lib reference = (.ok report, e')) (hkept : report.rebuilt = false) : Keeps e e'

/-- The cache has nothing under the fingerprint of the base that the base does not give. -/
structure Transparent (base : Base) (e : Engine) : Prop where
  ready : e.state = .ready base
  cached : e.cache.Holds fun k r =>
    k.fingerprint = base.resolutionFingerprint → e.compute base k.path = .ok r

namespace Transparent

/-- With or without the cache, a path is configured in the same way. -/
theorem resolve_eq_compute (h : Transparent base e) (path : String) :
    (e.resolve path).1 = e.compute base (e.matchPath path) := by
  rw [resolve_eq_fetch h.ready]
  exact Cache.fetch_eq_compute fun r hr =>
    h.cached (⟨e.matchPath path, base.resolutionFingerprint⟩, r) hr rfl

theorem keeps (h : Transparent base e) (hkeeps : Keeps e e') : Transparent base e' := by
  cases hkeeps with
  | resolve path =>
    rw [resolve_eq_fetch h.ready]
    exact ⟨h.ready, h.cached.fetch fun r hr _ => hr⟩
  | reload hreload hkept =>
    obtain ⟨s, rfl⟩ := reload_kept hreload hkept
    exact ⟨h.ready, h.cached⟩

theorem run (h : Transparent base e) (hrun : ReflTransGen Keeps e e') : Transparent base e' := by
  induction hrun with
  | refl => exact h
  | tail _ hlast ih => exact ih.keeps hlast

/-- An engine that was just started has nothing in its cache. -/
theorem start {root : String} {registry : Registry} {options : EngineOptions}
    (h : start root lib registry options = .ok e) : ∃ base, Transparent base e := by
  obtain ⟨base, s, -, rfl⟩ := start_eq_ok_iff.1 h
  exact ⟨base, rfl, .ofCapacity options.cacheCapacity⟩

/-- A reload that changes the fingerprint leaves nothing in the cache. -/
theorem of_reload (h : Sound e) (hreload : e.reload lib reference = (.ok report, e'))
    (hrebuilt : report.rebuilt = true) (hnew : e'.state = .ready new)
    (hchanged : report.fingerprintChanged = true) : Transparent new e' := by
  obtain ⟨base, s, s', -, hall, -, rfl⟩ := reload_rebuilt hreload hrebuilt
  obtain rfl : base = new := State.ready.inj hnew
  refine ⟨rfl, (h.cached.purge base.resolutionFingerprint).mono fun k r hk => ?_⟩
  -- what survives the purge was kept under the new fingerprint, and everything under the old one
  obtain ⟨hlive, old, hold, hkey, -⟩ := hk
  have hne : old.resolutionFingerprint ≠ base.resolutionFingerprint := by
    simpa [hall, base?, hold] using hchanged
  exact absurd (hkey.symm.trans hlive) hne

end Transparent

theorem Keeps.next (h : Keeps e e') : Next e e' := by
  cases h with
  | resolve path => exact .resolve path
  | @reload lib reference _ _ hreload =>
    obtain rfl : (e.reload lib reference).2 = e' := congrArg Prod.snd hreload
    exact .reload lib reference

end LintConfig.Engine
