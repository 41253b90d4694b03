import LintConfig.Proofs.Library.Memory
import LintConfig.Proofs.Store.UpToDate

/-!
# Sessions

A session is an engine together with the library that it reads, and goes on by steps: a document
is inserted, replaced or removed, a document is reloaded by its name, or a path is resolved.  Steps
are what happens in any order; `Settled` says of a list of them that every name that is changed is
reloaded later.  `Engine.reload_cases` says what a reload can come to, for any library.
-/

namespace LintConfig

namespace Engine

theorem withPresets_inMemory {lib : Library} (h : lib.InMemory) (registry : Registry) :
    (withPresets registry lib).InMemory :=
  h.withPresets presetsName registry.presets

/-! ### Building -/

/-- Building from memory merges what a walk from the root comes to, and the store grows by
documents. -/
theorem build_walk {lib : Library} (h : lib.InMemory) (registry : Registry)
    (options : EngineOptions) (s : Store) (root : String) :
    ∃ x s', Walk (s.catalog (withPresets registry lib)) [] [root] x ∧
      Store.Grown (withPresets registry lib) s s' ∧
      build registry options lib s root =
        ((x.map (Chain.mk root)).bind (Base.ofChain (deepKeys options)), s') := by
  obtain ⟨x, s', hload, hwalk, hgrown⟩ := Store.load_walk (withPresets_inMemory h registry) s root
  refine ⟨x, s', hwalk, hgrown, ?_⟩
  unfold build
  rw [hload]

theorem start_eq_ok_iff {root : String} {lib : Library} {registry : Registry}
    {options : EngineOptions} {e : Engine} : start root lib registry options = .ok e ↔
      ∃ base s, build registry options lib {} root = (.ok base, s) ∧
        e = { root, registry, options
              store := s
              state := .ready base
              cache := .ofCapacity options.cacheCapacity } := by
  unfold start
  rcases build registry options lib {} root with ⟨_ | base, s⟩
  · simp [Except.map]
  · simp [Except.map, eq_comm]

theorem start_eq_error_iff {root : String} {lib : Library} {registry : Registry}
    {options : EngineOptions} {error : Error} : start root lib registry options = .error error ↔
      (build registry options lib {} root).1 = .error error := by
  unfold start
  rcases build registry options lib {} root with ⟨_ | base, s⟩ <;> simp [Except.map]

/-! ### Reloading -/

theorem base_of_ready {e : Engine} {base : Base} (h : e.state = .ready base) : e.base = .ok base := by
  simp [Engine.base, h]

theorem state_of_base {e : Engine} {base : Base} (h : e.base = .ok base) : e.state = .ready base := by
  unfold Engine.base at h
  cases hstate : e.state with
  | ready base' =>
    rw [hstate] at h
    exact congrArg State.ready (Except.ok.inj h)
  | broken reason =>
    rw [hstate] at h
    cases h

theorem dependsOn_of_ready {e : Engine} {base : Base} (h : e.state = .ready base) (id : String) :
    e.dependsOn id = true ↔ id ∈ base.sources := by
  simp [dependsOn, base?, h, Base.dependsOn]

/-- The engine has a base that depends on none of some fragments. -/
def Unaffected (e : Engine) (ids : List String) : Prop :=
  ∃ base, e.state = .ready base ∧ ∀ id ∈ ids, id ∉ base.sources

/-- A reload that affects nothing keeps all but the store; any other one builds the base again, and
leaves the engine broken if that fails. -/
theorem reload_cases (e : Engine) (lib : Library) (reference : String)
    {targets dropped : List String} {s : Store} (htargets : e.reloadTargets lib reference = targets)
    (hdropped : invalidateAll e.store targets = (dropped, s)) :
    (e.Unaffected (dropped ++ targets) ∧
      e.reload lib reference = (.ok ⟨dropped, false, false, 0⟩, { e with store := s })) ∨
    (¬ e.Unaffected (dropped ++ targets) ∧ ∃ error s',
      build e.registry e.options lib s e.root = (.error error, s') ∧
      e.reload lib reference = (.error error, { e with
        store := s'
        state := .broken error.message
        cache := e.cache.clear })) ∨
    (¬ e.Unaffected (dropped ++ targets) ∧ ∃ base s',
      build e.registry e.options lib s e.root = (.ok base, s') ∧
      e.reload lib reference =
        (.ok ⟨dropped, true,
          e.base?.all fun old => old.resolutionFingerprint != base.resolutionFingerprint,
          (e.cache.purge base.resolutionFingerprint).1⟩,
        { e with
          store := s'
          state := .ready base
          cache := (e.cache.purge base.resolutionFingerprint).2 })) := by
  by_cases hunaffected : e.Unaffected (dropped ++ targets)
  · obtain ⟨base, hstate, hnot⟩ := id hunaffected
    refine .inl ⟨hunaffected, ?_⟩
    have hany : (dropped ++ targets).any base.dependsOn = false := by
      rw [List.any_eq_false]
      exact fun id hid => by simpa [Base.dependsOn] using hnot id hid
    unfold reload
    simp only [htargets, hdropped, base?, hstate, hany]
    rfl
  · have hany (base : Base) (hstate : e.state = .ready base) :
        (dropped ++ targets).any base.dependsOn = true := by
      by_contra hnone
      refine hunaffected ⟨base, hstate, fun id hid hmem => hnone ?_⟩
      exact List.any_eq_true.2 ⟨id, hid, by simpa [Base.dependsOn] using hmem⟩
    rcases hbuild : build e.registry e.options lib s e.root with ⟨error | base, s'⟩
    · refine .inr (.inl ⟨hunaffected, error, s', rfl, ?_⟩)
      unfold reload
      simp only [htargets, hdropped, hbuild, base?]
      cases hstate : e.state with
      | broken reason => rfl
      | ready base => simp only [hany base hstate]; rfl
    · refine .inr (.inr ⟨hunaffected, base, s', rfl, ?_⟩)
      unfold reload
      simp only [htargets, hdropped, hbuild, base?]
      cases hstate : e.state with
      | broken reason => rfl
      | ready old => simp only [hany old hstate]; rfl

/-- In memory a reload is of the named document, if that was read or the base depends on it. -/
theorem reloadTargets_eq {lib : Library} (h : lib.InMemory) (e : Engine) (name : String) :
    e.reloadTargets lib name = if e.store.has name || e.dependsOn name then [name] else [] := by
  unfold reloadTargets
  rw [(withPresets_inMemory h e.registry).candidates_eq name]
  split_ifs with hknown <;> simp [hknown]

/-- What an engine was started with never changes. -/
theorem reload_inputs (e : Engine) (lib : Library) (reference : String) :
    (e.reload lib reference).2.root = e.root ∧
    (e.reload lib reference).2.registry = e.registry ∧
    (e.reload lib reference).2.options = e.options := by
  rcases reload_cases e lib reference rfl rfl with
    ⟨-, h⟩ | ⟨-, error, s', -, h⟩ | ⟨-, base, s', -, h⟩ <;> rw [h] <;> exact ⟨rfl, rfl, rfl⟩

/-- Resolving changes the cache only. -/
theorem resolve_frame (e : Engine) (path : String) :
    ∃ cache, (e.resolve path).2 = { e with cache } := by
  unfold resolve
  cases e.base with
  | error error => exact ⟨e.cache, rfl⟩
  | ok base => exact ⟨_, rfl⟩

theorem resolveMany_cons (e : Engine) (path : String) (paths : List String) :
    e.resolveMany (path :: paths) =
      ((e.resolve path).1 :: ((e.resolve path).2.resolveMany paths).1,
        ((e.resolve path).2.resolveMany paths).2) := rfl

end Engine

/-! ### Steps -/

/-- What happens to an engine or to the documents that it reads. -/
inductive Step where
  /-- Inserts or replaces a document of one of the sources in memory. -/
  | insert (source : Nat) (name : String) (document : Document)
  | remove (source : Nat) (name : String)
  | reload (name : String)
  | resolve (path : String)

/-- The name whose document a step changes. -/
def Step.changed? : Step → Option String
  | .insert _ name _ => some name
  | .remove _ name => some name
  | .reload _ => none
  | .resolve _ => none

/-- Every name that is changed is reloaded later. -/
def Settled (steps : List Step) : Prop := SettledBy Step.changed? .reload steps

/-- An engine and the documents that it reads. -/
structure Session where
  lib : Library
  engine : Engine

namespace Session

/-- What a session is after a step. -/
def step (s : Session) : Step → Session
  | .insert source name document => { s with lib := s.lib.insert source name document }
  | .remove source name => { s with lib := s.lib.remove source name }
  | .reload name => { s with engine := (s.engine.reload s.lib name).2 }
  | .resolve path => { s with engine := (s.engine.resolve path).2 }

/-- What a session is after steps. -/
def run (s : Session) (steps : List Step) : Session := steps.foldl step s

theorem step_inputs (s : Session) (x : Step) :
    (s.step x).engine.root = s.engine.root ∧
    (s.step x).engine.registry = s.engine.registry ∧
    (s.step x).engine.options = s.engine.options := by
  cases x with
  | insert source name document => exact ⟨rfl, rfl, rfl⟩
  | remove source name => exact ⟨rfl, rfl, rfl⟩
  | reload name => exact s.engine.reload_inputs s.lib name
  | resolve path =>
    obtain ⟨cache, h⟩ := s.engine.resolve_frame path
    simp [step, h]

/-- What an engine was started with never changes along a run. -/
theorem run_inputs (s : Session) (steps : List Step) :
    (s.run steps).engine.root = s.engine.root ∧
    (s.run steps).engine.registry = s.engine.registry ∧
    (s.run steps).engine.options = s.engine.options := by
  induction steps generalizing s with
  | nil => exact ⟨rfl, rfl, rfl⟩
  | cons x steps ih =>
    obtain ⟨hroot, hregistry, hoptions⟩ := s.step_inputs x
    have h := ih (s.step x)
    rw [hroot, hregistry, hoptions] at h
    exact h

end Session

end LintConfig
