import LintConfig.Proofs.Engine.Transparent

/-!
# What holds of an engine at any time

An engine is asked about paths, is asked what is wrong with its base, reloads, and sees its
documents change, in any order (`Event`).  Whatever happened so far, what its cache keeps was
computed for the present base (`Sound`) and stays within the capacity, under the path that it is
for (`Tidy`).  So a broken engine has an empty cache, a path resolves to something with the
fingerprint of the present base, and a reload drops everything or nothing (`handleAll_consistent`).
-/

namespace LintConfig

open Relation (ReflTransGen)

namespace Engine

variable {e e' : Engine} {base : Base} {path : String} {r : Resolved}

/-! ### Size and paths -/

/-- The cache stays within its capacity, and what it keeps is for the path that it is kept under. -/
structure Tidy (e : Engine) : Prop where
  capacity : e.cache.capacity = max 1 e.options.cacheCapacity
  size : e.cache.size ≤ e.cache.capacity
  paths : e.cache.Holds fun k r => r.path = k.path

theorem path_of_compute (h : e.compute base path = .ok r) : r.path = path := by
  obtain ⟨candidate, rules, -, -, rfl⟩ := compute_eq_ok_iff.1 h
  rfl

namespace Tidy

theorem start {root : String} {lib : Library} {registry : Registry} {options : EngineOptions}
    (h : start root lib registry options = .ok e) : Tidy e := by
  obtain ⟨base, s, -, rfl⟩ := start_eq_ok_iff.1 h
  exact ⟨rfl, Nat.zero_le _, .ofCapacity options.cacheCapacity⟩

theorem resolve (h : Tidy e) (path : String) : Tidy (e.resolve path).2 := by
  cases hstate : e.state with
  | broken reason => rwa [resolve_broken hstate]
  | ready base =>
    have hone : 1 ≤ e.cache.capacity := h.capacity.symm ▸ Nat.le_max_left 1 _
    rw [resolve_eq_fetch hstate]
    refine ⟨?_, ?_, h.paths.fetch fun r => path_of_compute⟩
    · exact (Cache.capacity_fetch _ _ _).trans h.capacity
    · rw [Cache.capacity_fetch]
      exact Cache.size_fetch_le hone h.size

theorem reload (h : Tidy e) (lib : Library) (reference : String) :
    Tidy (e.reload lib reference).2 := by
  rcases reload_cases e lib reference rfl rfl with
    ⟨-, hreload⟩ | ⟨-, error, s, -, hreload⟩ | ⟨-, base, s, -, hreload⟩ <;> rw [hreload]
  · exact ⟨h.capacity, h.size, h.paths⟩
  · exact ⟨h.capacity, Nat.zero_le _, .clear e.cache⟩
  · refine ⟨h.capacity, Nat.le_trans (e.cache.size_purge_le _) h.size, ?_⟩
    exact (h.paths.purge base.resolutionFingerprint).mono fun _ _ hk => hk.2

theorem run (h : Tidy e) (hrun : ReflTransGen Next e e') : Tidy e' := by
  induction hrun with
  | refl => exact h
  | tail _ hlast ih =>
    cases hlast with
    | resolve path => exact ih.resolve path
    | reload lib reference => exact ih.reload lib reference

end Tidy

/-- What a path resolves to is for that path. -/
theorem Tidy.path_of_resolve (h : Tidy e) (hresolve : (e.resolve path).1 = .ok r) :
    r.path = e.matchPath path := by
  cases hstate : e.state with
  | broken reason => simp [Engine.resolve, Engine.base, hstate] at hresolve
  | ready base =>
    rw [resolve_eq_fetch hstate] at hresolve
    exact h.paths.of_fetch (k := ⟨e.matchPath path, base.resolutionFingerprint⟩)
      (fun r => path_of_compute) hresolve

/-! ### Answers -/

/-- A configuration of a path by the present base. -/
def Current (e : Engine) (path : String) (r : Resolved) : Prop :=
  r.path = e.matchPath path ∧
    ∃ base, e.base = .ok base ∧ r.fingerprint = base.resolutionFingerprint

theorem current_of_resolve (hsound : Sound e) (htidy : Tidy e)
    (hresolve : (e.resolve path).1 = .ok r) : e.Current path r := by
  refine ⟨htidy.path_of_resolve hresolve, ?_⟩
  cases hstate : e.state with
  | broken reason => simp [Engine.resolve, Engine.base, hstate] at hresolve
  | ready base =>
    exact ⟨base, base_of_ready hstate, hsound.fingerprint_of_resolve hstate hresolve⟩

theorem current_of_resolveMany (hsound : Sound e) (htidy : Tidy e) (paths : List String) :
    List.Forall₂ (fun path result => ∀ r, result = .ok r → e.Current path r) paths
      (e.resolveMany paths).1 := by
  induction paths generalizing e with
  | nil => exact .nil
  | cons path paths ih =>
    refine .cons (fun r hr => current_of_resolve hsound htidy hr) ?_
    -- for what follows only the cache has changed
    have hothers := ih (hsound.resolve path) (htidy.resolve path)
    obtain ⟨cache, hcache⟩ := e.resolve_frame path
    have hsame {path' : String} {r : Resolved} (h : (e.resolve path).2.Current path' r) :
        e.Current path' r := by
      rwa [hcache] at h
    exact hothers.imp fun path' result h r hr => hsame (h r hr)

/-- What everything fails with that needs the base of a broken engine. -/
def unusable (e : Engine) (reason : String) : Error :=
  .unusable ("configuration '" ++ e.root ++ "' failed to reload: " ++ reason)

theorem resolveMany_broken {reason : String} (h : e.state = .broken reason) (paths : List String) :
    (e.resolveMany paths).1 = paths.map fun _ => .error (e.unusable reason) := by
  have hresolve (path : String) : e.resolve path = (.error (e.unusable reason), e) := by
    unfold resolve
    rw [Engine.base, h]
    rfl
  induction paths with
  | nil => rfl
  | cons path paths ih =>
    rw [resolveMany_cons, hresolve, ih, List.map_cons]

theorem next_resolveMany (e : Engine) (paths : List String) :
    ReflTransGen Next e (e.resolveMany paths).2 := by
  induction paths generalizing e with
  | nil => exact .refl
  | cons path paths ih => exact .head (.resolve path) (ih (e.resolve path).2)

/-- A reload that builds the base again drops what was kept under another fingerprint, which is
everything or nothing. -/
theorem purged_of_reload {lib : Library} {reference : String} {report : ReloadReport}
    (h : Sound e) (hreload : e.reload lib reference = (.ok report, e'))
    (hrebuilt : report.rebuilt = true) :
    report.purged = if report.fingerprintChanged then e.cache.size else 0 := by
  obtain ⟨new, s, s', -, hchanged, hpurged, -⟩ := reload_rebuilt hreload hrebuilt
  rw [hpurged, hchanged]
  cases hstate : e.state with
  | broken reason => simp [Cache.purge, Cache.size, h.entries_of_broken hstate]
  | ready old =>
    rw [Cache.purged_of_holds (h.holds_fingerprint hstate)]
    by_cases hsame : old.resolutionFingerprint = new.resolutionFingerprint <;>
      simp [base?, hstate, hsame]

end Engine

namespace Session

/-! ### Events -/

/-- What happens to an engine in use, or to the documents that it reads. -/
inductive Event where
  | resolve (path : String)
  | resolveMany (paths : List String)
  | isIgnored (path : String)
  | validate
  | reload (reference : String)
  /-- The documents change in any way. -/
  | change (lib : Library)

/-- What a session is after an event. -/
def handle (s : Session) : Event → Session
  | .resolve path => { s with engine := (s.engine.resolve path).2 }
  | .resolveMany paths => { s with engine := (s.engine.resolveMany paths).2 }
  | .isIgnored _ => s
  | .validate => s
  | .reload reference => { s with engine := (s.engine.reload s.lib reference).2 }
  | .change lib => { s with lib }

/-- What a session is after events. -/
def handleAll (s : Session) (events : List Event) : Session := events.foldl handle s

theorem next_handle (s : Session) (event : Event) :
    ReflTransGen Engine.Next s.engine (s.handle event).engine := by
  cases event with
  | resolve path => exact .single (.resolve path)
  | resolveMany paths => exact s.engine.next_resolveMany paths
  | isIgnored path => exact .refl
  | validate => exact .refl
  | reload reference => exact .single (.reload s.lib reference)
  | change lib => exact .refl

theorem next_handleAll (s : Session) (events : List Event) :
    ReflTransGen Engine.Next s.engine (s.handleAll events).engine := by
  induction events generalizing s with
  | nil => exact .refl
  | cons event events ih => exact (s.next_handle event).trans (ih (s.handle event))

/-- Whatever happened to an engine since it was started: what its cache keeps has the fingerprint of
the present base, within the capacity.  A broken engine keeps nothing and answers with an error.
What a path resolves to, on its own or with others, is for that path and from the present base.  A
reload that builds the base again drops all results if the fingerprint changed, and none if not. -/
theorem handleAll_consistent {root : String} {lib : Library} {registry : Registry}
    {options : EngineOptions} {first e : Engine}
    (hstart : Engine.start root lib registry options = .ok first) {events : List Event}
    (hrun : ((mk lib first).handleAll events).engine = e) :
    (∀ entry ∈ e.cache.entries, ∃ base, e.base = .ok base ∧
      entry.1.fingerprint = base.resolutionFingerprint) ∧
    e.cache.size ≤ max 1 options.cacheCapacity ∧
    (∀ reason, e.state = .broken reason → e.cache.entries = [] ∧
      (∀ path, (e.resolve path).1 = .error (e.unusable reason) ∧
        e.isIgnored path = .error (e.unusable reason)) ∧
      ∀ paths, (e.resolveMany paths).1 = paths.map fun _ => .error (e.unusable reason)) ∧
    (∀ path r, (e.resolve path).1 = .ok r → e.Current path r) ∧
    (∀ paths, List.Forall₂ (fun path result => ∀ r, result = .ok r → e.Current path r) paths
      (e.resolveMany paths).1) ∧
    ∀ lib reference report e', e.reload lib reference = (.ok report, e') → report.rebuilt = true →
      report.purged = if report.fingerprintChanged then e.cache.size else 0 := by
  have hnext : ReflTransGen Engine.Next first e := hrun ▸ next_handleAll (mk lib first) events
  have hsound := (Engine.Sound.start hstart).run hnext
  have htidy := (Engine.Tidy.start hstart).run hnext
  have hoptions : e.options = options := by
    obtain ⟨base, s, -, rfl⟩ := Engine.start_eq_ok_iff.1 hstart
    exact (Engine.inputs_of_next hnext).2
  have hkeys : ∀ entry ∈ e.cache.entries, ∃ base, e.base = .ok base ∧
      entry.1.fingerprint = base.resolutionFingerprint := fun entry hentry => by
    obtain ⟨base, hbase, hkey, -⟩ := hsound.cached entry hentry
    exact ⟨base, Engine.base_of_ready hbase, hkey⟩
  refine ⟨hkeys, ?_, fun reason hbroken => ⟨?_, fun path => ?_, ?_⟩, ?_, ?_, ?_⟩
  · exact hoptions ▸ htidy.capacity ▸ htidy.size
  · refine List.eq_nil_iff_forall_not_mem.2 fun entry hentry => ?_
    obtain ⟨base, hbase, -⟩ := hkeys entry hentry
    simp [Engine.base, hbroken] at hbase
  · simp [Engine.resolve, Engine.isIgnored, Engine.base, hbroken, Engine.unusable, Except.map]
  · exact Engine.resolveMany_broken hbroken
  · exact fun path r => Engine.current_of_resolve hsound htidy
  · exact Engine.current_of_resolveMany hsound htidy
  · exact fun lib reference report e' => Engine.purged_of_reload hsound

/-- One document, in memory. -/
def lone (d : Document) : Library := ⟨[.memory "memory" [("app", d)]], default⟩

/-- The document comes to extend itself while a resolution is kept. -/
def knot : List Event :=
  [.resolveMany ["a.js", "b.js"], .validate, .change (lone { bases := .one "app" }), .reload "app",
    .isIgnored "a.js"]

theorem start_lone : ∃ first kept e e' report,
    Engine.start "app" (lone {}) {} { cacheCapacity := 0 } = .ok first ∧
    ((mk (lone {}) first).handleAll (knot.take 3)).engine = kept ∧ kept.cache.size = 1 ∧
    ((mk (lone {}) first).handleAll knot).engine = e ∧
    e.state = .broken "Cyclic inheritance: app -> app" ∧
    e.reload (lone { env := [("node", true)] }) "app" = (.ok report, e') ∧
    report.rebuilt = true ∧ report.fingerprintChanged = true :=
  ⟨_, _, _, _, _, by rfl, rfl, by decide +kernel, rfl, by rfl, by rfl, by rfl, by rfl⟩

/-- A cache with room for one resolution is full, is emptied when the engine breaks, and is empty
when the document is set right. -/
theorem handleAll_knot : ∃ first kept e e' report,
    Engine.start "app" (lone {}) {} { cacheCapacity := 0 } = .ok first ∧
    ((mk (lone {}) first).handleAll (knot.take 3)).engine = kept ∧ kept.cache.size = 1 ∧
    ((mk (lone {}) first).handleAll knot).engine = e ∧ e.cache.entries = [] ∧
    (e.resolve "a.js").1 = .error (e.unusable "Cyclic inheritance: app -> app") ∧
    e.reload (lone { env := [("node", true)] }) "app" = (.ok report, e') ∧
    report.rebuilt = true ∧ report.purged = 0 := by
  obtain ⟨first, kept, e, e', report, hstart, hkept, hsize, he, hbroken, hreload, hrebuilt,
    hchanged⟩ := start_lone
  obtain ⟨-, -, hunusable, -, -, hpurged⟩ := handleAll_consistent hstart he
  obtain ⟨hempty, hresolve, -⟩ := hunusable _ hbroken
  refine ⟨first, kept, e, e', report, hstart, hkept, hsize, he, hempty, (hresolve "a.js").1,
    hreload, hrebuilt, ?_⟩
  rw [hpurged _ _ _ _ hreload hrebuilt, if_pos hchanged, Cache.size, hempty, List.length_nil]

end Session

end LintConfig
