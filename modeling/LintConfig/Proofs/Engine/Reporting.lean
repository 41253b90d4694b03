import LintConfig.Proofs.Cache.Calls
import LintConfig.Proofs.Engine.Events
import LintConfig.Proofs.Engine.Requests
import LintConfig.Proofs.Engine.Validation

/-!
# Reporting on many paths

What a path fails with while there is a base is an error of that path alone: a malformed pattern of
an override, or an entry that is refused (`Engine.recoverable_of_compute`).  So asking for many
paths at once gives an answer for each of them, which is the one that it gets when the paths are
resolved one after the other (`Engine.asked`), or nothing where that fails
(`Engine.resolveReported_at`).  A result that was kept since before the last reload may make room
for others meanwhile, and give way to what the base gives now; there is no other difference
(`Engine.resolve_asked`).
-/

namespace LintConfig

/-- Attempts whose errors are all recoverable are all reported. -/
theorem Error.mapM_recover {α : Type} {results : List (Except Error α)}
    (h : ∀ error, .error error ∈ results → error.isRecoverable = true) :
    results.mapM Error.recover = .ok (results.map Except.toOption) := by
  induction results with
  | nil => rfl
  | cons result results ih =>
    have hrecover : Error.recover result = .ok result.toOption := by
      cases result with
      | ok a => rfl
      | error error => rw [Error.recover, if_pos (h error List.mem_cons_self)]; rfl
    rw [List.mapM_cons, hrecover, ih fun error hmem => h error (List.mem_cons_of_mem _ hmem)]
    rfl

namespace Engine

variable {e e' : Engine} {base : Base} {path : String} {error : Error}

/-! ### Errors of a path -/

/-- A path fails with an error of its own. -/
theorem recoverable_of_compute (h : e.compute base path = .error error) :
    error.isRecoverable = true := by
  rcases compute_eq_error h with happly | ⟨candidate, -, hrules⟩
  · obtain ⟨o, -, ho⟩ := Base.exists_of_apply_eq_error happly
    obtain ⟨_, -, rfl⟩ := List.mem_map.1 (Override.mem_problems_of_appliesTo ho)
    rfl
  · obtain ⟨id, entry, -, hentry⟩ := RuleMap.exists_of_resolve_eq_error hrules
    rcases RuleEntry.resolve_eq_error hentry with ⟨-, rfl⟩ | ⟨-, habout⟩
    · rfl
    · cases habout <;> rfl

theorem recoverable_of_resolve (hbase : e.base = .ok base)
    (h : (e.resolve path).1 = .error error) : error.isRecoverable = true :=
  recoverable_of_compute (compute_of_resolve_eq_error hbase h)

theorem recoverable_of_resolveMany (hbase : e.base = .ok base) (paths : List String) :
    ∀ error, .error error ∈ (e.resolveMany paths).1 → error.isRecoverable = true := by
  induction paths generalizing e with
  | nil => exact fun error h => absurd h List.not_mem_nil
  | cons path paths ih =>
    intro error hmem
    rw [resolveMany_cons] at hmem
    rcases List.mem_cons.1 hmem with hfirst | hmem
    · exact recoverable_of_resolve hbase hfirst.symm
    · obtain ⟨cache, hcache⟩ := e.resolve_frame path
      have hbase' : (e.resolve path).2.base = .ok base := by rw [hcache]; exact hbase
      exact ih hbase' error hmem

/-- With a base no path keeps others from being reported. -/
theorem resolveReported_eq (hbase : e.base = .ok base) (paths : List String) :
    e.resolveReported paths =
      (.ok ((e.resolveMany paths).1.map Except.toOption), (e.resolveMany paths).2) := by
  unfold resolveReported
  dsimp only
  rw [Error.mapM_recover (recoverable_of_resolveMany hbase paths)]

/-- Without a base the first path fails fatally. -/
theorem resolveReported_broken {reason : String} (h : e.state = .broken reason)
    {paths : List String} (hpaths : paths ≠ []) :
    (e.resolveReported paths).1 = .error (e.unusable reason) := by
  obtain ⟨path, paths, rfl⟩ := List.exists_cons_of_ne_nil hpaths
  unfold resolveReported
  dsimp only
  rw [resolveMany_broken h, List.map_cons, List.mapM_cons]
  rfl

/-! ### One path after the other -/

/-- An engine after paths were resolved, one after the other. -/
def asked (e : Engine) (paths : List String) : Engine :=
  paths.foldl (fun e path => (e.resolve path).2) e

theorem asked_concat (e : Engine) (paths : List String) (path : String) :
    e.asked (paths ++ [path]) = ((e.asked paths).resolve path).2 := by
  rw [asked, List.foldl_concat, ← asked]

/-- Many paths are resolved as one after the other would be. -/
theorem resolveMany_eq (e : Engine) (paths : List String) :
    (e.resolveMany paths).2 = e.asked paths ∧ (e.resolveMany paths).1.length = paths.length ∧
    ∀ i path, paths[i]? = some path →
      (e.resolveMany paths).1[i]? = some ((e.asked (paths.take i)).resolve path).1 := by
  induction paths generalizing e with
  | nil => exact ⟨rfl, rfl, fun i path h => by cases h⟩
  | cons first paths ih =>
    obtain ⟨hlast, hlength, hothers⟩ := ih (e.resolve first).2
    rw [resolveMany_cons]
    refine ⟨hlast, congrArg (· + 1) hlength, fun i path h => ?_⟩
    cases i with
    | zero =>
      obtain rfl := Option.some.inj h
      rfl
    | succ i => exact hothers i path h

theorem asked_frame (e : Engine) (paths : List String) :
    ∃ cache, e.asked paths = { e with cache } :=
  (e.resolveMany_eq paths).1 ▸ e.resolveMany_frame paths

/-! ### What is kept meanwhile -/

/-- No result is kept twice. -/
theorem Reachable.nodup_keys (h : Reachable e) : e.cache.keys.Nodup := by
  obtain ⟨root, lib, registry, options, first, hstart, hrun⟩ := h
  induction hrun with
  | refl =>
    obtain ⟨base, s, -, rfl⟩ := start_eq_ok_iff.1 hstart
    exact List.nodup_nil
  | tail hrun hnext ih =>
    rcases ((Sound.start hstart).run hrun).cache_of_next hnext with hcache | ⟨call, -, hcache⟩
    · rwa [hcache]
    · exact hcache ▸ Cache.nodup_keys_after ih call

/-- While paths are resolved, what is kept was kept before or is what the base gives. -/
theorem holds_asked (hstate : e.state = .ready base) (paths : List String) :
    (e.asked paths).cache.Holds fun k r => (k, r) ∈ e.cache.entries ∨
      (k.fingerprint = base.resolutionFingerprint → e.compute base k.path = .ok r) := by
  -- the last path is asked of the engine that the others leave
  induction paths using List.reverseRecOn with
  | nil => exact fun entry hentry => .inl hentry
  | append_singleton paths path ih =>
    obtain ⟨cache, hcache⟩ := e.asked_frame paths
    rw [asked_concat, hcache, resolve_eq_fetch (e := { e with cache }) hstate]
    rw [hcache] at ih
    exact ih.fetch fun r hr => .inr fun _ => hr

/-- What a path resolves to after others is what it resolves to now, or what the base gives. -/
theorem resolve_asked (hnodup : e.cache.keys.Nodup) (hstate : e.state = .ready base)
    (paths : List String) (path : String) :
    ((e.asked paths).resolve path).1 = (e.resolve path).1 ∨
      ((e.asked paths).resolve path).1 = e.compute base (e.matchPath path) := by
  have hheld := holds_asked hstate paths
  obtain ⟨cache, hcache⟩ := e.asked_frame paths
  rw [hcache] at hheld ⊢
  rw [resolve_eq_fetch (e := { e with cache }) hstate]
  cases hresult : (cache.fetch ⟨e.matchPath path, base.resolutionFingerprint⟩
      fun _ => e.compute base (e.matchPath path)).1 with
  | error error => exact .inr (hresult.trans (Cache.compute_of_fetch_eq_error hresult).symm)
  | ok r =>
    -- a result that was kept before is the one that is found now, as no key has two
    rcases hheld.of_fetch (fun r hr => .inr fun _ => hr) hresult with hkept | hgiven
    · refine .inl (hresult.trans ?_)
      rw [resolve_eq_fetch hstate]
      exact (Cache.fetch_of_find? ((Cache.find?_eq_some_iff hnodup).2 hkept)).symm
    · exact .inr (hresult.trans (hgiven rfl).symm)

/-! ### Reports -/

/-- With a base every path gets an answer in its place: what it resolves to when its turn comes, or
nothing if that fails, and what it fails with is recoverable.  When its turn comes a path resolves
to what it would resolve to now, or, if a result that was kept for it has made room meanwhile, to
what the base gives; where nothing is kept but what the base gives it is what it would resolve to
now.  Without a base there is one error for all paths, if there are any. -/
theorem resolveReported_at (h : Reachable e) :
    (∀ base, e.base = .ok base →
      (∀ path error, (e.resolve path).1 = .error error → error.isRecoverable = true) ∧
      (∀ before path, ((e.asked before).resolve path).1 = (e.resolve path).1 ∨
        ((e.asked before).resolve path).1 = e.compute base (e.matchPath path)) ∧
      ∀ paths, ∃ answers, e.resolveReported paths = (.ok answers, e.asked paths) ∧
        answers.length = paths.length ∧ ∀ i path, paths[i]? = some path →
          answers[i]? = some ((e.asked (paths.take i)).resolve path).1.toOption) ∧
    (∀ base, Transparent base e → ∀ paths,
      (e.resolveReported paths).1 = .ok (paths.map fun path => (e.resolve path).1.toOption)) ∧
    ∀ reason, e.state = .broken reason → ∀ paths, paths ≠ [] →
      (e.resolveReported paths).1 = .error (e.unusable reason) := by
  refine ⟨fun base hbase => ⟨fun path error => recoverable_of_resolve hbase, ?_, ?_⟩, ?_, ?_⟩
  · exact resolve_asked h.nodup_keys (state_of_base hbase)
  · intro paths
    obtain ⟨hlast, hlength, hplaces⟩ := e.resolveMany_eq paths
    refine ⟨_, (resolveReported_eq hbase paths).trans (by rw [hlast]), ?_, fun i path hpath => ?_⟩
    · rw [List.length_map, hlength]
    · rw [List.getElem?_map, hplaces i path hpath, Option.map_some]
  · intro base htransparent paths
    rw [resolveReported_eq (base_of_ready htransparent.ready), (htransparent.resolveMany paths).1,
      List.map_map]
    exact congrArg Except.ok (List.map_congr_left fun path _ =>
      congrArg Except.toOption (htransparent.resolve_eq_compute path).symm)
  · exact fun reason hbroken paths => resolveReported_broken hbroken

/-- A path of three fails, and all of them do when the engine is broken. -/
theorem resolveReported_typed : ∃ (e : Engine) (base : Base) (broken : Engine),
    start "app" typedLibrary (.ofManifests [quotesPlugin]) {} = .ok e ∧ e.base = .ok base ∧
    (e.resolveReported ["a.js", "b.ts", "c.js"]).1 =
      .ok [(e.compute base "a.js").toOption, none, (e.compute base "c.js").toOption] ∧
    (e.compute base "a.js").isOk = true ∧ (e.compute base "c.js").isOk = true ∧
    broken.state = .broken "Cyclic inheritance: app -> app" ∧
    (broken.resolveReported ["a.js"]).1 =
      .error (broken.unusable "Cyclic inheritance: app -> app") := by
  obtain ⟨e, base, hstart, hbase, ha, -, hb, hc, hok, hok', hfails⟩ := start_typed
  obtain ⟨first, _, broken, _, _, hfirst, -, -, hbroken, hstate, -⟩ := Session.start_lone
  have hreachable : Reachable e := ⟨_, _, _, _, e, hstart, .refl⟩
  have hreachable' : Reachable broken :=
    ⟨_, _, _, _, first, hfirst, hbroken ▸ (Session.mk _ first).next_handleAll Session.knot⟩
  obtain ⟨base', htransparent⟩ := Transparent.start hstart
  obtain rfl : base = base' := Except.ok.inj (hbase.symm.trans (base_of_ready htransparent.ready))
  have hreport := (resolveReported_at hreachable).2.1 base htransparent ["a.js", "b.ts", "c.js"]
  have hreport' := (resolveReported_at hreachable').2.2 _ hstate ["a.js"] (by simp)
  refine ⟨e, base, broken, hstart, hbase, ?_, hok, hok', hstate, hreport'⟩
  rw [hreport]
  simp only [List.map_cons, List.map_nil, htransparent.resolve_eq_compute, ha, hb, hc, hfails]
  rfl

end Engine

end LintConfig
