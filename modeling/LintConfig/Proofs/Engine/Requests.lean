import LintConfig.Proofs.Engine.Transparent

/-!
# Requests between reloads

Between two reloads an engine is asked for the configurations of paths, of one path or of many at
once (`Request`).  Every answer is what the base gives for the path, a configuration or an error
(`askAll_eq_compute`): the room in the cache, the requests before and what was dropped meanwhile
make no difference.  This holds from the start of an engine on, and after every reload unless one
built the base again under a fingerprint that it already had (`Renewed`).
-/

namespace LintConfig.Engine

open Relation (ReflTransGen)

variable {e e' : Engine} {base : Base}

/-- What an engine is asked for. -/
inductive Request where
  | one (path : String)
  | many (paths : List String)

/-- The paths that a request is about, in order. -/
def Request.paths : Request → List String
  | .one path => [path]
  | .many paths => paths

/-- The answers to a request, one for each of its paths. -/
def ask (e : Engine) : Request → List (Except Error Resolved) × Engine
  | .one path =>
    let (result, e) := e.resolve path
    ([result], e)
  | .many paths => e.resolveMany paths

/-- The answers to requests that are made one after the other. -/
def askAll (e : Engine) : List Request → List (List (Except Error Resolved)) × Engine
  | [] => ([], e)
  | request :: requests =>
    let (answers, e) := e.ask request
    let (others, e) := e.askAll requests
    (answers :: others, e)

/-- What a base gives for the paths of a request. -/
def given (e : Engine) (base : Base) (request : Request) : List (Except Error Resolved) :=
  request.paths.map fun path => e.compute base (e.matchPath path)

theorem ask_eq_resolveMany (e : Engine) (request : Request) :
    e.ask request = e.resolveMany request.paths := by
  cases request <;> rfl

/-! ### Answers -/

/-- Asking for many paths changes the cache only. -/
theorem resolveMany_frame (e : Engine) (paths : List String) :
    ∃ cache, (e.resolveMany paths).2 = { e with cache } := by
  induction paths generalizing e with
  | nil => exact ⟨e.cache, rfl⟩
  | cons path paths ih =>
    obtain ⟨cache, hcache⟩ := e.resolve_frame path
    obtain ⟨cache', hcache'⟩ := ih (e.resolve path).2
    refine ⟨cache', hcache'.trans ?_⟩
    rw [hcache]

namespace Transparent

theorem resolve (h : Transparent base e) (path : String) : Transparent base (e.resolve path).2 :=
  h.keeps (.resolve path)

theorem resolveMany (h : Transparent base e) (paths : List String) :
    (e.resolveMany paths).1 = paths.map (fun path => e.compute base (e.matchPath path)) ∧
      Transparent base (e.resolveMany paths).2 := by
  induction paths generalizing e with
  | nil => exact ⟨rfl, h⟩
  | cons path paths ih =>
    obtain ⟨hanswers, hlast⟩ := ih (h.resolve path)
    refine ⟨?_, hlast⟩
    -- the rest is answered by an engine that differs in its cache only
    obtain ⟨cache, hcache⟩ := e.resolve_frame path
    rw [hcache] at hanswers
    rw [resolveMany_cons, hcache, hanswers, h.resolve_eq_compute, List.map_cons]
    rfl

theorem askAll (h : Transparent base e) (requests : List Request) :
    (e.askAll requests).1 = requests.map (e.given base) ∧
      Transparent base (e.askAll requests).2 := by
  induction requests generalizing e with
  | nil => exact ⟨rfl, h⟩
  | cons request requests ih =>
    obtain ⟨hanswers, hnext⟩ := h.resolveMany request.paths
    obtain ⟨hothers, hlast⟩ := ih hnext
    obtain ⟨cache, hcache⟩ := e.resolveMany_frame request.paths
    have hstep : e.askAll (request :: requests) =
        ((e.ask request).1 :: ((e.ask request).2.askAll requests).1,
          ((e.ask request).2.askAll requests).2) := rfl
    rw [hstep, ask_eq_resolveMany]
    refine ⟨?_, hlast⟩
    rw [hothers, hanswers, hcache, List.map_cons]
    rfl

end Transparent

/-! ### Reloads in between -/

/-- What happens to an engine in use whose reloads, when they build the base again, change its
fingerprint. -/
inductive Renewed (e : Engine) : Engine → Prop where
  | resolve (path : String) : Renewed e (e.resolve path).2
  | reload {lib : Library} {reference : String} {result : Except Error ReloadReport} {e' : Engine}
    (h : e.reload lib reference = (result, e'))
    (hchanged : ∀ report, result = .ok report → report.rebuilt = true →
      report.fingerprintChanged = true) : Renewed e e'

theorem Renewed.next (h : Renewed e e') : Next e e' := by
  cases h with
  | resolve path => exact .resolve path
  | @reload lib reference _ _ hreload =>
    obtain rfl : (e.reload lib reference).2 = e' := congrArg Prod.snd hreload
    exact .reload lib reference

/-- A step that leaves the engine with a base leaves its cache transparent. -/
theorem Renewed.transparent (h : Renewed e e') (hsound : Sound e)
    (hbefore : ∀ base, e.state = .ready base → Transparent base e)
    (hready : e'.state = .ready base) : Transparent base e' := by
  cases h with
  | resolve path =>
    obtain ⟨cache, hcache⟩ := e.resolve_frame path
    have hstate : (e.resolve path).2.state = e.state := by rw [hcache]
    exact (hbefore base (hstate.symm.trans hready)).resolve path
  | @reload lib reference result _ hreload hchanged =>
    cases result with
    | error error =>
      rcases reload_cases e lib reference rfl rfl with
        ⟨-, heq⟩ | ⟨-, _, _, -, heq⟩ | ⟨-, _, _, -, heq⟩
      · cases heq.symm.trans hreload
      · obtain ⟨-, rfl⟩ := Prod.mk.inj (heq.symm.trans hreload)
        cases hready
      · cases heq.symm.trans hreload
    | ok report =>
      cases hrebuilt : report.rebuilt with
      | true => exact .of_reload hsound hreload hrebuilt hready (hchanged report rfl hrebuilt)
      | false =>
        obtain ⟨s, rfl⟩ := reload_kept hreload hrebuilt
        exact (hbefore base hready).keeps (.reload hreload hrebuilt)

theorem transparent_of_renewed {first : Engine} (hsound : Sound first)
    (hfirst : ∀ base, first.state = .ready base → Transparent base first)
    (hrun : ReflTransGen Renewed first e) (hready : e.state = .ready base) : Transparent base e := by
  induction hrun generalizing base with
  | refl => exact hfirst base hready
  | tail hrun hlast ih =>
    have hnext := ReflTransGen.mono (fun _ _ => Renewed.next) _ _ hrun
    exact hlast.transparent (hsound.run hnext) (fun _ => ih) hready

/-- Whatever is asked of an engine that was started, and whatever its cache has room for, each
answer is what its base gives for the path, and the base stays.  The same is true of it later, for
the base that it has then, unless a reload in between has built a base under the fingerprint of the
one before. -/
theorem askAll_eq_compute {root : String} {lib : Library} {registry : Registry}
    {options : EngineOptions} (hstart : start root lib registry options = .ok e) :
    (∃ base, e.base = .ok base ∧ ∀ requests capacity, ∃ e',
      start root lib registry { options with cacheCapacity := capacity } = .ok e' ∧
      (e'.askAll requests).1 = requests.map (e.given base) ∧
      (e'.askAll requests).2.base = .ok base) ∧
    ∀ later, ReflTransGen Renewed e later → ∀ base, later.base = .ok base → ∀ requests,
      (later.askAll requests).1 = requests.map (later.given base) ∧
      (later.askAll requests).2.base = .ok base := by
  constructor
  · obtain ⟨base, s, hbuild, rfl⟩ := start_eq_ok_iff.1 hstart
    refine ⟨base, rfl, fun requests capacity => ?_⟩
    have hstart' : start root lib registry { options with cacheCapacity := capacity } = .ok _ :=
      start_eq_ok_iff.2 ⟨base, s, hbuild, rfl⟩
    obtain ⟨base', htransparent⟩ := Transparent.start hstart'
    obtain rfl : base = base' := State.ready.inj htransparent.ready
    obtain ⟨hanswers, hlast⟩ := htransparent.askAll requests
    exact ⟨_, hstart', hanswers, base_of_ready hlast.ready⟩
  · intro later hrun base hbase requests
    have hready : later.state = .ready base := state_of_base hbase
    have htransparent : Transparent base later := by
      refine transparent_of_renewed (Sound.start hstart) (fun first hfirst => ?_) hrun hready
      obtain ⟨base', htransparent⟩ := Transparent.start hstart
      obtain rfl : first = base' := State.ready.inj (hfirst.symm.trans htransparent.ready)
      exact htransparent
    obtain ⟨hanswers, hlast⟩ := htransparent.askAll requests
    exact ⟨hanswers, base_of_ready hlast.ready⟩

/-- A document with an override that turns on a rule which nobody knows. -/
def typedDocument : Document where
  rules := [("quotes", ⟨.word "error", none⟩)]
  overrides := [{ files := .one "*.ts", rules := [("no-such-rule", ⟨.word "warn", none⟩)] }]

/-- The documents of an engine for it. -/
def typedLibrary : Library := ⟨[.memory "memory" [("app", typedDocument)]], default⟩

theorem start_typed : ∃ e base,
    start "app" typedLibrary (.ofManifests [quotesPlugin]) {} = .ok e ∧ e.base = .ok base ∧
    e.matchPath "a.js" = "a.js" ∧ e.matchPath "./a.js" = "a.js" ∧ e.matchPath "b.ts" = "b.ts" ∧
    e.matchPath "c.js" = "c.js" ∧
    (e.compute base "a.js").isOk = true ∧ (e.compute base "c.js").isOk = true ∧
    e.compute base "b.ts" = .error (.unknownRule "no-such-rule" "no built-in rule with this name") :=
  ⟨_, _, by rfl, by rfl, by decide +kernel, by decide +kernel, by decide +kernel,
    by decide +kernel, by rfl, by rfl, by rfl⟩

/-- A path that fails is asked for again, and one that was dropped from a cache with room for one
result, under two spellings. -/
theorem askAll_typedDocument : ∃ e base small,
    start "app" typedLibrary (.ofManifests [quotesPlugin]) {} = .ok e ∧
    start "app" typedLibrary (.ofManifests [quotesPlugin]) { cacheCapacity := 0 } = .ok small ∧
    (small.askAll [.many ["a.js", "b.ts", "c.js"], .one "b.ts", .one "./a.js"]).1 =
      [[e.compute base "a.js", .error (.unknownRule "no-such-rule"
          "no built-in rule with this name"), e.compute base "c.js"],
        [.error (.unknownRule "no-such-rule" "no built-in rule with this name")],
        [e.compute base "a.js"]] ∧
    (e.compute base "a.js").isOk = true ∧ (e.compute base "c.js").isOk = true := by
  obtain ⟨e, base, hstart, hbase, ha, hdot, hb, hc, hok, hok', hfails⟩ := start_typed
  obtain ⟨⟨base', hbase', hanswers⟩, -⟩ := askAll_eq_compute hstart
  obtain rfl : base = base' := Except.ok.inj (hbase.symm.trans hbase')
  obtain ⟨small, hsmall, hsame, -⟩ :=
    hanswers [.many ["a.js", "b.ts", "c.js"], .one "b.ts", .one "./a.js"] 0
  refine ⟨e, base, small, hstart, hsmall, hsame.trans ?_, hok, hok'⟩
  simp only [given, Request.paths, List.map_cons, List.map_nil, ha, hdot, hb, hc, hfails]

end LintConfig.Engine
