import LintConfig.Proofs.Base.Fingerprint
import LintConfig.Proofs.Engine.Transparent

/-!
# Reloads that are noticed

The cache is told by a fingerprint whether a reload changed anything.  Content that shows in the
canonical text of a configuration is never overlooked: if it differs for some path then the reload
says so, and the cache gives what the new base gives (`Engine.reload_noticed`).  The order of keys
does not show there, and what the cache keeps outlives a reload that changed nothing else
(`Engine.resolve_after_unnoticed`).
-/

namespace LintConfig.Engine

open Relation (ReflTransGen)

variable {e e' : Engine} {old new base : Base} {lib : Library} {reference path : String}
  {report : ReloadReport} {r r' : Resolved}

/-! ### What is noticed -/

theorem fingerprintChanged_eq_false_iff (h : e.reload lib reference = (.ok report, e'))
    (hrebuilt : report.rebuilt = true) (hold : e.state = .ready old) (hnew : e'.state = .ready new) :
    report.fingerprintChanged = false ↔
      old.resolutionFingerprint = new.resolutionFingerprint := by
  obtain ⟨base, s, s', -, hchanged, -, rfl⟩ := reload_rebuilt h hrebuilt
  obtain rfl : base = new := State.ready.inj hnew
  simp [hchanged, base?, hold]

/-- A reload that changes the canonical text of the configuration of some path says that the
fingerprint changed.  Until the base is built again the path resolves to what the new base gives,
and whenever later the base gives another text than the old one did, nothing resolves to what the
old one gave.  This is so where the digest tells apart what is hashed for the bases. -/
theorem reload_noticed (hreachable : Reachable e) (hold : e.state = .ready old)
    (hreload : e.reload lib reference = (.ok report, e')) (hrebuilt : report.rebuilt = true) :
    ∃ new, e'.state = .ready new ∧
      (∃ c, Base.ofChain (deepKeys e.options) c = .ok old) ∧
      (∃ c, Base.ofChain (deepKeys e.options) c = .ok new) ∧
      ∀ c c', Base.ofChain (deepKeys e.options) c = .ok old →
        Base.ofChain (deepKeys e.options) c' = .ok new →
        Chain.ToldApart (deepKeys e.options) c c' →
        ∀ path r r', e.compute old path = .ok r → e.compute new path = .ok r' → ¬ r.Alike r' →
          report.fingerprintChanged = true ∧
          (∀ later, ReflTransGen Keeps e' later → ∀ p, later.matchPath p = path →
            (later.resolve p).1 = .ok r') ∧
          (∀ later, ReflTransGen Next e' later → ∀ base d, later.state = .ready base →
            Base.ofChain (deepKeys e.options) d = .ok base →
            Chain.ToldApart (deepKeys e.options) c d →
            ∀ s, later.compute base path = .ok s → ¬ r.Alike s →
              ∀ p, (later.resolve p).1 ≠ .ok r) := by
  have hsound := hreachable.sound
  have hnext : Next e e' := by
    obtain rfl : (e.reload lib reference).2 = e' := congrArg Prod.snd hreload
    exact .reload lib reference
  obtain ⟨new, hnew⟩ : ∃ new, e'.state = .ready new := by
    obtain ⟨new, _, _, -, -, -, rfl⟩ := reload_rebuilt hreload hrebuilt
    exact ⟨new, rfl⟩
  have hmerged := (hsound.next hnext).merged new hnew
  rw [hnext.inputs.2] at hmerged
  refine ⟨new, hnew, hsound.merged old hold, hmerged, ?_⟩
  intro c c' hc hc' hdigest path r r' hr hr' hdiffer
  -- one fingerprint would mean one text for every path
  have htold {b : Base} {d : Chain} (hd : Base.ofChain (deepKeys e.options) d = .ok b)
      (hdigest : Chain.ToldApart (deepKeys e.options) c d) {s : Resolved}
      (hs : e.compute b path = .ok s) (hdiffer : ¬ r.Alike s) :
      old.resolutionFingerprint ≠ b.resolutionFingerprint := fun heq =>
    hdiffer (compute_alike hc hd ((Base.resolutionFingerprint_eq_iff hc hd hdigest).1 heq) hr hs)
  have hchanged : report.fingerprintChanged = true := by
    rw [← Bool.not_eq_false, fingerprintChanged_eq_false_iff hreload hrebuilt hold hnew]
    exact htold hc' hdigest hr' hdiffer
  refine ⟨hchanged, ?_, ?_⟩
  · intro later hkeeps p hp
    have htransparent := Transparent.of_reload hsound hreload hrebuilt hnew hchanged
    have hinputs := inputs_of_next (.head hnext (ReflTransGen.mono (fun _ _ => Keeps.next) _ _ hkeeps))
    rw [(htransparent.run hkeeps).resolve_eq_compute, hp, compute_congr hinputs, hr']
  · intro later hrun base d hbase hd hdigest s hs hdiffer p hp
    have hinputs := inputs_of_next (.head hnext hrun)
    rw [compute_congr hinputs] at hs
    have hfingerprint := (hsound.run (.head hnext hrun)).fingerprint_of_resolve hbase hp
    exact htold hd hdigest hs hdiffer ((fingerprint_of_compute hr).symm.trans hfingerprint)

/-- A document without bases. -/
def appDocument (rules : RuleMap) (env : Table Bool) : Document where
  rules := rules
  env := env

/-- One document, in memory. -/
def appLibrary (d : Document) : Library := ⟨[.memory "memory" [("app", d)]], default⟩

/-- The chain of a document without bases. -/
def appChain (d : Document) : Chain := ⟨"app", [.ofDocument "app" d]⟩

/-- The base of a document without bases. -/
def appBase (d : Document) : Base := (Base.ofChain [] (appChain d)).toOption.getD default

/-- The engine that is started for a document without bases. -/
def appEngine (d : Document) : Engine where
  root := "app"
  registry := .ofManifests [quotesPlugin]
  options := {}
  store := Store.keep {} (.ofDocument "app" d)
  state := .ready (appBase d)
  cache := .ofCapacity Cache.defaultCapacity

section App

variable (rules rules' : RuleMap) (env env' : Table Bool)

theorem ofChain_app : Base.ofChain [] (appChain (appDocument rules env)) =
    .ok (appBase (appDocument rules env)) := by
  rfl

theorem reachable_app : Reachable (appEngine (appDocument rules env)) :=
  ⟨"app", appLibrary (appDocument rules env), .ofManifests [quotesPlugin], {}, _, by rfl, .refl⟩

/-- Reloading the document builds the base of what it has become, whatever the cache keeps. -/
theorem reload_app (cache : Cache Resolved) :
    reload { appEngine (appDocument rules env) with cache }
        (appLibrary (appDocument rules' env')) "app" =
      (.ok ⟨["app"], true, (appBase (appDocument rules env)).resolutionFingerprint !=
          (appBase (appDocument rules' env')).resolutionFingerprint,
          (cache.purge (appBase (appDocument rules' env')).resolutionFingerprint).1⟩,
        { appEngine (appDocument rules' env') with
          cache := (cache.purge (appBase (appDocument rules' env')).resolutionFingerprint).2 }) := by
  rfl

end App

/-- A document that switches one environment on or off. -/
def nodeDocument (on : Bool) : Document := appDocument [] [("node", on)]

theorem canonical_nodeDocument (on : Bool) :
    (Fragment.ofDocument "app" (nodeDocument on)).document.toJson.canonical =
      "\x7b\"env\":\x7b\"node\":" ++ toString on ++ "\x7d\x7d" := by
  have hjson : (Fragment.ofDocument "app" (nodeDocument on)).document.toJson =
      .obj [("env", .obj [("node", .bool on)])] := by rfl
  rw [hjson, Json.canonical]
  simp only [Json.canonicalChars, Json.canonicalMembers, Json.sortEntries, List.mergeSort_singleton]
  cases on <;> decide +kernel

theorem toldApart_nodeDocument :
    Chain.ToldApart [] (appChain (nodeDocument true)) (appChain (nodeDocument false)) := by
  refine Sha256.collisionFree_of_nodup ?_
  unfold Chain.hashed appChain Chain.resolutionParts Chain.fingerprintParts Fingerprint.message
    Base.fingerprintOf Fingerprint.combine Fragment.fingerprint Document.fingerprint Fingerprint.of
    Fingerprint.framed
  simp only [Fingerprint.bytesOf_eq, List.map_cons, List.map_nil, canonical_nodeDocument]
  decide +kernel

theorem reload_noticed_node : ∃ report e' r r',
    (appEngine (nodeDocument true)).reload (appLibrary (nodeDocument false)) "app" =
      (.ok report, e') ∧
    (appEngine (nodeDocument true)).compute (appBase (nodeDocument true)) "a.js" = .ok r ∧
    ¬ r.Alike r' ∧ report.fingerprintChanged = true ∧ (e'.resolve "a.js").1 = .ok r' := by
  have henv (on : Bool) : ∃ r, (appEngine (nodeDocument true)).compute (appBase (nodeDocument on))
      "a.js" = .ok r ∧ r.env = [("node", on)] := ⟨_, by rfl, by rfl⟩
  obtain ⟨r, hr, hon⟩ := henv true
  obtain ⟨r', hr', hoff⟩ := henv false
  have hdiffer : ¬ r.Alike r' := by
    intro halike
    have hnode := halike.env.get?_inj Function.injective_id "node"
    rw [hon, hoff] at hnode
    exact absurd hnode (by decide)
  have hreload := reload_app [] [] [("node", true)] [("node", false)]
    (.ofCapacity Cache.defaultCapacity)
  obtain ⟨new, hnew, -, -, hnoticed⟩ :=
    reload_noticed (reachable_app [] [("node", true)]) rfl hreload rfl
  obtain rfl : appBase (nodeDocument false) = new := State.ready.inj hnew
  obtain ⟨hchanged, hresolve, -⟩ := hnoticed (appChain (nodeDocument true))
    (appChain (nodeDocument false)) (ofChain_app _ _) (ofChain_app _ _) toldApart_nodeDocument
    "a.js" r r' hr hr' hdiffer
  have hpath : (appEngine (nodeDocument false)).matchPath "a.js" = "a.js" := by decide +kernel
  exact ⟨_, _, r, r', hreload, hr, hdiffer, hchanged, hresolve _ .refl "a.js" hpath⟩

/-! ### What is not noticed -/

theorem resolve_of_find? {b : Base} (hstate : e.state = .ready b)
    (h : e.cache.find? ⟨e.matchPath path, b.resolutionFingerprint⟩ = some r) :
    (e.resolve path).1 = .ok r := by
  rw [resolve_eq_fetch hstate]
  exact Cache.fetch_of_find? h

/-- A reload that does not change the fingerprint keeps what a path has resolved to. -/
theorem resolve_after_unnoticed {e'' : Engine} (hold : e.state = .ready old)
    (hresolve : e.resolve path = (.ok r, e')) (hreload : e'.reload lib reference = (.ok report, e''))
    (hsame : report.fingerprintChanged = false) : (e''.resolve path).1 = .ok r := by
  rw [resolve_eq_fetch hold] at hresolve
  obtain ⟨hr, rfl⟩ := Prod.mk.inj hresolve
  have hkept := Cache.find?_fetch hr
  cases hrebuilt : report.rebuilt with
  | false =>
    obtain ⟨s, rfl⟩ := reload_kept hreload hrebuilt
    exact resolve_of_find? hold hkept
  | true =>
    obtain ⟨new, s, s', -, hchanged, -, rfl⟩ := reload_rebuilt hreload hrebuilt
    have hlive : old.resolutionFingerprint = new.resolutionFingerprint := by
      simpa [base?, hold, hsame] using hchanged
    refine resolve_of_find? (b := new) rfl ?_
    rw [← hlive]
    exact (Cache.find?_purge _ rfl).trans hkept

/-- Two rules. -/
def quotesFirst : RuleMap := [("quotes", ⟨.word "error", none⟩), ("semi", ⟨.word "warn", none⟩)]

/-- The two rules in the other order. -/
def semiFirst : RuleMap := [("semi", ⟨.word "warn", none⟩), ("quotes", ⟨.word "error", none⟩)]

theorem canonical_swap : (Fragment.ofDocument "app" (appDocument quotesFirst [])).canonical =
    (Fragment.ofDocument "app" (appDocument semiFirst [])).canonical := by
  have hrules : Table.Alike RuleEntry.canonical quotesFirst semiFirst :=
    .of_perm _ (.swap _ _ _) (by decide)
  have htext := RuleMap.canonical_toJson_iff.2 hrules
  have hquotes : (Fragment.ofDocument "app" (appDocument quotesFirst [])).document.toJson =
      .obj [("rules", RuleMap.toJson quotesFirst)] := by rfl
  have hsemi : (Fragment.ofDocument "app" (appDocument semiFirst [])).document.toJson =
      .obj [("rules", RuleMap.toJson semiFirst)] := by rfl
  rw [Fragment.canonical, Fragment.canonical, hquotes, hsemi, Json.canonical_obj_iff]
  intro k
  by_cases hk : "rules" = k <;> simp [Table.values_cons, Table.values_nil, hk, htext]

theorem resolutionFingerprint_swap :
    (appBase (appDocument quotesFirst [])).resolutionFingerprint =
      (appBase (appDocument semiFirst [])).resolutionFingerprint := by
  have hcanonical : (appChain (appDocument quotesFirst [])).fragments.map Fragment.canonical =
      (appChain (appDocument semiFirst [])).fragments.map Fragment.canonical :=
    congrArg (fun cs => [cs]) canonical_swap
  rw [Base.resolutionFingerprint_ofChain (ofChain_app quotesFirst []),
    Base.resolutionFingerprint_ofChain (ofChain_app semiFirst [])]
  exact congrArg Fingerprint.combine (Chain.resolutionParts_eq hcanonical)

theorem compute_swap : ∃ r r',
    (appEngine (appDocument quotesFirst [])).compute (appBase (appDocument quotesFirst [])) "a.js" =
      .ok r ∧
    (appEngine (appDocument quotesFirst [])).compute (appBase (appDocument semiFirst [])) "a.js" =
      .ok r' ∧
    r.withoutFingerprint.toJson.pretty ≠ r'.withoutFingerprint.toJson.pretty :=
  ⟨_, _, by rfl, by rfl, by decide +kernel⟩

/-- Swapping two rules goes unnoticed, and the path still resolves to the rules in the old order. -/
theorem reload_unnoticed_swap : ∃ e e' report old new r r', Reachable e ∧
    e.state = .ready old ∧
    e.reload (appLibrary (appDocument semiFirst [])) "app" = (.ok report, e') ∧
    report.rebuilt = true ∧ e'.state = .ready new ∧
    e.compute old "a.js" = .ok r ∧ e.compute new "a.js" = .ok r' ∧
    r.withoutFingerprint.toJson.pretty ≠ r'.withoutFingerprint.toJson.pretty ∧
    report.fingerprintChanged = false ∧ (e'.resolve "a.js").1 = .ok r := by
  obtain ⟨r, r', hr, hr', hdiffer⟩ := compute_swap
  set e := appEngine (appDocument quotesFirst []) with he
  have hpath : e.matchPath "a.js" = "a.js" := by decide +kernel
  obtain ⟨cache, hcache⟩ := e.resolve_frame "a.js"
  have hresolve : e.resolve "a.js" = (.ok r, { e with cache }) := by
    refine Prod.ext ?_ hcache
    rw [Transparent.resolve_eq_compute ⟨rfl, .ofCapacity _⟩, hpath, hr]
  have hreachable := (reachable_app quotesFirst []).next (.resolve "a.js")
  rw [← he, hcache] at hreachable
  have hreload := reload_app quotesFirst semiFirst [] [] cache
  have hsame := bne_eq_false_iff_eq.2 resolutionFingerprint_swap
  exact ⟨_, _, _, _, _, r, r', hreachable, rfl, hreload, rfl, rfl, hr, hr', hdiffer, hsame,
    resolve_after_unnoticed rfl hresolve hreload hsame⟩

end LintConfig.Engine
