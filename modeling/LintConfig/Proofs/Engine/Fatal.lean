import LintConfig.Proofs.Base.Diamond
import LintConfig.Proofs.Engine.Noticing
import LintConfig.Proofs.Glob.PatternSet

/-!
# Fatal errors

Loading a chain fails with errors after which nothing can be resolved, and says so: none of them is
recoverable (`Store.fatal_load`).  Merging a chain fails with a malformed pattern of ignored paths,
which counts as recoverable by its kind, although no path can be resolved after it either.
`Engine.recoverable_of_build` says that there is no other way for an engine to fail recoverably when
it is started or reloaded.
-/

namespace LintConfig

/-! ### Attempts that fail fatally -/

/-- No error of an attempt is recoverable. -/
def Fatal {α : Type} (x : Except Error α) : Prop :=
  ∀ error, x = .error error → error.isRecoverable = false

section Generic

variable {α β : Type}

theorem fatal_ok (a : α) : Fatal (.ok a : Except Error α) := by
  intro error h
  cases h

theorem fatal_error_iff {error : Error} :
    Fatal (.error error : Except Error α) ↔ error.isRecoverable = false := by
  refine ⟨fun h => h error rfl, fun h error' heq => ?_⟩
  obtain rfl := Except.error.inj heq
  exact h

theorem Fatal.bind {x : Except Error α} {f : α → Except Error β} (hx : Fatal x)
    (hf : ∀ a, Fatal (f a)) : Fatal (x.bind f) := by
  cases x with
  | error error => exact fatal_error_iff.2 (fatal_error_iff.1 hx)
  | ok a => exact hf a

/-- An error that is passed on is as fatal as it was. -/
theorem Fatal.cast {x : Except Error α} {error : Error} (hx : Fatal x) (h : x = .error error) :
    Fatal (.error error : Except Error β) :=
  fatal_error_iff.2 (hx error h)

end Generic

/-! ### Reading -/

@[simp] theorem Error.isRecoverable_parseDetail (identity detail : String) :
    (Error.parseDetail identity detail).isRecoverable = false := rfl

namespace Notation

variable {α : Type} (decoder : Decode.Decoder α) (path text : String)

theorem fatal_relaxed : Fatal (relaxed path text) := by
  unfold relaxed
  split
  · exact fatal_ok _
  · rw [fatal_error_iff]
    split <;> rfl

theorem fatal_decodeJson (j : Json) : Fatal (decodeJson decoder path j) := by
  unfold decodeJson
  cases decoder (.ofJson j) with
  | error fault => exact fatal_error_iff.2 rfl
  | ok a => exact fatal_ok a

theorem fatal_readJson : Fatal (readJson decoder path text) := by
  unfold readJson
  split
  · exact fatal_ok _
  · exact (fatal_relaxed path text).bind (fatal_decodeJson decoder path)

theorem fatal_readNode (node : Option Node) : Fatal (readNode decoder path node) := by
  unfold readNode
  split
  · exact fatal_ok _
  · exact fatal_error_iff.2 rfl

theorem fatal_read (decode : Decode.Shape → Decode.Decoder α) : Fatal (read decode path text) := by
  unfold read
  cases ofPath path with
  | json => exact fatal_readJson _ path text
  | yaml => exact fatal_readNode _ path _
  | toml => exact fatal_readNode _ path _

theorem fatal_readValue : Fatal (readValue path text) := by
  unfold readValue
  split
  · exact fatal_ok _
  · exact fatal_relaxed path text

end Notation

theorem Document.fatal_ofText (path text : String) : Fatal (Document.ofText path text) := by
  unfold Document.ofText
  split
  · refine (Notation.fatal_readValue path text).bind fun j => ?_
    split
    · exact Notation.fatal_decodeJson _ path _
    · exact fatal_error_iff.2 rfl
  · exact Notation.fatal_read path text Document.decode

theorem Source.fatal_read (files : Files.Tree) (s : Source) (id : String) :
    Fatal (s.read files id) := by
  cases s with
  | memory name documents =>
    rw [Source.read]
    split
    · exact fatal_ok _
    · exact fatal_error_iff.2 rfl
  | directory base =>
    rw [Source.read]
    split
    · exact Document.fatal_ofText id _
    · exact fatal_error_iff.2 rfl

namespace Library

theorem fatal_locate (lib : Library) (reference : String) (referrer : Option String) :
    Fatal (lib.locate reference referrer) := by
  unfold locate
  split
  · exact fatal_ok _
  · exact fatal_error_iff.2 rfl

theorem fatal_read (lib : Library) (id : String) : Fatal (lib.read id) := by
  unfold read
  split
  · exact Source.fatal_read lib.files _ id
  · exact fatal_error_iff.2 rfl

end Library

/-! ### Loading -/

namespace Store

variable (lib : Library)

theorem fatal_fetch (s : Store) (id : String) : Fatal (fetch lib s id).1 := by
  unfold fetch
  split
  · exact fatal_ok _
  · split
    · next h => exact (lib.fatal_read id).cast h
    · exact fatal_ok _

/-- The bases of a fragment fail fatally if each of them does. -/
theorem fatal_loadBases {visit : String → Store → Except Error (List Fragment) × Store}
    (hvisit : ∀ base s, Fatal (visit base s).1) (id : String) (references : List String)
    (s : Store) : Fatal (loadBases lib visit id references s).1 := by
  induction references generalizing s with
  | nil => exact fatal_ok _
  | cons reference references ih =>
    rw [loadBases]
    split
    · next h => exact (lib.fatal_locate reference (some id)).cast h
    · split
      · next h => exact (hvisit _ _).cast (congrArg Prod.fst h)
      · split
        · next h => exact (ih _).cast (congrArg Prod.fst h)
        · exact fatal_ok _

theorem fatal_loadFrom (fuel : Nat) (loading : List String) (id : String) (s : Store) :
    Fatal (loadFrom lib fuel loading id s).1 := by
  induction fuel generalizing loading id s with
  | zero => exact fatal_error_iff.2 rfl
  | succ fuel ih =>
    have hbases := fatal_loadBases lib fun base s => ih (loading ++ [id]) base s
    rw [loadFrom]
    split_ifs
    · exact fatal_error_iff.2 rfl
    · split
      · next h => exact (fatal_fetch lib s id).cast (congrArg Prod.fst h)
      · split
        · next h => exact (hbases id _ _).cast (congrArg Prod.fst h)
        · exact fatal_ok _

/-- Whatever goes wrong while a reference is loaded is fatal. -/
theorem fatal_load (s : Store) (reference : String) : Fatal (load lib s reference).1 := by
  unfold load
  split
  · next h => exact (lib.fatal_locate reference none).cast h
  · split
    · next h => exact (fatal_loadFrom lib _ [] _ s).cast (congrArg Prod.fst h)
    · exact fatal_ok _

end Store

/-! ### Merging -/

/-- The error of the first malformed pattern of ignored paths of a fragment. -/
def Fragment.ignoreProblem? (f : Fragment) : Option Error :=
  (f.document.ignorePatterns.findSome? Pattern.problem?).map fun m => m.error (some f.id)

/-- The error of the first malformed pattern of ignored paths of a chain. -/
def Chain.ignoreProblem? (c : Chain) : Option Error := c.fragments.findSome? Fragment.ignoreProblem?

theorem Fragment.isRecoverable_of_ignoreProblem? {f : Fragment} {error : Error}
    (h : f.ignoreProblem? = some error) : error.isRecoverable = true := by
  obtain ⟨m, -, rfl⟩ := Option.map_eq_some_iff.1 h
  rfl

theorem Chain.isRecoverable_of_ignoreProblem? {c : Chain} {error : Error}
    (h : c.ignoreProblem? = some error) : error.isRecoverable = true := by
  obtain ⟨f, -, hf⟩ := List.exists_of_findSome?_eq_some h
  exact Fragment.isRecoverable_of_ignoreProblem? hf

theorem Fragment.ignorePatterns_eq_error_iff {f : Fragment} {error : Error} :
    f.ignorePatterns = .error error ↔ f.ignoreProblem? = some error := by
  simp only [Fragment.ignoreProblem?, Option.map_eq_some_iff, ← PatternSet.compile_eq_error_iff]
  unfold Fragment.ignorePatterns
  cases PatternSet.compile f.document.ignorePatterns <;> simp [Except.mapError]

namespace Base

theorem ignorePatternsOf_eq_error_iff {fs : List Fragment} {error : Error} :
    ignorePatternsOf fs = .error error ↔ fs.findSome? Fragment.ignoreProblem? = some error := by
  induction fs with
  | nil => simp [ignorePatternsOf]
  | cons f fs ih =>
    rw [ignorePatternsOf_cons, List.findSome?_cons]
    cases hf : f.ignorePatterns with
    | error error' =>
      rw [Fragment.ignorePatterns_eq_error_iff.1 hf]
      simp [Except.bind]
    | ok ps =>
      have hnone : f.ignoreProblem? = none := by
        refine Option.eq_none_iff_forall_ne_some.2 fun error' h => ?_
        rw [Fragment.ignorePatterns_eq_error_iff.2 h] at hf
        cases hf
      rw [hnone, ← ih]
      cases ignorePatternsOf fs <;> simp [Except.bind, Except.map]

/-- Merging fails with the first malformed pattern of ignored paths, and with nothing else. -/
theorem ofChain_eq_error_iff {deep : Names} {c : Chain} {error : Error} :
    ofChain deep c = .error error ↔ c.ignoreProblem? = some error := by
  rw [Chain.ignoreProblem?, ← ignorePatternsOf_eq_error_iff]
  unfold ofChain
  cases ignorePatternsOf c.fragments <;> simp [bind, Except.bind, pure, Except.pure]

end Base

/-! ### Starting and reloading -/

namespace Engine

/-- Building fails recoverably with the first malformed pattern of ignored paths of a chain that
was loaded, and in no other way. -/
theorem recoverable_of_build {registry : Registry} {options : EngineOptions} {lib : Library}
    {s : Store} {root : String} {error : Error} :
    ((build registry options lib s root).1 = .error error ∧ error.isRecoverable = true) ↔
      ∃ c, (s.load (withPresets registry lib) root).1 = .ok c ∧
        c.ignoreProblem? = some error := by
  have hfatal := Store.fatal_load (withPresets registry lib) s root
  unfold build
  simp only
  cases hload : (s.load (withPresets registry lib) root).1 with
  | error error' =>
    have herror' := hfatal error' hload
    simp only [Except.bind, Except.error.injEq]
    constructor
    · rintro ⟨rfl, hrecoverable⟩
      simp [herror'] at hrecoverable
    · rintro ⟨c, hc, -⟩
      cases hc
  | ok c =>
    simp only [Except.bind, Base.ofChain_eq_error_iff, Except.ok.injEq, exists_eq_left']
    exact and_iff_left_of_imp Chain.isRecoverable_of_ignoreProblem?

/-- The error of every path after a reload that failed. -/
def reloadFailure (root : String) (error : Error) : Error :=
  .unusable ("configuration '" ++ root ++ "' failed to reload: " ++ error.message)

/-- A failed reload failed to build the base, and leaves an engine on which no path resolves. -/
theorem failure_of_reload {e e' : Engine} {lib : Library} {reference : String} {error : Error}
    (h : e.reload lib reference = (.error error, e')) :
    (build e.registry e.options lib (invalidateAll e.store (e.reloadTargets lib reference)).2
      e.root).1 = .error error ∧
    ∀ path, (e'.resolve path).1 = .error (reloadFailure e.root error) := by
  rcases reload_cases e lib reference rfl rfl with
    ⟨-, hcase⟩ | ⟨-, error', s', hbuild, hcase⟩ | ⟨-, base, s', -, hcase⟩ <;> rw [hcase] at h
  · cases h
  · obtain ⟨herror, rfl⟩ := Prod.mk.inj h
    obtain rfl := Except.error.inj herror
    exact ⟨congrArg Prod.fst hbuild, fun path => rfl⟩
  · cases h

/-- Starting and reloading fail fatally, except with the first malformed pattern of ignored paths of
a chain that was loaded: that error counts as recoverable.  After a reload that failed with any
error no path resolves. -/
theorem recoverable_iff_ignoreProblem (lib : Library) (error : Error) (root : String)
    (registry : Registry) (options : EngineOptions) (e : Engine) (reference : String) :
    ((start root lib registry options = .error error ∧ error.isRecoverable = true) ↔
      ∃ c, (Store.load (withPresets registry lib) {} root).1 = .ok c ∧
        c.ignoreProblem? = some error) ∧
    ∀ e', e.reload lib reference = (.error error, e') →
      (error.isRecoverable = true ↔
        ∃ c, (Store.load (withPresets e.registry lib)
            (invalidateAll e.store (e.reloadTargets lib reference)).2 e.root).1 = .ok c ∧
          c.ignoreProblem? = some error) ∧
      ∀ path, (e'.resolve path).1 = .error (reloadFailure e.root error) := by
  constructor
  · rw [start_eq_error_iff, recoverable_of_build]
  · intro e' hreload
    obtain ⟨hbuild, hresolve⟩ := failure_of_reload hreload
    refine ⟨?_, hresolve⟩
    rw [← recoverable_of_build, and_iff_right hbuild]

/-- A document that ignores no paths, since its pattern is malformed. -/
def oopsDocument : Document where
  ignorePatterns := ["[oops"]

/-- The error of its pattern. -/
def oopsError : Error := .malformedPattern "[oops" (some "app") "invalid range pattern"

theorem start_oops :
    start "app" (appLibrary oopsDocument) (.ofManifests [quotesPlugin]) {} = .error oopsError := by
  rfl

theorem reload_oops : ∃ e', (appEngine (nodeDocument true)).reload (appLibrary oopsDocument) "app" =
    (.error oopsError, e') :=
  ⟨_, by rfl⟩

theorem recoverable_iff_ignoreProblem_oops :
    (∃ c, (Store.load (withPresets (.ofManifests [quotesPlugin]) (appLibrary oopsDocument))
        {} "app").1 = .ok c ∧
      c.ignoreProblem? = some oopsError) ∧
    ∃ e', (appEngine (nodeDocument true)).reload (appLibrary oopsDocument) "app" =
        (.error oopsError, e') ∧
      (∃ c, (Store.load (withPresets (.ofManifests [quotesPlugin]) (appLibrary oopsDocument))
          (invalidateAll (appEngine (nodeDocument true)).store
            ((appEngine (nodeDocument true)).reloadTargets (appLibrary oopsDocument) "app")).2
          "app").1 = .ok c ∧
        c.ignoreProblem? = some oopsError) ∧
      ∀ path, (e'.resolve path).1 = .error (reloadFailure "app" oopsError) := by
  obtain ⟨hstart, hreload⟩ := recoverable_iff_ignoreProblem (appLibrary oopsDocument) oopsError "app"
    (.ofManifests [quotesPlugin]) {} (appEngine (nodeDocument true)) "app"
  obtain ⟨e', h⟩ := reload_oops
  obtain ⟨hrecoverable, hresolve⟩ := hreload e' h
  exact ⟨hstart.1 ⟨start_oops, rfl⟩, e', h, hrecoverable.1 rfl, hresolve⟩

/-- A malformed pattern of ignored paths keeps an engine from being started, and leaves nothing that
resolves if it is met by a reload, but its error counts as recoverable. -/
theorem recoverable_oops : ∃ error : Error, error.isRecoverable = true ∧
    (∃ root lib registry options, start root lib registry options = .error error) ∧
    ∃ e e' lib reference, Reachable e ∧ e.reload lib reference = (.error error, e') ∧
      ∀ path, (e'.resolve path).1 = .error (reloadFailure e.root error) := by
  obtain ⟨e', hreload⟩ := reload_oops
  exact ⟨oopsError, rfl, ⟨_, _, _, _, start_oops⟩, _, e', _, _, reachable_app [] [("node", true)],
    hreload, (failure_of_reload hreload).2⟩

end Engine

end LintConfig
