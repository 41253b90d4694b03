import LintConfig.Proofs.Store.Journal
import LintConfig.Proofs.Store.UpToDate

/-!
# Loaders

A loader is a store together with the library that it reads.  References are loaded, fragments are
dropped and documents change, in any order (`Loader.Step`).  When every name that was changed was
dropped afterwards, a loader gives what a fresh one gives; and as long as a fragment is not dropped
its document is read once at most, so it is the same in every chain (`Loader.run_load_eq_fresh`).
-/

namespace LintConfig

/-- A store, and the library that it reads. -/
structure Loader where
  lib : Library
  store : Store := {}

namespace Loader

/-- Loads a reference with everything it extends; what was read stays in the store. -/
def load (l : Loader) (reference : String) : Except Error Chain × Loader :=
  let (result, store) := l.store.load l.lib reference
  (result, { l with store })

/-- Loads a reference into a journal without notes. -/
def journal (l : Loader) (reference : String) : Except Error Chain × Journal :=
  Journal.load l.lib { store := l.store } reference

/-! ### Steps -/

/-- What happens to a loader, or to the documents that it reads. -/
inductive Step where
  | load (reference : String)
  | invalidate (id : String)
  /-- Inserts or replaces a document of one of the sources in memory. -/
  | insert (source : Nat) (name : String) (document : Document)
  | remove (source : Nat) (name : String)

/-- The name whose document a step changes. -/
def Step.changed? : Step → Option String
  | .load _ => none
  | .invalidate _ => none
  | .insert _ name _ => some name
  | .remove _ name => some name

/-- Every name that is changed is invalidated later. -/
def Settled (steps : List Step) : Prop := SettledBy Step.changed? Step.invalidate steps

/-- What a loader is after a step. -/
def step (l : Loader) : Step → Loader
  | .load reference => (l.load reference).2
  | .invalidate id => { l with store := (l.store.invalidate id).2 }
  | .insert source name document => { l with lib := l.lib.insert source name document }
  | .remove source name => { l with lib := l.lib.remove source name }

/-- What a loader is after steps. -/
def run (l : Loader) (steps : List Step) : Loader := steps.foldl step l

/-- What steps give one after the other, by what each of them gives. -/
def along {α : Type} (given : Loader → Step → List α) (l : Loader) : List Step → List α
  | [] => []
  | x :: steps => given l x ++ along given (l.step x) steps

/-- The chain that a step gives, if it loads one. -/
def chains (l : Loader) : Step → List Chain
  | .load reference => (l.load reference).1.toOption.toList
  | _ => []

/-- The identities whose documents a step reads, in order. -/
def reads (l : Loader) : Step → List String
  | .load reference => (l.journal reference).2.reads
  | _ => []

/-- The identities of the fragments that a step drops. -/
def dropped (l : Loader) : Step → List String
  | .invalidate id => (l.store.invalidate id).1
  | _ => []

variable {l : Loader} {stale : Set String} {id : String} {f : Fragment}

theorem grown_load (h : l.lib.InMemory) (reference : String) :
    Store.Grown l.lib l.store (l.load reference).2.store := by
  obtain ⟨_, s, hload, -, hgrown⟩ := Store.load_walk h l.store reference
  obtain rfl : (l.store.load l.lib reference).2 = s := congrArg Prod.snd hload
  exact hgrown

/-! ### Up-to-date loaders -/

/-- A loader in memory whose store has what the documents say, stale names aside. -/
structure Faithful (stale : Set String) (l : Loader) : Prop where
  memory : l.lib.InMemory
  store : l.store.UpToDate l.lib.catalog stale

namespace Faithful

theorem fresh {lib : Library} (h : lib.InMemory) : Faithful ∅ { lib } := ⟨h, .empty lib.catalog ∅⟩

/-- A change under one name makes that name stale. -/
theorem change (h : Faithful stale l) {lib : Library} (hlib : lib.InMemory) {name : String}
    (hdocument : ∀ id, id ≠ name → lib.document? id = l.lib.document? id) :
    Faithful (insert name stale) { l with lib } :=
  ⟨hlib, h.store.change fun id hid => by simp only [Library.catalog, hdocument id hid]⟩

/-- The names that are stale after a step. -/
def staleAfter (stale : Set String) : Step → Set String
  | .load _ => stale
  | .invalidate id => stale \ {id}
  | .insert _ name _ => insert name stale
  | .remove _ name => insert name stale

theorem step (h : Faithful stale l) (x : Step) : Faithful (staleAfter stale x) (l.step x) := by
  cases x with
  | load reference => exact ⟨h.memory, h.store.grown (grown_load h.memory reference)⟩
  | invalidate id =>
    have hname : id ∈ [id] ∨ l.store.has id = false := .inl List.mem_cons_self
    exact ⟨h.memory, h.store.drop hname⟩
  | insert source name document =>
    exact h.change (h.memory.insert source name document)
      fun id hid => l.lib.document?_insert_of_ne source document hid
  | remove source name =>
    exact h.change (h.memory.remove source name)
      fun id hid => l.lib.document?_remove_of_ne source hid

theorem run (h : Faithful stale l) (steps : List Step) :
    Faithful (steps.foldl staleAfter stale) (l.run steps) := by
  induction steps generalizing l stale with
  | nil => exact h
  | cons x steps ih => exact ih (h.step x)

theorem mem_staleAfter {x : Step} {name : String} (h : name ∈ staleAfter stale x) :
    name ∈ x.changed? ∨ name ∈ stale ∧ x ≠ .invalidate name := by
  cases x with
  | load reference => exact .inr ⟨h, by simp⟩
  | invalidate id =>
    have hne : id ≠ name := fun heq => h.2 heq.symm
    exact .inr ⟨h.1, by simpa using hne⟩
  | insert source n document => exact h.imp (fun heq : name = n => heq ▸ rfl) fun h => ⟨h, by simp⟩
  | remove source n => exact h.imp (fun heq : name = n => heq ▸ rfl) fun h => ⟨h, by simp⟩

/-- Nothing is stale after steps whose changes are all followed by an invalidation. -/
theorem run_settled (h : Faithful ∅ l) {steps : List Step} (hsettled : Settled steps) :
    Faithful ∅ (l.run steps) := by
  have hempty : steps.foldl staleAfter ∅ = ∅ :=
    foldl_eq_empty_of_settledBy (fun _ _ _ => mem_staleAfter) hsettled (by simp)
  exact hempty ▸ h.run steps

end Faithful

/-! ### What is read while a fragment is not dropped -/

variable {x : Step} {steps : List Step}

theorem journal_eq (l : Loader) (reference : String) :
    (l.journal reference).1 = (l.load reference).1 ∧
      (l.journal reference).2.store = (l.load reference).2.store := by
  have hbare := Journal.bare_load l.lib { store := l.store } reference
  exact ⟨congrArg Prod.fst hbare, congrArg Prod.snd hbare⟩

/-- What a step does not drop stays. -/
theorem get?_step (h : Faithful stale l) (hdropped : id ∉ l.dropped x)
    (hf : Table.get? l.store.fragments id = some f) :
    Table.get? (l.step x).store.fragments id = some f := by
  cases x with
  | load reference => exact (grown_load h.memory reference).kept id f hf
  | invalidate id' =>
    have hspared : id ∉ l.store.affected id' := fun hmem =>
      hdropped (List.mem_filter.2 ⟨hmem, by simp [Store.has, Table.has, hf]⟩)
    simp only [step]
    rwa [Store.get?_invalidate, if_neg hspared]
  | insert source name document => exact hf
  | remove source name => exact hf

theorem get?_run (h : Faithful stale l) (hdropped : id ∉ along dropped l steps)
    (hf : Table.get? l.store.fragments id = some f) :
    Table.get? (l.run steps).store.fragments id = some f := by
  induction steps generalizing l stale with
  | nil => exact hf
  | cons x steps ih =>
    rw [along, List.mem_append, not_or] at hdropped
    exact ih (h.step x) hdropped.2 (get?_step h hdropped.1 hf)

/-- A step reads what the store does not hold, once, and the store holds it from then on. -/
theorem reads_step (h : Faithful stale l) (x : Step) : (l.reads x).Nodup ∧
    ∀ id ∈ l.reads x, l.store.has id = false ∧ (l.step x).store.has id = true := by
  cases x with
  | load reference =>
    obtain ⟨hcontinues, -⟩ := Journal.reading_load h.memory { store := l.store } reference
    obtain ⟨ids, hreads, hnodup, hids⟩ := hcontinues.read
    rw [← journal, (l.journal_eq reference).2] at hids
    have heq : l.reads (.load reference) = ids := hreads
    exact heq ▸ ⟨hnodup, hids⟩
  | invalidate id => exact ⟨List.nodup_nil, by simp [reads]⟩
  | insert source name document => exact ⟨List.nodup_nil, by simp [reads]⟩
  | remove source name => exact ⟨List.nodup_nil, by simp [reads]⟩

/-- Until a fragment is dropped its document is read once at most, and not at all if the store holds
the fragment. -/
theorem count_reads_le (h : Faithful stale l) (hdropped : id ∉ along dropped l steps) :
    (along reads l steps).count id ≤ if l.store.has id then 0 else 1 := by
  induction steps generalizing l stale with
  | nil => simp [along]
  | cons x steps ih =>
    rw [along, List.mem_append, not_or] at hdropped
    obtain ⟨hnodup, hreads⟩ := reads_step h x
    have hrest := ih (h.step x) hdropped.2
    rw [along, List.count_append]
    -- a store that holds the fragment holds it after the step, and one that reads it holds it too
    cases hhas : l.store.has id with
    | true =>
      obtain ⟨f, hf⟩ := Option.isSome_iff_exists.1 hhas
      have hstep : (l.step x).store.has id = true :=
        Option.isSome_iff_exists.2 ⟨f, get?_step h hdropped.1 hf⟩
      have hnot : id ∉ l.reads x := fun hmem => by
        cases hhas.symm.trans (hreads id hmem).1
      rw [hstep, if_pos rfl] at hrest
      rw [List.count_eq_zero_of_not_mem hnot]
      simpa using hrest
    | false =>
      by_cases hmem : id ∈ l.reads x
      · rw [(hreads id hmem).2, if_pos rfl] at hrest
        rw [List.count_eq_one_of_mem hnodup hmem, Nat.le_zero.1 hrest]
        simp
      · rw [List.count_eq_zero_of_not_mem hmem]
        split_ifs at hrest <;> simp <;> omega

/-- Until a fragment is dropped, chains have it as the store does. -/
theorem get?_of_mem_chains (h : Faithful stale l) (hdropped : id ∉ along dropped l steps)
    {c : Chain} (hc : c ∈ along chains l steps) (hf : f ∈ c.fragments) (hid : f.id = id) :
    Table.get? (l.run steps).store.fragments id = some f := by
  induction steps generalizing l stale with
  | nil => cases hc
  | cons x steps ih =>
    rw [along, List.mem_append, not_or] at hdropped
    have hrun : l.run (x :: steps) = (l.step x).run steps := rfl
    rw [hrun]
    rcases List.mem_append.1 hc with hc | hc
    · refine get?_run (h.step x) hdropped.2 ?_
      cases x with
      | load reference =>
        obtain ⟨-, hheld⟩ := Journal.reading_load h.memory { store := l.store } reference
        rw [← journal, (l.journal_eq reference).1, (l.journal_eq reference).2] at hheld
        have hload : (l.load reference).1 = .ok c := by
          cases hresult : (l.load reference).1 with
          | error error => simp [chains, hresult, Except.toOption] at hc
          | ok c' => simp_all [chains, Except.toOption]
        obtain ⟨k, hk⟩ := hheld c hload f hf
        obtain rfl : f.id = k := (h.step (.load reference)).store.id_eq k f hk
        exact hid ▸ hk
      | invalidate id => cases hc
      | insert source name document => cases hc
      | remove source name => cases hc
    · exact ih (h.step x) hdropped.2 hc

/-- After steps in which every changed name is invalidated later, whatever happened in between, a
reference loads as it does into a loader that starts with the documents as they are now.  After any
steps, as long as an identity is not dropped its document is read once at most, and all chains that
are loaded meanwhile have the same fragment of it.  What is read is noted by loading into a journal,
which does what loading does. -/
theorem run_load_eq_fresh {lib : Library} (hmemory : lib.InMemory) (steps : List Step) :
    (Settled steps → ∀ reference,
      ((run { lib } steps).load reference).1 = (load { lib := (run { lib } steps).lib } reference).1) ∧
    (∀ during id, id ∉ along dropped (run { lib } steps) during →
      (along reads (run { lib } steps) during).count id ≤ 1 ∧
      ∀ c ∈ along chains (run { lib } steps) during, ∀ f ∈ c.fragments, f.id = id →
        Table.get? (run (run { lib } steps) during).store.fragments id = some f) ∧
    ∀ (l : Loader) (reference : String), (l.journal reference).1 = (l.load reference).1 ∧
      (l.journal reference).2.store = (l.load reference).2.store := by
  have hfaithful := (Faithful.fresh hmemory).run steps
  refine ⟨fun hsettled reference => ?_, fun during id hdropped => ⟨?_, ?_⟩, journal_eq⟩
  · have hsettled' := (Faithful.fresh hmemory).run_settled hsettled
    exact hsettled'.store.load_eq hsettled'.memory reference
  · refine Nat.le_trans (count_reads_le hfaithful hdropped) ?_
    split_ifs <;> decide
  · exact fun c hc f hf hid => get?_of_mem_chains hfaithful hdropped hc hf hid

/-- Two documents that extend a third, one of which extends one more that is missing. -/
def shared : Library where
  sources := [.memory "memory" [("app", { bases := .one "base" }),
    ("other", { bases := .many ["base", "nowhere"] }), ("base", {})]]
  files := default

/-- The shared document is changed and dropped. -/
def editBase : List Step :=
  [.load "app", .insert 0 "base" { env := [("node", true)] }, .invalidate "base"]

/-- Loads of which the first fails, and a change of the shared document between the others. -/
def loadShared : List Step :=
  [.load "other", .load "app", .insert 0 "base" {}, .load "app"]

/-- The shared document is read by the load that fails, and not again. -/
theorem run_editBase :
    ((run { lib := shared } editBase).load "app").1 =
      (load { lib := (run { lib := shared } editBase).lib } "app").1 ∧
    ((run { lib := shared } editBase).load "app").1.isOk = true ∧
    along reads (run { lib := shared } editBase) loadShared = ["other", "base", "app"] ∧
    (along reads (run { lib := shared } editBase) loadShared).count "base" ≤ 1 ∧
    (along chains (run { lib := shared } editBase) loadShared).length = 2 ∧
    ∃ f, f.document.env = [("node", true)] ∧
      ∀ c ∈ along chains (run { lib := shared } editBase) loadShared,
        ∀ g ∈ c.fragments, g.id = "base" → g = f := by
  have hmemory : shared.InMemory := by simp [Library.InMemory, shared, Source.IsMemory]
  have hsettled : Settled editBase := by
    simp [Settled, SettledBy, editBase, Step.changed?]
  have hdropped : "base" ∉ along dropped (run { lib := shared } editBase) loadShared := by
    have hnone : along dropped (run { lib := shared } editBase) loadShared = [] := by rfl
    simp [hnone]
  obtain ⟨hfresh, honce, -⟩ := run_load_eq_fresh hmemory editBase
  obtain ⟨hcount, hsame⟩ := honce loadShared "base" hdropped
  obtain ⟨f, hf, henv⟩ : ∃ f,
      Table.get? (run (run { lib := shared } editBase) loadShared).store.fragments "base" = some f ∧
      f.document.env = [("node", true)] := ⟨_, by rfl, by rfl⟩
  refine ⟨hfresh hsettled "app", by rfl, by rfl, hcount, by rfl, f, henv, fun c hc g hg hid => ?_⟩
  exact Option.some.inj ((hsame c hc g hg hid).symm.trans hf)

end Loader

end LintConfig
