import LintConfig.Document.Decode
import LintConfig.Fragment
import LintConfig.Proofs.Rule.Package

/-!
# Documents in normal form

A document is normalized once, when its fragment is made.  Normalizing again changes nothing exactly
if one pass settles the name of every plugin, and such a name may be written by its namespace
instead, in the document and in its override blocks (`Fragment.ofDocument_ofDocument`).
-/

namespace LintConfig

open Rule (OncePackaged normalizePlugin normalizePlugins)

/-! ### Names written by their namespaces -/

namespace Rule

/-- Names some of which are written by their namespaces, if one pass settles them. -/
def Respelled : List String → List String → Prop :=
  List.Forall₂ fun name name' => name' = name ∨ OncePackaged name ∧ name' = normalizePlugin name

theorem Respelled.normalizePlugins_eq {names names' : List String} (h : Respelled names names') :
    normalizePlugins names' = normalizePlugins names := by
  have hnames : names'.map normalizePlugin = names.map normalizePlugin := by
    induction h with
    | nil => rfl
    | @cons name name' names names' hname _ ih =>
      have hsame : normalizePlugin name' = normalizePlugin name := by
        obtain rfl | ⟨honce, rfl⟩ := hname
        · rfl
        · exact normalizePlugin_normalizePlugin_iff.2 honce
      rw [List.map_cons, List.map_cons, hsame, ih]
  rw [Rule.normalizePlugins_eq, Rule.normalizePlugins_eq, hnames]

end Rule

/-- Blocks that differ in the spelling of plugins only. -/
structure OverrideBlock.Respelled (b b' : OverrideBlock) : Prop where
  plugins : Rule.Respelled b.plugins b'.plugins
  others : { b' with plugins := b.plugins } = b

/-- Documents that differ in the spelling of plugins only. -/
structure Document.Respelled (d d' : Document) : Prop where
  plugins : Rule.Respelled d.plugins d'.plugins
  overrides : List.Forall₂ OverrideBlock.Respelled d.overrides d'.overrides
  others : { d' with plugins := d.plugins, overrides := d.overrides } = d

namespace Document

variable {d d' : Document}

/-- The plugins that are named in a document or in an override block of it. -/
def pluginNames (d : Document) : List String :=
  d.plugins ++ d.overrides.flatMap OverrideBlock.plugins

theorem normalize_eq_self_iff : d.normalize = d ↔ normalizePlugins d.plugins = d.plugins ∧
    ∀ b ∈ d.overrides, normalizePlugins b.plugins = b.plugins := by
  have hblock (b : OverrideBlock) : { b with plugins := normalizePlugins b.plugins } = b ↔
      normalizePlugins b.plugins = b.plugins := by
    cases b
    simp
  have hblocks : d.overrides.map (fun b => { b with plugins := normalizePlugins b.plugins }) =
      d.overrides ↔ ∀ b ∈ d.overrides, normalizePlugins b.plugins = b.plugins := by
    simp only [← hblock]
    simpa using (List.map_inj_left : d.overrides.map
      (fun b => { b with plugins := normalizePlugins b.plugins }) = d.overrides.map id ↔ _)
  rw [← hblocks]
  cases d
  simp [normalize]

/-- Normalizing again changes nothing just if one pass settles every name. -/
theorem normalize_normalize_iff :
    d.normalize.normalize = d.normalize ↔ ∀ name ∈ d.pluginNames, OncePackaged name := by
  rw [normalize_eq_self_iff]
  simp only [normalize, pluginNames, List.forall_mem_map, List.forall_mem_append,
    List.forall_mem_flatMap, Rule.normalizePlugins_normalizePlugins_iff]

theorem Respelled.normalize_eq (h : d.Respelled d') : d'.normalize = d.normalize := by
  have hblocks {bs bs' : List OverrideBlock} (hbs : List.Forall₂ OverrideBlock.Respelled bs bs') :
      bs'.map (fun b => { b with plugins := normalizePlugins b.plugins }) =
        bs.map fun b => { b with plugins := normalizePlugins b.plugins } := by
    induction hbs with
    | nil => rfl
    | cons hb _ ih =>
      rw [List.map_cons, List.map_cons, ih, hb.plugins.normalizePlugins_eq, ← hb.others]
  unfold normalize
  dsimp only
  rw [hblocks h.overrides, h.plugins.normalizePlugins_eq, ← h.others]

end Document

/-! ### Fragments -/

/-- A fragment made of the document of a fragment.  It has that document, and with it the
fingerprints, exactly if one pass settles every plugin name of the document; and one pass settles a
name exactly if it is the package name of nothing but a namespace.  The fragment is the same if such
names are written by their namespaces. -/
theorem Fragment.ofDocument_ofDocument (id id' : String) (d : Document) :
    let f := ofDocument id d
    let again := ofDocument id' f.document
    (again.document = f.document ↔ ∀ name ∈ d.pluginNames, OncePackaged name) ∧
    ((∀ name ∈ d.pluginNames, OncePackaged name) →
      again.fingerprint = f.fingerprint ∧ again.overrideFingerprints = f.overrideFingerprints) ∧
    (∀ name, normalizePlugin (normalizePlugin name) = normalizePlugin name ↔ OncePackaged name) ∧
    ∀ d', d.Respelled d' → ofDocument id d' = f := by
  intro f again
  have hagain : again.document = f.document ↔ ∀ name ∈ d.pluginNames, OncePackaged name :=
    Document.normalize_normalize_iff
  refine ⟨hagain, fun honce => ?_, fun name => Rule.normalizePlugin_normalizePlugin_iff,
    fun d' hd' => ?_⟩
  · have hdocument := hagain.2 honce
    exact ⟨congrArg Document.fingerprint hdocument,
      congrArg (fun d => d.overrides.map OverrideBlock.fingerprint) hdocument⟩
  · exact congrArg (Fragment.mk id) hd'.normalize_eq

/-- Plugins by their long names, with blanks, with a scope and more than once. -/
def longNamed : Document where
  plugins := ["eslint-plugin-react", "react", " @typescript-eslint/eslint-plugin "]
  overrides := [{ files := .one "*.ts", plugins := ["@scope/eslint-plugin-import"] }]

/-- The same plugins, most of them by their namespaces. -/
def shortNamed : Document where
  plugins := ["react", "react", "@typescript-eslint"]
  overrides := [{ files := .one "*.ts", plugins := ["@scope/import"] }]

theorem Fragment.ofDocument_ofDocument_longNamed :
    (∀ name ∈ longNamed.pluginNames, OncePackaged name) ∧ longNamed.Respelled shortNamed ∧
      let f := ofDocument "root" longNamed
      let again := ofDocument "again" f.document
      f.document.plugins = ["react", "@typescript-eslint"] ∧ again.document = f.document ∧
        again.fingerprint = f.fingerprint ∧
        again.overrideFingerprints = f.overrideFingerprints ∧ ofDocument "root" shortNamed = f := by
  have honce : ∀ name ∈ longNamed.pluginNames, OncePackaged name := by
    simp only [← Rule.normalizePlugin_normalizePlugin_iff]
    decide +kernel
  have hrespelled : longNamed.Respelled shortNamed := by
    have hreact := honce "eslint-plugin-react" (by decide)
    have hscope := honce " @typescript-eslint/eslint-plugin " (by decide)
    have himport := honce "@scope/eslint-plugin-import" (by decide)
    exact {
      plugins := .cons (.inr ⟨hreact, rfl⟩) (.cons (.inl rfl) (.cons (.inr ⟨hscope, rfl⟩) .nil))
      overrides := .cons ⟨.cons (.inr ⟨himport, rfl⟩) .nil, rfl⟩ .nil
      others := rfl }
  obtain ⟨hdocument, hfingerprints, -, hspelling⟩ :=
    ofDocument_ofDocument "root" "again" longNamed
  obtain ⟨hfingerprint, hoverrides⟩ := hfingerprints honce
  exact ⟨honce, hrespelled, by decide +kernel, hdocument.2 honce, hfingerprint, hoverrides,
    hspelling shortNamed hrespelled⟩

/-- A plugin with the beginning of a package name in its own name. -/
def twicePackaged : Document where
  plugins := ["eslint-plugin-eslint-plugin-react"]

theorem Fragment.ofDocument_ofDocument_twicePackaged :
    let f := ofDocument "root" twicePackaged
    let again := ofDocument "root" f.document
    Document.ofJson twicePackaged.toJson = .ok twicePackaged ∧ again.document ≠ f.document ∧
      again.fingerprint ≠ f.fingerprint ∧
      normalizePlugin (normalizePlugin "eslint-plugin-eslint-plugin-react") ≠
        normalizePlugin "eslint-plugin-eslint-plugin-react" := by
  intro f again
  have hfingerprint : again.fingerprint ≠ f.fingerprint := by decide +kernel
  exact ⟨rfl, fun h => hfingerprint (congrArg Document.fingerprint h), hfingerprint,
    by decide +kernel⟩

end LintConfig
