import LintConfig.Document
import LintConfig.Table

/-!
# Layers

A layer is what a document or an override contributes to a configuration, inheritance and scoping
aside.  `Layer.merge` lays one layer over another: plugins are united, a later rule entry replaces
an earlier one as a whole, settings, environments, globals and parser options are overlaid key by
key, and the last parser that is set wins.
-/

namespace LintConfig

/-- What is merged along a chain of documents and overrides. -/
structure Layer where
  plugins : Names := []
  rules : RuleMap := []
  settings : Settings := []
  env : Table Bool := []
  globals : Settings := []
  parser : Option String := none
  parserOptions : Settings := []
deriving Inhabited

namespace Layer

/-- The contribution of a document. -/
def ofDocument (d : Document) : Layer where
  plugins := Names.ofList d.plugins
  rules := d.rules
  settings := d.settings
  env := d.env
  globals := d.globals
  parser := d.parser
  parserOptions := d.parserOptions

/-- The contribution of an override. -/
def ofOverride (b : OverrideBlock) : Layer where
  plugins := Names.ofList b.plugins
  rules := b.rules
  settings := b.settings
  env := b.env
  globals := b.globals
  parser := b.parser
  parserOptions := b.parserOptions

/-- Lays `upper` onto `base`; the settings under `deep` keys are merged at every depth. -/
def merge (deep : Names) (base upper : Layer) : Layer where
  plugins := Names.union base.plugins upper.plugins
  rules := Table.overlay base.rules upper.rules
  settings := Settings.overlay deep base.settings upper.settings
  env := Table.overlay base.env upper.env
  globals := Settings.overlay [] base.globals upper.globals
  parser := upper.parser.or base.parser
  parserOptions := Settings.overlay [] base.parserOptions upper.parserOptions

/-- Lays layers onto a base one after the other. -/
def mergeAll (deep : Names) (base : Layer) (layers : List Layer) : Layer :=
  layers.foldl (merge deep) base

end Layer

end LintConfig
