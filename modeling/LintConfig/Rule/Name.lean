import LintConfig.Text.Blank

/-!
# Names of plugins and rules

A plugin may be named by its package; `normalizePlugin` gives the namespace that its rules are
written with.  A rule is named by its namespace and its own name with a slash between them, and a
built-in rule, whose namespace is empty, by its own name alone.
-/

namespace LintConfig.Rule

/-- The beginning of package names of plugins. -/
def packageStart : List Char := "eslint-plugin-".toList

/-- The package name of a scope's only plugin. -/
def packageName : List Char := "eslint-plugin".toList

/-- The rest of a text after a given beginning. -/
def after? : List Char → List Char → Option (List Char)
  | [], cs => some cs
  | _ :: _, [] => none
  | p :: ps, c :: cs => if p = c then after? ps cs else none

/-- Splits at the first slash. -/
def splitFirst? (cs : List Char) : Option (List Char × List Char) :=
  match cs.dropWhile (· != '/') with
  | [] => none
  | _ :: rest => some (cs.takeWhile (· != '/'), rest)

/-- Splits at the last slash. -/
def splitLast? (cs : List Char) : Option (List Char × List Char) :=
  (splitFirst? cs.reverse).map fun r => (r.2.reverse, r.1.reverse)

/-- The namespace of a plugin, without blanks around it. -/
def normalizeChars : List Char → List Char
  | '@' :: inner =>
    match splitFirst? inner with
    | none => '@' :: inner
    | some (scope, rest) =>
      if rest = packageName then '@' :: scope
      else match after? packageStart rest with
        | some short => '@' :: (scope ++ '/' :: short)
        | none => '@' :: inner
  | cs => (after? packageStart cs).getD cs

/-- The namespace of a plugin: `eslint-plugin-a` is `a`, `@s/eslint-plugin` is `@s` and
`@s/eslint-plugin-a` is `@s/a`; any other name stands for itself without blanks around it. -/
def normalizePlugin (name : String) : String :=
  String.ofList (normalizeChars (Text.trimChars name.toList))

/-- Normalizes names and keeps the first of equal ones. -/
def normalizePlugins (names : List String) : List String :=
  (names.map normalizePlugin).foldl (fun acc n => if acc.contains n then acc else acc ++ [n]) []

/-- Splits a rule's identity into namespace and name: a scoped one at its last slash, any other at
its first; without a slash the rule is built in. -/
def split (id : String) : String × String :=
  let cs := id.toList
  let parts := match cs with
    | '@' :: _ => splitLast? cs
    | _ => splitFirst? cs
  match parts with
  | some (ns, name) => (String.ofList ns, String.ofList name)
  | none => ("", id)

/-- The namespace of a rule. -/
def namespaceOf (id : String) : String := (split id).1

/-- The identity of a rule in a namespace. -/
def qualify (ns name : String) : String := if ns.isEmpty then name else ns ++ "/" ++ name

end LintConfig.Rule
