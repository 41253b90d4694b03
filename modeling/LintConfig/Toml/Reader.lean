import LintConfig.Toml.Value

/-!
# TOML texts

Reads a text as a node.  Tables are collected with the way they were opened, since only a table
that was not opened by a header of its own may be opened by one later, and only a table made by a
dotted key may be extended by another.  The node has the keys of every table in order of their
code points.
-/

namespace LintConfig.Toml

/-- How a table came to be. -/
inductive Origin where
  /-- By a header of its own. -/
  | header
  /-- By a longer header. -/
  | implied
  /-- By a dotted key. -/
  | dotted
deriving DecidableEq

/-- What a key holds. -/
inductive Item where
  | value (n : Node)
  | table (origin : Origin) (entries : List (String × Item))
  /-- Tables opened by headers in double brackets, latest first. -/
  | tables (all : List (List (String × Item)))
deriving Inhabited

/-- The entries of a table. -/
abbrev Entries := List (String × Item)

/-! ### Nodes of tables -/

/-- Inserts an entry at its place in the order of the keys. -/
def insertSorted {α : Type} (k : String) (v : α) : List (String × α) → List (String × α)
  | [] => [(k, v)]
  | (k', v') :: es =>
    if k < k' then (k, v) :: (k', v') :: es else (k', v') :: insertSorted k v es

/-- The node of entries with nodes. -/
def mapNode (entries : List (String × Node)) : Node := .map (entries.map fun e => (.str e.1, e.2))

mutual

/-- The node of an item. -/
def Item.node : Item → Node
  | .value n => n
  | .table _ entries => mapNode (entryNodes entries)
  | .tables all => .seq (tableNodes all).reverse

/-- The nodes of entries, in the order of the keys. -/
def entryNodes : List (String × Item) → List (String × Node)
  | [] => []
  | (k, i) :: es => insertSorted k i.node (entryNodes es)

/-- The nodes of tables. -/
def tableNodes : List (List (String × Item)) → List Node
  | [] => []
  | t :: ts => mapNode (entryNodes t) :: tableNodes ts

end

/-! ### Building tables -/

/-- Changes the table at the end of a key, which is opened where it is missing.  Keys of a line may
only pass through tables made by dotted keys or implied by headers. -/
def within (dotted : Bool) (change : Origin → Entries → Option (Origin × Entries)) :
    List String → Origin → Entries → Option (Origin × Entries)
  | [], origin, es => change origin es
  | k :: ks, origin, es => do
    let item ← match Table.get? es k with
      | none => do
        let opened := if dotted then Origin.dotted else .implied
        let (o, inner) ← within dotted change ks opened []
        some (.table o inner)
      | some (.value _) => none
      | some (.table o inner) =>
        if dotted && o == .header then none
        else do
          let (o, inner) ← within dotted change ks o inner
          some (.table o inner)
      | some (.tables all) =>
        if dotted then none
        else match all with
          | [] => none
          | last :: before => do
            let (_, inner) ← within dotted change ks .header last
            some (.tables (inner :: before))
    return (origin, Table.put es k item)

/-- Sets a key of a line in the table at hand. -/
def setKey (keys : List String) (item : Item) (es : Entries) : Option Entries :=
  match keys.getLast? with
  | none => none
  | some name =>
    let set (origin : Origin) (es : Entries) : Option (Origin × Entries) :=
      if keys.length > 1 && origin != .dotted then none
      else if Table.has es name then none
      else some (origin, Table.put es name item)
    (within true set keys.dropLast .header es).map Prod.snd

/-- Opens the table of a header. -/
def openTable (keys : List String) (root : Entries) : Option Entries :=
  match keys.getLast? with
  | none => none
  | some name =>
    let set (origin : Origin) (es : Entries) : Option (Origin × Entries) :=
      match Table.get? es name with
      | none => some (origin, Table.put es name (.table .header []))
      | some (.table .implied inner) => some (origin, Table.put es name (.table .header inner))
      | some _ => none
    (within false set keys.dropLast .header root).map Prod.snd

/-- Opens the next table of a header in double brackets. -/
def openNext (keys : List String) (root : Entries) : Option Entries :=
  match keys.getLast? with
  | none => none
  | some name =>
    let set (origin : Origin) (es : Entries) : Option (Origin × Entries) :=
      match Table.get? es name with
      | none => some (origin, Table.put es name (.tables [[]]))
      | some (.tables all) => some (origin, Table.put es name (.tables ([] :: all)))
      | some _ => none
    (within false set keys.dropLast .header root).map Prod.snd

/-- Sets a key of a line in the table that a header opened. -/
def setUnder (header keys : List String) (item : Item) (root : Entries) : Option Entries :=
  let set (origin : Origin) (es : Entries) : Option (Origin × Entries) :=
    (setKey keys item es).map fun es => (origin, es)
  (within false set header .header root).map Prod.snd

/-! ### Values -/

/-- Greatest number of arrays and inline tables around a value, itself included. -/
def depthLimit : Nat := 80

mutual

/-- Reads a value; `levels` is how many containers may still be opened. -/
def value? (levels : Nat) : Nat → List Char → Option (Node × List Char)
  | 0, _ => none
  | fuel + 1, cs =>
    match cs with
    | '"' :: _ => (string? cs).map fun r => (.str r.1, r.2)
    | '\'' :: _ => (string? cs).map fun r => (.str r.1, r.2)
    | '[' :: cs => do
      if levels = 0 then none
      let (items, rest) ← items? (levels - 1) fuel cs
      return (.seq items, rest)
    | '\x7b' :: cs => do
      if levels = 0 then none
      let (entries, rest) ← members? (levels - 1) fuel [] cs
      return (mapNode (entryNodes entries), rest)
    | _ => plain? cs

/-- Reads the items of an array up to its closing bracket. -/
def items? (levels : Nat) : Nat → List Char → Option (List Node × List Char)
  | 0, _ => none
  | fuel + 1, cs => do
    match ← skipLines? (fuel + 1) cs with
    | ']' :: rest => return ([], rest)
    | cs =>
      let (item, cs) ← value? levels fuel cs
      match ← skipLines? (fuel + 1) cs with
      | ',' :: cs =>
        let (items, rest) ← items? levels fuel cs
        return (item :: items, rest)
      | ']' :: rest => return ([item], rest)
      | _ => none

/-- Reads the members of an inline table up to its closing brace. -/
def members? (levels : Nat) : Nat → Entries → List Char → Option (Entries × List Char)
  | 0, _, _ => none
  | fuel + 1, es, cs => do
    match ← skipLines? (fuel + 1) cs with
    | '\x7d' :: rest => return (es, rest)
    | cs =>
      let (keys, cs) ← key? (fuel + 1) cs
      match cs with
      | '=' :: cs =>
        let (v, cs) ← value? levels fuel (skipBlanks cs)
        let es ← setKey keys (.value v) es
        match ← skipLines? (fuel + 1) cs with
        | ',' :: cs => members? levels fuel es cs
        | '\x7d' :: rest => return (es, rest)
        | _ => none
      | _ => none

end

/-! ### Documents -/

/-- Passes the rest of a line, which may hold a comment only. -/
def lineEnd? (cs : List Char) : Option (List Char) := do
  let cs ← skipComment? (skipBlanks cs)
  match cs with
  | [] => some []
  | cs => newline? cs

/-- Reads the lines of a text, with the header of the table at hand. -/
def lines? : Nat → List String → Entries → List Char → Option Entries
  | 0, _, _, _ => none
  | fuel + 1, header, root, cs => do
    match ← skipLines? (cs.length + 1) cs with
    | [] => return root
    | '[' :: '[' :: cs =>
      let (keys, cs) ← key? (fuel + 1) cs
      match cs with
      | ']' :: ']' :: cs => lines? fuel keys (← openNext keys root) (← lineEnd? cs)
      | _ => none
    | '[' :: cs =>
      let (keys, cs) ← key? (fuel + 1) cs
      match cs with
      | ']' :: cs => lines? fuel keys (← openTable keys root) (← lineEnd? cs)
      | _ => none
    | cs =>
      let (keys, cs) ← key? (fuel + 1) cs
      match cs with
      | '=' :: cs =>
        let (v, cs) ← value? depthLimit (cs.length + 1) (skipBlanks cs)
        lines? fuel header (← setUnder header keys (.value v) root) (← lineEnd? cs)
      | _ => none

/-- Reads a text as a node. -/
def read? (text : String) : Option Node := do
  let cs := match text.toList with
    | c :: rest => if c.toNat = 0xFEFF then rest else c :: rest
    | [] => []
  let entries ← lines? (cs.length + 1) [] [] cs
  return mapNode (entryNodes entries)

end LintConfig.Toml
