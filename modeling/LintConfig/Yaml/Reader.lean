import LintConfig.Node
import LintConfig.Yaml.Lexeme

/-!
# YAML texts

Reads a text with one document as a node.  Block collections are read by recursion on their
indentation: a collection at column `n` goes on as long as its lines start at column `n` and its
parts are indented by more, except that the items of a sequence under a key may start at the
column of the key.  Aliases are replaced by the nodes of their anchors; a document whose aliases
repeat too much is refused.
-/

namespace LintConfig.Yaml

/-- A node with what is counted of it. -/
structure Part where
  node : Node
  /-- Greatest number of containers around a part of it, itself included. -/
  depth : Nat
  /-- Aliases followed when the whole of it is read. -/
  jumps : Nat
deriving Inhabited

/-- What a reader has come to. -/
structure State where
  cursor : Cursor
  anchors : Table Part
  handles : Table String
  /-- Scalars, aliases, and starts and ends of collections read so far. -/
  events : Nat

/-- A reader of a part of a text. -/
abbrev Reader := StateT State Option

/-- Greatest number of containers around a value that can be read. -/
def depthLimit : Nat := 128

/-- The tag and anchor in front of a node. -/
structure Properties where
  anchor : Option String := none
  /-- Whether a tag mark was read. -/
  hasTag : Bool := false
  tag : Option Tag := none

namespace Properties

/-- Whether neither is there. -/
def isEmpty (p : Properties) : Bool := p.anchor.isNone && !p.hasTag

/-- Whether there is an application's own tag on a container; a lone tag mark is one. -/
def hasOwnTag (p : Properties) : Bool :=
  match p.tag with
  | some (.own _) => true
  | some _ => false
  | none => p.hasTag

/-- The properties of both, unless both have the same one. -/
def join? (p q : Properties) : Option Properties :=
  if (p.anchor.isSome && q.anchor.isSome) || (p.hasTag && q.hasTag) then none
  else some ⟨p.anchor <|> q.anchor, p.hasTag || q.hasTag, p.tag <|> q.tag⟩

end Properties

/-! ### Steps of a reader -/

/-- The cursor. -/
def here : Reader Cursor := return (← get).cursor

/-- Goes to a cursor. -/
def goTo (c : Cursor) : Reader Unit := modify fun s => { s with cursor := c }

/-- Counts events. -/
def count (n : Nat) : Reader Unit := modify fun s => { s with events := s.events + n }

/-- Passes blanks, comments and line ends.  A tab that does not count as a blank is a fault. -/
def skip (flow tabs : Bool) : Reader Cursor := do
  let c := (← here).skip flow tabs
  if c.rest.head? == some '\t' then failure
  else
    goTo c
    return c

/-- Reads a part with a reader of cursors. -/
def lexeme {α : Type} (read : Cursor → Option (α × Cursor)) : Reader α := do
  let (a, c) ← read (← here)
  goTo c
  return a

/-- Passes a number of characters. -/
def pass (n : Nat) : Reader Unit := do goTo ((← here).advance n)

/-- Gives a part its anchor; until then the anchor's name stands for nothing. -/
def anchored (p : Properties) (part : Part) : Reader Part := do
  match p.anchor with
  | none => return part
  | some name =>
    modify fun s => { s with anchors := Table.put s.anchors name part }
    return part

/-- A scalar with its properties. -/
def scalar (p : Properties) (style : Style) (text : List Char) : Reader Part := do
  count 1
  anchored p ⟨.scalar ⟨String.ofList text, style, p.tag⟩, 0, 0⟩

/-- A scalar without text. -/
def emptyScalar (p : Properties) : Reader Part := scalar p .bare []

/-- A container of parts with its properties. -/
def container (p : Properties) (node : Node) (parts : List Part) : Reader Part := do
  count 2
  let depth := parts.foldl (fun d q => max d q.depth) 0 + 1
  let jumps := parts.foldl (fun j q => j + q.jumps) 0
  anchored p ⟨if p.hasOwnTag then .tagged node else node, depth, jumps⟩

/-- A part inside a container; one that nests too deeply may still be skipped by a decoder. -/
def Part.inside (q : Part) : Part :=
  if depthLimit ≤ q.depth then { q with node := .unreadable, depth := 0 } else q

/-- A sequence of items. -/
def sequence (p : Properties) (items : List Part) : Reader Part :=
  let items := items.map Part.inside
  container p (.seq (items.map Part.node)) items

/-- A map of entries. -/
def mapping (p : Properties) (entries : List (Part × Part)) : Reader Part :=
  let entries := entries.map fun e => (e.1.inside, e.2.inside)
  container p (.map (entries.map fun e => (e.1.node, e.2.node)))
    (entries.flatMap fun e => [e.1, e.2])

/-- The node of an anchor. -/
def aliased : Reader Part := do
  pass 1
  let name ← lexeme name?
  count 1
  let part ← Table.get? (← get).anchors name
  return { part with jumps := part.jumps + 1 }

/-- Reads the properties on a line. -/
def properties (flow : Bool) : Nat → Properties → Reader Properties
  | 0, _ => failure
  | fuel + 1, p => do
    match (← here).rest with
    | '&' :: _ =>
      pass 1
      let name ← lexeme name?
      let p ← p.join? { anchor := some name }
      modify fun s => { s with anchors := Table.erase s.anchors name }
      goTo (← here).skipBlanks
      properties flow fuel p
    | '!' :: _ =>
      pass 1
      let handles := (← get).handles
      let tag ← lexeme (tag? handles flow)
      let p ← p.join? { hasTag := true, tag := tag }
      goTo (← here).skipBlanks
      properties flow fuel p
    | _ => return p

/-! ### Flow nodes -/

/-- Whether the text goes on with the mark between a key and its value.  In a flow collection the
mark need not be a word of its own. -/
def atValueMark (flow : Bool) (c : Cursor) : Bool :=
  match c.rest with
  | ':' :: cs => flow || endsWord cs
  | _ => false

/-- Greatest length of a key that is not marked. -/
def keyLimit : Nat := 1024

/-- Whether what stands between two cursors is a key: a value mark follows it on the same line. -/
def endsKey (flow : Bool) (start c : Cursor) : Bool :=
  atValueMark flow c && c.line == start.line && c.column ≤ start.column + keyLimit

mutual

/-- Reads a node in a flow collection; what cannot start one is an empty scalar, if `properties`
were read before it.  `indent` is the column that the block around the collection asks for. -/
def flowNode (indent : Nat) : Nat → Reader Part
  | 0 => failure
  | fuel + 1 => do
    let p ← properties true (fuel + 1) {}
    let c ← skip true true
    match c.rest with
    | d :: _ =>
      let ends := d == ',' || d == ']' || d == '\x7d' || atValueMark true c
      if !p.isEmpty && ends then emptyScalar p
      else content true indent fuel p
    | [] => failure

/-- Reads an alias, a scalar that is no block, or a flow collection. -/
def content (flow : Bool) (indent : Nat) : Nat → Properties → Reader Part
  | 0, _ => failure
  | fuel + 1, p => do
    let c ← here
    match c.rest with
    | '*' :: _ => if p.isEmpty then aliased else failure
    | '"' :: _ =>
      pass 1
      scalar p .quoted (← lexeme (quoted? false))
    | '\'' :: _ =>
      pass 1
      scalar p .quoted (← lexeme (quoted? true))
    | '[' :: _ =>
      pass 1
      sequence p (← flowItems indent fuel)
    | '\x7b' :: _ =>
      pass 1
      mapping p (← flowEntries indent fuel)
    | cs =>
      if startsBare flow cs then scalar p .bare (← lexeme (bare? flow indent)) else failure

/-- Reads the items of a flow sequence up to its closing bracket. -/
def flowItems (indent : Nat) : Nat → Reader (List Part)
  | 0 => failure
  | fuel + 1 => do
    let c ← skip true true
    match c.rest with
    | ']' :: _ =>
      pass 1
      return []
    | _ =>
      let item ← flowItem indent fuel
      let c ← skip true true
      match c.rest with
      | ']' :: _ =>
        pass 1
        return [item]
      | ',' :: _ =>
        pass 1
        return item :: (← flowItems indent fuel)
      | _ => failure

/-- Reads an item of a flow sequence: a node, or a key and a value, which are a map.  The mark of a
key need not be a word of its own. -/
def flowItem (indent : Nat) : Nat → Reader Part
  | 0 => failure
  | fuel + 1 => do
    let start ← here
    if start.rest.head? == some '?' then
      let (k, v) ← flowEntry indent fuel
      mapping {} [(k, v)]
    else
      let key ← flowNode indent fuel
      let c ← skip true true
      if endsKey true start c then
        let v ← flowValue indent fuel
        mapping {} [(key, v)]
      else return key

/-- Reads the entries of a flow map up to its closing brace. -/
def flowEntries (indent : Nat) : Nat → Reader (List (Part × Part))
  | 0 => failure
  | fuel + 1 => do
    let c ← skip true true
    match c.rest with
    | '\x7d' :: _ =>
      pass 1
      return []
    | _ =>
      let entry ← flowEntry indent fuel
      let c ← skip true true
      match c.rest with
      | '\x7d' :: _ =>
        pass 1
        return [entry]
      | ',' :: _ =>
        pass 1
        return entry :: (← flowEntries indent fuel)
      | _ => failure

/-- Reads an entry of a flow map.  A key ends on the line it starts on, unless it is marked. -/
def flowEntry (indent : Nat) : Nat → Reader (Part × Part)
  | 0 => failure
  | fuel + 1 => do
    let start ← here
    if start.rest.head? == some '?' then
      pass 1
      let c ← skip true true
      let ends := c.rest.head?.all fun d => d == ',' || d == ']' || d == '\x7d'
      let key ← if ends || atValueMark true c then emptyScalar {} else flowNode indent fuel
      let c ← skip true true
      if atValueMark true c then return (key, ← flowValue indent fuel)
      else return (key, ← emptyScalar {})
    else
      let key ← flowNode indent fuel
      let c ← skip true true
      if endsKey true start c then return (key, ← flowValue indent fuel)
      else return (key, ← emptyScalar {})

/-- Reads a value after its mark in a flow collection. -/
def flowValue (indent : Nat) : Nat → Reader Part
  | 0 => failure
  | fuel + 1 => do
    pass 1
    let c ← skip true true
    match c.rest with
    | ',' :: _ | ']' :: _ | '\x7d' :: _ => emptyScalar {}
    | _ => flowNode indent fuel

end

/-! ### Block nodes -/

/-- Reads a block scalar. -/
def blockScalar (literal : Bool) (parent : Int) (p : Properties) : Reader Part := do
  pass 1
  let text ← lexeme (block? literal parent)
  scalar p (if literal then .literal else .quoted) text

mutual

/-- Reads a node whose parent is at column `parent`.  On a `fresh` position, where a line or an
item starts, block collections may start. -/
def blockNode : Nat → Int → Bool → Reader Part
  | 0, _, _ => failure
  | fuel + 1, parent, fresh => do
    let start ← here
    if fresh && (start.atWord '-' || start.atWord '?') then blockCollection fuel {}
    else
      let p ← properties false (fuel + 1) {}
      if p.isEmpty then blockContent fuel parent fresh start {} {}
      else
        let c ← skip false false
        if c.line == start.line && !c.atEnd then blockContent fuel parent fresh start {} p
        else if c.atEnd || (c.column : Int) < parent then emptyScalar p
        else if (c.column : Int) == parent then
          if c.atWord '-' && 0 ≤ parent then sequence p (← blockItems fuel c.column)
          else emptyScalar p
        else if c.atWord '-' || c.atWord '?' then blockCollection fuel p
        else
          let q ← properties false (fuel + 1) {}
          blockContent fuel parent true c p q

/-- Reads a block collection that starts with its mark. -/
def blockCollection : Nat → Properties → Reader Part
  | 0, _ => failure
  | fuel + 1, p => do
    let c ← here
    if c.atWord '-' then sequence p (← blockItems fuel c.column)
    else mapping p (← blockEntries fuel c.column)

/-- Reads a node after its properties: `outer` come from the lines above, `inner` from the line that
starts at `start`.  Where a value mark follows on the same line, the node is the first key of a map
at the column of `start`, and the outer properties belong to the map. -/
def blockContent : Nat → Int → Bool → Cursor → Properties → Properties → Reader Part
  | 0, _, _, _, _, _ => failure
  | fuel + 1, parent, fresh, start, outer, inner => do
    let c ← here
    match c.rest with
    | '|' :: _ => blockScalar true parent (← outer.join? inner)
    | '>' :: _ => blockScalar false parent (← outer.join? inner)
    | _ =>
      let saved ← get
      let key ← content false (parent + 1).toNat fuel inner
      let c := (← here).skipBlanks
      if fresh && endsKey false start c then
        goTo c
        let value ← blockValue fuel start.column
        let rest ← blockEntries fuel start.column
        mapping outer ((key, value) :: rest)
      else if outer.isEmpty then return key
      else
        set saved
        content false (parent + 1).toNat fuel (← outer.join? inner)

/-- Reads a value after its mark, under a key at a column. -/
def blockValue : Nat → Nat → Reader Part
  | 0, _ => failure
  | fuel + 1, column => do
    let start ← here
    pass 1
    let c ← skip false true
    if c.line == start.line && !c.rest.isEmpty then blockNode fuel column false
    else if c.atEnd || c.column < column then emptyScalar {}
    else if c.column == column then
      if c.atWord '-' then sequence {} (← blockItems fuel column) else emptyScalar {}
    else blockNode fuel column true

/-- Reads the mark of a key or a value that has a line of its own, and the key or value. -/
def explicitPart : Nat → Nat → Reader Part
  | 0, _ => failure
  | fuel + 1, column => do
    let mark ← here
    pass 1
    let c ← skip false false
    if c.atEnd then emptyScalar {}
    else if c.line == mark.line || column < c.column then blockNode fuel column true
    else if c.column == column && c.atWord '-' then sequence {} (← blockItems fuel column)
    else emptyScalar {}

/-- Reads the entries of a map at a column, as long as there are any. -/
def blockEntries : Nat → Nat → Reader (List (Part × Part))
  | 0, _ => failure
  | fuel + 1, column => do
    let c ← skip false true
    if c.atEnd || c.column < column then return []
    else if c.column != column then failure
    else if c.atWord '?' then
      let key ← explicitPart fuel column
      let d ← skip false true
      if !d.atEnd && d.column == column && atValueMark false d then
        let value ← explicitPart fuel column
        return (key, value) :: (← blockEntries fuel column)
      else
        let value ← emptyScalar {}
        return (key, value) :: (← blockEntries fuel column)
    else if c.atWord '-' then return []
    else
      let p ← properties false (fuel + 1) {}
      let key ← content false (column + 1) fuel p
      let d := (← here).skipBlanks
      if endsKey false c d then
        goTo d
        let value ← blockValue fuel column
        return (key, value) :: (← blockEntries fuel column)
      else failure

/-- Reads the items of a sequence at a column, as long as there are any. -/
def blockItems : Nat → Nat → Reader (List Part)
  | 0, _ => failure
  | fuel + 1, column => do
    let c ← skip false true
    if c.atEnd || c.column != column || !c.atWord '-' then return []
    else
      pass 1
      let d ← skip false false
      let item ←
        if d.atEnd || (d.line != c.line && d.column ≤ column) then emptyScalar {}
        else blockNode fuel column true
      return item :: (← blockItems fuel column)

end

/-! ### Documents -/

/-- Reads a directive after its mark: a version, or the handle of tags. -/
def directive : Reader Unit := do
  let c ← here
  let line := c.restOfLine
  let words := ((String.ofList (line.takeWhile (· != '#'))).splitToList isBlank).filter (· != "")
  match words with
  | ["YAML", "1.1"] | ["YAML", "1.2"] => pass line.length
  | ["TAG", handle, start] =>
    modify fun s => { s with handles := Table.put s.handles handle start }
    pass line.length
  | _ => failure

/-- Reads the directives of a document; they have to be followed by `---`. -/
def directives : Nat → Bool → Reader Bool
  | 0, _ => failure
  | fuel + 1, any => do
    let c ← skip false false
    match c.rest with
    | '%' :: _ =>
      if c.column == 0 then
        pass 1
        directive
        directives fuel true
      else failure
    | _ => return any

/-- Reads the node of the only document of a text; `none` for a text without any. -/
def document (fuel : Nat) : Reader (Option Part) := do
  let marked ← directives fuel false
  let c ← here
  let starts := c.column == 0 && isMarker c.rest && c.rest.head? == some '-'
  if marked && !starts then failure
  else if c.rest.isEmpty then return none
  else
    let mut fresh := true
    let mut line := c.line
    if starts then
      pass 3
      let d ← skip false true
      fresh := d.line != line
      line := d.line
    let d ← here
    if d.atEnd then
      if starts then return some (← emptyScalar {}) else failure
    else
      return some (← blockNode fuel (-1) fresh)

/-- Passes the ends of a document; nothing may follow. -/
def ending : Nat → Reader Unit
  | 0 => failure
  | fuel + 1 => do
    let c ← skip false true
    match c.rest with
    | [] => return ()
    | '.' :: _ =>
      if c.column == 0 && isMarker c.rest then
        pass 3
        ending fuel
      else failure
    | _ => failure

/-- Reads a text with at most one document as a node.  A text without any is an empty scalar. -/
def read? (text : String) : Option Node := do
  let cs := text.toList
  let cs := match cs with
    | c :: rest => if c.toNat = 0xFEFF then rest else cs
    | [] => []
  if !cs.all isAllowed then none
  else
    let cs := normalLines cs
    let fuel := 4 * cs.length + 16
    let start : State :=
      { cursor := ⟨cs, 0, 0⟩
        anchors := []
        handles := [("!", "!"), ("!!", coreTag)]
        events := 0 }
    let (part, s) ← (document fuel).run start
    let (_, _) ← (ending fuel).run s
    match part with
    | none => some (.scalar ⟨"", .bare, none⟩)
    | some part =>
      if 100 * s.events < part.jumps then none else some part.node

end LintConfig.Yaml
