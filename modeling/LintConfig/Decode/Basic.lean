import LintConfig.Decode.Fault

/-!
# Decoders of simple values

A decoder takes a node and gives a value or a fault.  Scalars that keep their spelling are read as
the decoder asks: any spelling is a text, and an empty one stands for an empty container.
-/

namespace LintConfig.Decode

/-- The result of a decoder. -/
abbrev Result (α : Type) := Except Fault α

/-- A decoder of values of a type. -/
abbrev Decoder (α : Type) := Node → Result α

/-- Which liberties the notation of a text takes with the shape of records and variants. -/
inductive Shape where
  /-- A record may be given as a sequence of its fields, a variant as a map with one key. -/
  | liberal
  /-- A record is a map, a variant a scalar. -/
  | plain
deriving DecidableEq, Repr

/-- What an atom is called in messages. -/
def foundAtom : Atom → Found
  | .null => .null
  | .bool b => .bool b
  | .num n => .num n
  | .str s => .str s

/-- What a node is called in messages. -/
def found : Node → Found
  | .null => .null
  | .bool b => .bool b
  | .num n => .num n
  | .str s => .str s
  | .scalar s => (s.atom?.map foundAtom).getD (.str s.text)
  | .seq _ => .sequence
  | .map _ => .map
  | .tagged n => found n
  | .unreadable => .null

/-- Refuses a node where something else is asked for. -/
def refuse {α : Type} (wanted : Wanted) (n : Node) : Result α :=
  .error (.wrongType (found n) wanted)

/-- Reads a text. -/
def string : Decoder String
  | .str s => .ok s
  | .scalar s => .ok s.asText
  | n => refuse .string n

/-- Reads a path. -/
def path : Decoder String
  | .str s => .ok s
  | .scalar s => .ok s.asText
  | n => refuse .path n

/-- Reads a truth value. -/
def boolean : Decoder Bool
  | .bool b => .ok b
  | .scalar s => match s.asBool? with
    | some b => .ok b
    | none => refuse .boolean (.scalar s)
  | n => refuse .boolean n

/-- Reads an integer as a natural number that fits into 64 bits. -/
def naturalOf (n : Int) : Result Nat :=
  if n < 0 then .error (.negative n)
  else if n ≤ Number.maxInt then .ok n.toNat
  else refuse .natural (.num (.int n))

/-- Reads a natural number. -/
def natural : Decoder Nat
  | .num (.int n) => naturalOf n
  | .scalar s => match s.asInt? with
    | some n => naturalOf n
    | none => refuse .natural (.scalar s)
  | n => refuse .natural n

/-- Reads a value that may be absent: null is none. -/
def optional {α : Type} (decoder : Decoder α) : Decoder (Option α)
  | .null => .ok none
  | .scalar s => match s.isAbsent? with
    | some true => .ok none
    | some false => (decoder (.scalar s)).map some
    | none => refuse .unit (.scalar s)
  | n => (decoder n).map some

/-- Reads every item; the first fault counts. -/
def items {α : Type} (decoder : Decoder α) : List Node → Result (List α)
  | [] => .ok []
  | n :: ns => do
    let a ← decoder n
    return a :: (← items decoder ns)

/-- Reads a sequence. -/
def list {α : Type} (decoder : Decoder α) : Decoder (List α)
  | .seq ns => items decoder ns
  | .tagged (.seq ns) => items decoder ns
  | .scalar s => if s.isEmpty then .ok [] else refuse .sequence (.scalar s)
  | n => refuse .sequence n

/-- Reads every entry; the first fault counts, a key before its value. -/
def entries {α : Type} (decoder : Decoder α) : List (Node × Node) → Result (List (String × α))
  | [] => .ok []
  | (k, v) :: es => do
    let key ← string k
    let a ← decoder v
    return (key, a) :: (← entries decoder es)

/-- Reads a map; of a repeated key the last value wins at the first place. -/
def table {α : Type} (decoder : Decoder α) : Decoder (Table α)
  | .map es => (entries decoder es).map Table.ofEntries
  | .tagged (.map es) => (entries decoder es).map Table.ofEntries
  | .scalar s => if s.isEmpty then .ok [] else refuse .map (.scalar s)
  | n => refuse .map n

/-- Reads a variant that carries no data, from its word. -/
def variantOf {α : Type} (known : List String) (ofWord? : String → Option α) (word : String) :
    Result α :=
  match ofWord? word with
  | some a => .ok a
  | none => .error (.unknownVariant word known)

/-- Reads a variant that carries no data: its word, or where the shape is liberal a map from its
word to null. -/
def variant {α : Type} (shape : Shape) (known : List String) (ofWord? : String → Option α) :
    Decoder α
  | .str s => variantOf known ofWord? s
  | .scalar s => match s.variantWord? with
    | some word => variantOf known ofWord? word
    | none => refuse .unit (.scalar s)
  | .map es =>
    match shape, es with
    | .plain, _ => refuse .variant (.map es)
    | .liberal, [(k, v)] => do
      let a ← variantOf known ofWord? (← string k)
      match v with
      | .null => return a
      | v => refuse .unit v
    | .liberal, _ => .error .notSingleKey
  | n => refuse .variant n

/-- Reads a setting. -/
def setting : Decoder Setting := fun n =>
  match Setting.ofNode? n with
  | some s => .ok s
  | none => .error (.noAlternative .setting)

/-! ### Records -/

/-- How a record is read: its fields in order, and what each of them does to a record that holds
the fields read before. -/
structure Record (α : Type) where
  name : RecordName
  fields : List String
  /-- Whether fields that the record does not have are skipped. -/
  skipsUnknown : Bool
  /-- The fields that have to be present. -/
  required : List String
  /-- A record without any field. -/
  blank : α
  /-- Reads a field into a record. -/
  read : String → Node → α → Result α

namespace Record

variable {α : Type}

/-- Reads fields in the order of a map, with the names of the fields read before. -/
def readEntries (r : Record α) : List String → α → List (Node × Node) → Result α
  | seen, a, [] =>
    match r.required.find? fun f => !seen.contains f with
    | some f => .error (.missingField f)
    | none => .ok a
  | seen, a, (k, v) :: es => do
    let name ← string k
    if r.fields.contains name then
      if seen.contains name then .error (.duplicateField name)
      else
        let b ← r.read name v a
        readEntries r (name :: seen) b es
    else if r.skipsUnknown then readEntries r seen a es
    else .error (.unknownField name r.fields)

/-- Reads fields in the order of the record. -/
def readItems (r : Record α) : α → List String → List Node → Result α
  | a, name :: names, n :: ns => do
    let b ← r.read name n a
    readItems r b names ns
  | a, _, _ => .ok a

/-- Reads a record: from a map, or where the shape is liberal from a sequence of its fields. -/
def decode (r : Record α) (shape : Shape) : Decoder α
  | .map es => r.readEntries [] r.blank es
  | .tagged (.map es) => r.readEntries [] r.blank es
  | .seq ns =>
    match shape with
    | .plain => refuse (.record r.name) (.seq ns)
    | .liberal => do
      let a ← r.readItems r.blank r.fields ns
      match r.required.find? fun f => !(r.fields.take ns.length).contains f with
      | some _ => .error (.tooShort ns.length r.name r.fields.length)
      | none => if r.fields.length < ns.length then .error (.tooLong ns.length) else return a
  | .scalar s =>
    if s.isEmpty then r.readEntries [] r.blank [] else refuse (.record r.name) (.scalar s)
  | n => refuse (.record r.name) n

end Record

end LintConfig.Decode
