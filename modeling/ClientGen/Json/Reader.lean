import ClientGen.Json.Value

/-!
# Reading values of an expected form

A `Reader` takes a node apart into data of the program. Records are described by their fields, and
may be written in two ways: as an object, or as an array of the fields in their order.

* A member of an object that is no field is skipped; a field given twice is a mismatch.
* In an array, fields that have a default may be missing at the end; more items than fields are
  malformed.
* An *open* record shares its object with a group of keywords that are read after all members
  (`readOpenRecord`). It is always an object, and its other members are read before they are
  dropped.
-/

namespace ClientGen.Json

/-- How many arrays and objects may be open inside each other. -/
def maxDepth : Nat := 127

/-- Reads a node, with the number of arrays and objects that may still be opened. -/
abbrev Reader (α : Type) := (room : Nat) → Node → Except Fault α

namespace Reader

variable {α κ : Type}

/-- A string. -/
def text : Reader String
  | _, .text (some s) => .ok s
  | _, node => .error node.refusal

/-- `true` or `false`. -/
def bool : Reader Bool
  | _, .bool b => .ok b
  | _, node => .error node.refusal

/-- An unsigned 64-bit integer. -/
def natural : Reader Nat
  | _, .number n =>
    match n.value? with
    | none => .error .malformed
    | some v =>
      match v.toNat? with
      | some k => .ok k
      | none => .error .mismatch
  | _, node => .error node.refusal

/-- `null` for nothing. -/
def optional (r : Reader α) : Reader (Option α)
  | _, .null => .ok none
  | room, node => some <$> r room node

/-- An array of values of one form. -/
def list (r : Reader α) : Reader (List α)
  | 0, .array _ _ => .error .malformed
  | room + 1, .array items ending => do
    let values ← items.mapM (r room)
    ending.check
    return values
  | _, node => .error node.refusal

/-- An object with values of one form. -/
def table (r : Reader α) : Reader (Table α)
  | 0, .object _ _ => .error .malformed
  | room + 1, .object members ending => do
    let entries ← members.mapM fun (key, node) => do
      let key ← checkKey key
      return (key, ← r room node)
    ending.check
    return Table.ofEntries entries
  | _, node => .error node.refusal

/-- One of several named cases: the name, or an object that has `null` under the name. -/
def choice (of? : String → Option α) : Reader α
  | _, .text (some name) => named name
  | _, .text none => .error .malformed
  | _, .broken strict _ => .error strict
  | 0, .object _ _ => .error .malformed
  | _ + 1, .object [] ending => do
    ending.check
    throw .malformed
  | _ + 1, .object ((key, node) :: others) ending => do
    let a ← named (← checkKey key)
    match node with
    | .null =>
      if others.isEmpty then
        ending.check
        return a
      else throw .malformed
    | node => throw node.refusal
  | _, _ => .error .malformed
where
  /-- the case of a name -/
  named (name : String) : Except Fault α :=
    match of? name with
    | some a => .ok a
    | none => .error .mismatch

/-- Any value. -/
def value : Reader Value := Value.ofNode

end Reader

/-! ## Records -/

/-- One field of a record of type `α`. -/
structure RecordField (α : Type) where
  /-- the name of the member -/
  name : String
  /-- may an array leave the field out? -/
  defaulted : Bool
  /-- reads the field into a record -/
  read : Nat → Node → α → Except Fault α

namespace RecordField

variable {α β : Type}

/-- A field that may be absent or `null`. -/
def optional (name : String) (r : Reader β) (set : α → Option β → α) : RecordField α where
  name
  defaulted := false
  read room node record := return set record (← Reader.optional r room node)

/-- A field with a value for its absence. -/
def defaulting (name : String) (r : Reader β) (set : α → β → α) : RecordField α where
  name
  defaulted := true
  read room node record := return set record (← r room node)

/-- A field that an array must not leave out. -/
def required (name : String) (r : Reader β) (set : α → β → α) : RecordField α where
  name
  defaulted := false
  read room node record := return set record (← r room node)

end RecordField

variable {α κ : Type}

/-- Checks a node that nobody asks for. -/
def Node.skip (node : Node) : Except Fault Unit :=
  match node.lenientFault? with
  | some fault => .error fault
  | none => .ok ()

/-- Reads the members of an object; `seen` are the fields that were given already. -/
def readMembers (fields : List (RecordField α)) (room : Nat) :
    List (Option String × Node) → List String → α → Except Fault α
  | [], _, record => .ok record
  | (key, node) :: members, seen, record => do
    let key ← checkKey key
    match fields.find? (·.name = key) with
    | none =>
      node.skip
      readMembers fields room members seen record
    | some field =>
      if key ∈ seen then throw .mismatch
      let record ← field.read room node record
      readMembers fields room members (key :: seen) record

/-- Reads the items of an array as the fields of a record. -/
def readItems (room : Nat) (ending : Ending) :
    List (RecordField α) → List Node → α → Except Fault α
  | [], [], record => do
    ending.check
    return record
  | [], _ :: _, _ => .error .malformed
  | field :: fields, [], record => do
    ending.check
    if field.defaulted then readItems room ending fields [] record else throw .mismatch
  | field :: fields, node :: nodes, record => do
    let record ← field.read room node record
    readItems room ending fields nodes record

/-- Reads a record over the record of defaults. -/
def readRecord (fields : List (RecordField α)) (initial : α) : Reader α
  | 0, .object _ _ => .error .malformed
  | 0, .array _ _ => .error .malformed
  | room + 1, .object members ending => do
    let record ← readMembers fields room members [] initial
    ending.check
    return record
  | room + 1, .array items ending => readItems room ending fields items initial
  | _, node => .error node.refusal

/-! ## Open records -/

/-- A keyword of a group of type `κ`; `none` when its value does not fit. -/
structure Keyword (κ : Type) where
  /-- the name of the member -/
  name : String
  /-- reads the value into the group -/
  read : Value → κ → Option κ

namespace Keyword

variable {β : Type}

/-- A keyword that may be `null` for nothing. -/
def optional (name : String) (of? : Value → Option β) (set : κ → Option β → κ) : Keyword κ where
  name
  read value group :=
    match value with
    | .null => some (set group none)
    | value => (of? value).map fun b => set group (some b)

end Keyword

/-- Reads the members of an open record. What is no field is kept, to look for keywords in it. -/
def readOpenMembers (fields : List (RecordField α)) (room : Nat) :
    List (Option String × Node) → List String → List (String × Value) → α →
      Except Fault (α × List (String × Value))
  | [], _, others, record => .ok (record, others.reverse)
  | (key, node) :: members, seen, others, record => do
    let key ← checkKey key
    match fields.find? (·.name = key) with
    | none =>
      let value ← Value.ofNode room node
      readOpenMembers fields room members seen ((key, value) :: others) record
    | some field =>
      if key ∈ seen then throw .mismatch
      let record ← field.read room node record
      readOpenMembers fields room members (key :: seen) others record

/-- Reads the keywords among the other members of an open record. -/
def readKeywords (keywords : List (Keyword κ)) :
    List (String × Value) → List String → κ → Except Fault κ
  | [], _, group => .ok group
  | (key, value) :: others, seen, group =>
    match keywords.find? (·.name = key) with
    | none => readKeywords keywords others seen group
    | some keyword => do
      if key ∈ seen then throw .mismatch
      match keyword.read value group with
      | some group => readKeywords keywords others (key :: seen) group
      | none => throw .mismatch

/-- Reads an open record with its group of keywords. -/
def readOpenRecord (fields : List (RecordField α)) (keywords : List (Keyword κ)) (initial : α)
    (group : κ) (join : α → κ → α) : Reader α
  | 0, .object _ _ => .error .malformed
  | room + 1, .object members ending => do
    let (record, others) ← readOpenMembers fields room members [] [] initial
    ending.check
    let group ← readKeywords keywords others [] group
    return join record group
  | _, node => .error node.refusal

/-- Reads a whole text. -/
def decode (r : Reader α) (s : String) : Except Fault α := do
  let (node, rest) := parse s
  let a ← r maxDepth node
  if rest.isEmpty then return a else throw .malformed

end ClientGen.Json
