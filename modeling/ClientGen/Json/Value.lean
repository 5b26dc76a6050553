import ClientGen.Json.Number
import ClientGen.Json.Node
import ClientGen.Table

/-!
# JSON values

Values as data, and their text. `Value.compact` writes a value without blanks, `Value.pretty` with
two blanks per level; members are written in the order in which the value holds them.

* `quoteChars` writes a string with the escapes that JSON requires and no others.
* `Value.ofNode` reads a free value: nothing about its form is expected, the members of an object
  are put in the order of their names, and the last of several members with one name counts.
-/

namespace ClientGen.Json

/-- A JSON value. -/
inductive Value where
  | null
  | bool (value : Bool)
  | number (value : Number)
  | text (value : String)
  | array (items : List Value)
  | object (members : List (String × Value))
  deriving Repr, Inhabited

/-! ## Writing -/

/-- The lower-case hexadecimal digit of a number below 16. -/
def hexDigit (n : Nat) : Char :=
  if n < 10 then Char.ofNat ('0'.toNat + n) else Char.ofNat ('a'.toNat + (n - 10))

/-- A character inside quotes: quote, backslash and everything below U+0020 are escaped. -/
def escapeChar (c : Char) : List Char :=
  match c with
  | '"' => ['\\', '"']
  | '\\' => ['\\', '\\']
  | '\x08' => ['\\', 'b']
  | '\x0c' => ['\\', 'f']
  | '\n' => ['\\', 'n']
  | '\r' => ['\\', 'r']
  | '\t' => ['\\', 't']
  | c =>
    if c.toNat < 0x20 then
      ['\\', 'u', '0', '0', hexDigit (c.toNat / 16), hexDigit (c.toNat % 16)]
    else [c]

/-- A string in quotes. -/
def quoteChars (s : List Char) : List Char := '"' :: s.flatMap escapeChar ++ ['"']

/-- A string in quotes. -/
def quote (s : String) : String := String.ofList (quoteChars s.toList)

mutual

/-- The text of a value without blanks. -/
def Value.compactChars : Value → List Char
  | .null => ['n', 'u', 'l', 'l']
  | .bool true => ['t', 'r', 'u', 'e']
  | .bool false => ['f', 'a', 'l', 's', 'e']
  | .number n => n.render.toList
  | .text s => quoteChars s.toList
  | .array [] => ['[', ']']
  | .array (v :: vs) => '[' :: v.compactChars ++ Value.compactItems vs ++ [']']
  | .object [] => ['{', '}']
  | .object ((k, v) :: ms) =>
    '{' :: quoteChars k.toList ++ ':' :: v.compactChars ++ Value.compactMembers ms ++ ['}']
termination_by structural v => v

/-- The items after the first, each with its comma. -/
def Value.compactItems : List Value → List Char
  | [] => []
  | v :: vs => ',' :: v.compactChars ++ Value.compactItems vs
termination_by structural vs => vs

/-- The members after the first, each with its comma. -/
def Value.compactMembers : List (String × Value) → List Char
  | [] => []
  | (k, v) :: ms =>
    ',' :: quoteChars k.toList ++ ':' :: v.compactChars ++ Value.compactMembers ms
termination_by structural ms => ms

end

/-- The text of a value without blanks. -/
def Value.compact (v : Value) : String := String.ofList v.compactChars

/-- A line break followed by two blanks per level. -/
def newLine (level : Nat) : List Char := '\n' :: List.replicate (2 * level) ' '

mutual

/-- The text of a value over several lines, from a given level of indentation on. -/
def Value.prettyChars : Value → Nat → List Char
  | .null, _ => ['n', 'u', 'l', 'l']
  | .bool true, _ => ['t', 'r', 'u', 'e']
  | .bool false, _ => ['f', 'a', 'l', 's', 'e']
  | .number n, _ => n.render.toList
  | .text s, _ => quoteChars s.toList
  | .array [], _ => ['[', ']']
  | .array (v :: vs), level =>
    '[' :: newLine (level + 1) ++ v.prettyChars (level + 1) ++ Value.prettyItems vs (level + 1) ++
      newLine level ++ [']']
  | .object [], _ => ['{', '}']
  | .object ((k, v) :: ms), level =>
    '{' :: newLine (level + 1) ++ quoteChars k.toList ++
      ':' :: ' ' :: v.prettyChars (level + 1) ++
      Value.prettyMembers ms (level + 1) ++ newLine level ++ ['}']
termination_by structural v => v

/-- The items after the first, each on a line of its own. -/
def Value.prettyItems : List Value → Nat → List Char
  | [], _ => []
  | v :: vs, level => ',' :: newLine level ++ v.prettyChars level ++ Value.prettyItems vs level
termination_by structural vs => vs

/-- The members after the first, each on a line of its own. -/
def Value.prettyMembers : List (String × Value) → Nat → List Char
  | [], _ => []
  | (k, v) :: ms, level =>
    ',' :: newLine level ++ quoteChars k.toList ++ ':' :: ' ' :: v.prettyChars level ++
      Value.prettyMembers ms level
termination_by structural ms => ms

end

/-- The text of a value over several lines. -/
def Value.pretty (v : Value) : String := String.ofList (v.prettyChars 0)

/-! ## Reading free values -/

/-- Puts a member in the order of names; a member of the same name is replaced. -/
def putSorted (name : String) (value : Value) : List (String × Value) → List (String × Value)
  | [] => [(name, value)]
  | (n, v) :: ms =>
    if name = n then (name, value) :: ms
    else if name < n then (name, value) :: (n, v) :: ms
    else (n, v) :: putSorted name value ms

/-- The members in the order of their names, the last of several with one name. -/
def sortMembers (members : List (String × Value)) : List (String × Value) :=
  members.foldl (fun ms member => putSorted member.1 member.2 ms) []

/-- Refuses an array or object that is cut off. -/
def Ending.check : Ending → Except Fault Unit
  | .closed => .ok ()
  | .cut strict _ => .error strict

/-- Refuses a key whose surrogates do not pair. -/
def checkKey : Option String → Except Fault String
  | some key => .ok key
  | none => .error .malformed

/-- Reads a free value. No more than `room` arrays and objects may be open inside each other. -/
def Value.ofNode (room : Nat) (node : Node) : Except Fault Value :=
  match node with
  | .null => .ok .null
  | .bool b => .ok (.bool b)
  | .number n =>
    match n.value? with
    | some v => .ok (.number v)
    | none => .error .malformed
  | .text (some s) => .ok (.text s)
  | .text none => .error .malformed
  | .broken strict _ => .error strict
  | .array items ending =>
    match room with
    | 0 => .error .malformed
    | room + 1 => do
      let values ← items.mapM (Value.ofNode room)
      ending.check
      return .array values
  | .object members ending =>
    match room with
    | 0 => .error .malformed
    | room + 1 => do
      let members ← members.mapM fun (key, node) => do
        let key ← checkKey key
        return (key, ← Value.ofNode room node)
      ending.check
      return .object (sortMembers members)
termination_by structural room

end ClientGen.Json
