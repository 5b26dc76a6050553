import ClientGen.Json.Token

/-!
# What a JSON text says, as far as it can be read

`parse` turns the tokens of a text into a `Node`. It never fails either: a node that the text does
not complete records the fault that cuts it off. Whoever reads the nodes in text order therefore
meets the faults of the text and the mismatches of its own in one order, the order of the text.
-/

namespace ClientGen.Json

/-- How an array or an object ends. -/
inductive Ending where
  /-- with its closing bracket -/
  | closed
  /-- cut off, with the fault for readers and the fault for those who skip it -/
  | cut (strict lenient : Fault)
  deriving DecidableEq, Repr

/-- A value as written, complete or cut off. -/
inductive Node where
  | null
  | bool (value : Bool)
  | number (numeral : Numeral)
  /-- a string; `none` when a surrogate escape stands alone in it -/
  | text (content : Option String)
  | array (items : List Node) (ending : Ending)
  /-- members in text order, keys as strings are -/
  | object (members : List (Option String × Node)) (ending : Ending)
  /-- no value can be read here -/
  | broken (strict lenient : Fault)
  deriving Repr, Inhabited

/-- An array or object that is still open. -/
inductive Frame where
  /-- the items so far, in reverse -/
  | array (items : List Node)
  /-- the members so far, in reverse, and the key whose value is being read -/
  | object (members : List (Option String × Node)) (key : Option String)

/-- What may come next. -/
inductive Expected where
  /-- a value -/
  | value
  /-- a value or the end of an array just opened -/
  | firstItem
  /-- a key or the end of an object just opened -/
  | firstKey
  /-- a key -/
  | key
  /-- the colon after a key -/
  | colon
  /-- a comma or the end of the innermost array or object -/
  | next
  deriving DecidableEq, Repr

/-- The frame with one more value. -/
def Frame.push (node : Node) : Frame → Frame
  | .array items => .array (node :: items)
  | .object members key => .object ((key, node) :: members) none

/-- The node of a frame that ends here. -/
def Frame.close (ending : Ending) : Frame → Node
  | .array items => .array items.reverse ending
  | .object members _ => .object members.reverse ending

/-- The outermost node when the text is cut off inside `node`, the innermost one. -/
def unwind (strict lenient : Fault) : List Frame → Node → Node
  | [], node => node
  | frame :: stack, node =>
    unwind strict lenient stack ((frame.push node).close (.cut strict lenient))

/-- The outermost node when no value can be read where one must stand. -/
def breakValue (strict lenient : Fault) (stack : List Frame) : Node :=
  unwind strict lenient stack (.broken strict lenient)

/-- The outermost node when the innermost array or object is cut off between its values. -/
def breakFrame (strict lenient : Fault) : List Frame → Node
  | [] => .broken strict lenient
  | frame :: stack => unwind strict lenient stack (frame.close (.cut strict lenient))

/-- The outermost node when the tokens run out. -/
def breakEnd (stack : List Frame) : Expected → Node
  | .value | .colon => breakValue .endOfText .endOfText stack
  | .firstItem | .firstKey | .key | .next => breakFrame .endOfText .endOfText stack

/-- The node of a token that is a whole value. -/
def Token.scalar? : Token → Option Node
  | .null => some .null
  | .bool b => some (.bool b)
  | .number n => some (.number n)
  | .text s => some (.text s)
  | _ => none

/-- What a token does to the open frames. -/
inductive Move where
  /-- go on -/
  | go (stack : List Frame) (expected : Expected)
  /-- the outermost value is complete, or cut off -/
  | done (node : Node)

/-- A value is complete. -/
def Move.complete (node : Node) : List Frame → Move
  | [] => .done node
  | frame :: stack => .go (frame.push node :: stack) .next

/-- A token where a value must stand. -/
def Move.value (stack : List Frame) (token : Token) : Move :=
  match token.scalar? with
  | some node => .complete node stack
  | none =>
    match token with
    | .openArray => .go (.array [] :: stack) .firstItem
    | .openObject => .go (.object [] none :: stack) .firstKey
    | .broken _ strict lenient => .done (breakValue strict lenient stack)
    | _ => .done (breakValue .malformed .malformed stack)

/-- A token where a key must stand. -/
def Move.key (stack : List Frame) (token : Token) : Move :=
  match token, stack with
  | .text content, .object members _ :: stack => .go (.object members content :: stack) .colon
  | .broken true strict lenient, _ => .done (breakFrame strict lenient stack)
  | _, _ => .done (breakFrame .malformed .malformed stack)

/-- A token between the values of the innermost frame. -/
def Move.next (stack : List Frame) (token : Token) : Move :=
  match token, stack with
  | .comma, .array _ :: _ => .go stack .value
  | .comma, .object _ _ :: _ => .go stack .key
  | .closeArray, .array items :: stack => .complete ((Frame.array items).close .closed) stack
  | .closeObject, .object members key :: stack =>
    .complete ((Frame.object members key).close .closed) stack
  | _, _ => .done (breakFrame .malformed .malformed stack)

/-- One token. -/
def Move.step (stack : List Frame) (expected : Expected) (token : Token) : Move :=
  match expected with
  | .value => .value stack token
  | .firstItem => if token = .closeArray then .next stack token else .value stack token
  | .firstKey => if token = .closeObject then .next stack token else .key stack token
  | .key => .key stack token
  | .colon =>
    if token = .colon then .go stack .value else .done (breakValue .malformed .malformed stack)
  | .next => .next stack token

/-- Reads one value off the tokens; the tokens after it are left. -/
def build : List Frame → Expected → List Token → Node × List Token
  | stack, expected, [] => (breakEnd stack expected, [])
  | stack, expected, token :: tokens =>
    match Move.step stack expected token with
    | .go stack expected => build stack expected tokens
    | .done node => (node, tokens)

/-- What a text says, and the tokens after its value. -/
def parse (s : String) : Node × List Token := build [] .value (tokenize s)

/-- The fault that those who skip a node meet in it. An outer node that is cut off carries the fault
of the inner one. -/
def Node.lenientFault? : Node → Option Fault
  | .broken _ lenient => some lenient
  | .array _ (.cut _ lenient) => some lenient
  | .object _ (.cut _ lenient) => some lenient
  | _ => none

/-- The fault met by a reader who expects another kind of value. A number or string is read to its
end before it is refused; an array or object is refused at its bracket. -/
def Node.refusal : Node → Fault
  | .broken strict _ => strict
  | .number n => if n.value?.isSome then .mismatch else .malformed
  | .text none => .malformed
  | _ => .mismatch

end ClientGen.Json
