import ClientGen.Yaml.Scalar

/-!
# Reading YAML

`Yaml.ofText?` reads a plain document: at most one document in a text, with blocks that are shaped
by indentation, collections in brackets, scalars in plain style or in quotes, and comments. Tags,
anchors, directives, marked keys and scalars in blocks are not understood.

Blocks are read by column. `margin` is the least column that what belongs to the surrounding block
may start at; a sequence that is the value of a key may also start at the column of the key.
-/

namespace ClientGen.Yaml

/-! ## Brackets -/

mutual

/-- A value inside brackets, with the cursor on it. -/
def flowNode (margin : Nat) : (fuel : Nat) → Cursor → Option (Yaml × Cursor)
  | 0, _ => none
  | fuel + 1, c =>
    match c.rest.head? with
    | some '[' => do
      let (items, final) ← flowItems margin fuel (c.next.skip true true)
      return (.sequence items, final)
    | some '{' => do
      let (entries, final) ← flowEntries margin fuel (c.next.skip true true)
      return (.mapping entries, final)
    | some '\x27' => quoted true c
    | some '"' => quoted false c
    | _ => plain true margin c

/-- What follows a key inside brackets: its value, or nothing. -/
def flowValue (margin : Nat) : (fuel : Nat) → Cursor → Option (Yaml × Cursor)
  | 0, _ => none
  | fuel + 1, c =>
    match c.rest.head? with
    | some ',' | some ']' | some '}' => some (.empty, c)
    | _ => flowNode margin fuel c

/-- The items up to the closing bracket. A key with its value is a mapping of its own. -/
def flowItems (margin : Nat) : (fuel : Nat) → Cursor → Option (List Yaml × Cursor)
  | 0, _ => none
  | fuel + 1, c =>
    if c.rest.head? = some ']' then some ([], c.next)
    else do
      let (node, after) ← flowNode margin fuel c
      let after := after.skip true true
      let (item, after) ←
        if after.rest.head? = some ':' then do
          let (value, final) ← flowValue margin fuel (after.next.skip true true)
          pure (.mapping [(node, value)], final.skip true true)
        else pure (node, after)
      match after.rest.head? with
      | some ',' =>
        let (items, final) ← flowItems margin fuel (after.next.skip true true)
        return (item :: items, final)
      | some ']' => return ([item], after.next)
      | _ => none

/-- The entries up to the closing brace. -/
def flowEntries (margin : Nat) : (fuel : Nat) → Cursor → Option (List (Yaml × Yaml) × Cursor)
  | 0, _ => none
  | fuel + 1, c =>
    if c.rest.head? = some '}' then some ([], c.next)
    else do
      let (key, after) ← flowNode margin fuel c
      let after := after.skip true true
      let (value, after) ←
        if after.rest.head? = some ':' then do
          let (value, final) ← flowValue margin fuel (after.next.skip true true)
          pure (value, final.skip true true)
        else pure (.empty, after)
      match after.rest.head? with
      | some ',' =>
        let (entries, final) ← flowEntries margin fuel (after.next.skip true true)
        return ((key, value) :: entries, final)
      | some '}' => return ([(key, value)], after.next)
      | _ => none

end

/-! ## Blocks -/

/-- A scalar or a collection in brackets. -/
def leaf (margin : Nat) (c : Cursor) : Option (Yaml × Cursor) :=
  match c.rest.head? with
  | some '[' | some '{' => flowNode margin (2 * c.rest.length + 2) c
  | some '\x27' => quoted true c
  | some '"' => quoted false c
  | _ => plain false margin c

/-- The cursor after the colon that makes a leaf a key. The leaf and the colon must be on one
line. -/
def afterColon? (start final : Cursor) : Option Cursor :=
  let c := final.skip false true
  if start.line = c.line && c.atIndicator ':' then some c.next else none

mutual

/-- A value that starts at the cursor. `keys` says whether a collection may start here. -/
def blockNode : (fuel : Nat) → (keys : Bool) → (margin : Nat) → Cursor → Option (Yaml × Cursor)
  | 0, _, _, _ => none
  | fuel + 1, keys, margin, c =>
    if c.atIndicator '-' then
      if keys then do
        let (items, final) ← blockItems fuel c.column false c
        return (.sequence items, final)
      else none
    else do
      let (node, final) ← leaf margin c
      match afterColon? c final with
      | some after =>
        if keys then
          let (entries, final) ← blockEntries fuel c.column node after
          return (.mapping entries, final)
        else none
      | none => return (node, final)

/-- The items of a sequence, with the cursor at the dash of the first one. A sequence at the column
of a key ends where the next key starts. -/
def blockItems : (fuel : Nat) → (column : Nat) → (shared : Bool) → Cursor →
    Option (List Yaml × Cursor)
  | 0, _, _, _ => none
  | fuel + 1, column, shared, c => do
    let dash := c.next
    let start := dash.skip false false
    let (item, final) ←
      if start.atEnd || (start.line ≠ dash.line && start.column ≤ column) then
        pure (.empty, dash)
      else blockNode fuel true (column + 1) start
    let following := final.skip false true
    if following.atEnd || (following.line ≠ final.line && following.column < column) then
      return ([item], final)
    if following.line = final.line || following.column ≠ column then none
    if following.atIndicator '-' then
      let (items, final) ← blockItems fuel column shared following
      return (item :: items, final)
    if shared then return ([item], final) else none

/-- The entries of a mapping, with the cursor after the colon of the first key. -/
def blockEntries : (fuel : Nat) → (column : Nat) → (key : Yaml) → Cursor →
    Option (List (Yaml × Yaml) × Cursor)
  | 0, _, _, _ => none
  | fuel + 1, column, key, c => do
    let start := c.skip false true
    let (value, final) ←
      if start.atEnd then pure (.empty, c)
      else if start.line = c.line then blockNode fuel false (column + 1) start
      else if column < start.column then blockNode fuel true (column + 1) start
      else if start.column = column && start.atIndicator '-' then do
        let (items, final) ← blockItems fuel column true start
        pure (.sequence items, final)
      else pure (.empty, c)
    let following := final.skip false true
    if following.atEnd || (following.line ≠ final.line && following.column < column) then
      return ([(key, value)], final)
    if following.line = final.line || following.column ≠ column then none
    let (nextKey, afterKey) ← leaf (column + 1) following
    let after ← afterColon? following afterKey
    let (entries, final) ← blockEntries fuel column nextKey after
    return ((key, value) :: entries, final)

end

/-! ## Documents -/

/-- Nothing but the end of the document may follow, and no other document. -/
def endsAt (c : Cursor) : Bool :=
  let stop := c.skip false true
  if stop.rest.isEmpty then true
  else if stop.atMarker '.' then ((stop.advance 3).skip false true).rest.isEmpty
  else false

/-- Reads a text. -/
def ofText? (text : String) : Option Yaml := do
  let c ← Cursor.ofText? text
  let fuel := 2 * c.rest.length + 4
  let start := c.skip false false
  let (node, final) ←
    if start.atMarker '-' then
      let mark := start.advance 3
      let start := mark.skip false true
      if start.atEnd then pure (.empty, mark)
      else blockNode fuel (start.line ≠ mark.line) 0 start
    else if start.atEnd then pure (.empty, start)
    else blockNode fuel true 0 start
  if endsAt final then return node else none

end ClientGen.Yaml
