import ClientGen.Name.Identifier

/-!
# Type names out of document text

`normalize` turns the name of a definition or a title into a type name of a target language. White
space is removed, `Page[Pet]` is flattened to `PageOfPet`, the rest is sanitized, and `object` in
any case is the target's own name for any value.
-/

namespace ClientGen.Name

/-- `Outer[Inner]rest` becomes `OuterOfInnerrest`: the first opening bracket is matched with the
last closing one. `none` when there is nothing between them. -/
def collapse? (s : List Char) : Option (List Char) :=
  let before := s.takeWhile (· ≠ '[')
  match s.dropWhile (· ≠ '[') with
  | [] => none
  | _ :: rest =>
    let after := (rest.reverse.takeWhile (· ≠ ']')).reverse
    match rest.reverse.dropWhile (· ≠ ']') with
    | [] => none
    | _ :: inner =>
      if inner.isEmpty then none else some (before ++ ['O', 'f'] ++ inner.reverse ++ after)

/-- Collapses brackets at most `fuel` times. -/
def collapseUpTo : (fuel : Nat) → List Char → List Char
  | 0, s => s
  | fuel + 1, s =>
    match collapse? s with
    | some s => collapseUpTo fuel s
    | none => s

/-- Collapses brackets as long as there are any to collapse. Each collapse removes an opening
bracket. -/
def collapseAll (s : List Char) : List Char := collapseUpTo (s.count '[') s

/-- The text of `object`, the name that any value goes by in documents. -/
def objectName : List Char := ['o', 'b', 'j', 'e', 'c', 't']

/-- A type name, for a target language where any value has the type `any`. -/
def normalizeChars (any raw : List Char) : List Char :=
  let name := sanitizeChars (collapseAll (raw.filter fun c => !Text.isBlank c))
  if name.map Char.toLower = objectName then any else name

/-- A type name, for a target language where any value has the type `any`. -/
def normalize (any raw : String) : String :=
  String.ofList (normalizeChars any.toList raw.toList)

/-- Does the name stand for any value? -/
def isAny (any raw : String) : Bool := normalize any raw = any

/-- A name with dots, each part normalized; parts without content are dropped. -/
def normalizePath (any raw : String) : String :=
  let parts := (Text.splitOnChar '.' raw.toList).filter fun part => !Text.isAllBlank part
  if parts.isEmpty then normalize any raw
  else String.ofList (List.intercalate ['.'] (parts.map (normalizeChars any.toList)))

/-- The definition that a reference `#/definitions/…` names. -/
def definition? (reference : String) : Option String :=
  match Text.dropStart? "#/definitions/".toList reference.toList with
  | some (c :: name) => some (String.ofList (c :: name))
  | _ => none

end ClientGen.Name
