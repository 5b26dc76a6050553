import ClientGen.Name.Identifier

/-!
# Names of operations without a name

An operation that has no identifier of its own is named for its method and path: for the method and
the first segment, or for the method and all segments.
-/

namespace ClientGen.Name

/-- A path segment in words; nothing for an empty one. -/
def segmentChars (segment : List Char) : List Char :=
  if segment.isEmpty then []
  else Text.pascalCase ((sanitizeChars segment).dropWhile (· = '_'))

/-- The non-empty segments of a path. -/
def segments (path : List Char) : List (List Char) :=
  (Text.splitOnChar '/' path).filter fun s => !s.isEmpty

/-- Is it a brace? -/
def isBrace (c : Char) : Bool := c = '{' || c = '}'

/-- The parameter that a whole segment stands for. -/
def parameterOf? (segment : List Char) : Option (List Char) :=
  (Text.dropStart? ['{'] segment).bind (Text.dropEnd? ['}'])

/-- Method and first segment: `GET /pets/…` is `GetPets`. -/
def ofFirstSegment (method path : String) : String :=
  let verb := Text.pascalCase (method.toList.map Char.toLower)
  let first := (segments path.toList).headD []
  String.ofList (verb ++ segmentChars (Text.trimBoth isBrace first))

/-- A segment in a name made of all of them: a parameter is introduced by `By`. -/
def routeSegment (segment : List Char) : List Char :=
  match parameterOf? segment with
  | some parameter => 'B' :: 'y' :: segmentChars parameter
  | none => segmentChars segment

/-- Method and all segments: `GET` on `pets` and then a parameter `id` is `getPetsById`. -/
def ofRoute (method path : String) : String :=
  String.ofList (method.toList.map Char.toLower ++ (segments path.toList).flatMap routeSegment)

end ClientGen.Name
