import ClientGen.Resolve.Schema

/-!
# Parameters and responses out of their objects

A parameter or response may refer to a shared one by name; anything else is classified in place. The
shared ones themselves cannot be references.
-/

namespace ClientGen

/-- A field that must be there. -/
def require {α : Type} (field : String) : Option α → Resolve α
  | some a => return a
  | none => throw (.missingField field)

/-- The entry of a pool that a reference names: `start` followed by the name. -/
def sharedEntry? {α : Type} (start : String) (pool : Table α) (reference : String) : Option α :=
  (Text.dropStart? start.toList reference.toList).bind fun name => pool.get? (String.ofList name)

/-- How the values of an array are put together; with commas unless it is said. -/
def resolveCollectionFormat (path : String) : Option String → Resolve CollectionFormat
  | none => return .csv
  | some name =>
    match CollectionFormat.ofName? name with
    | some format => return format
    | none => throw (.invalidField (path ++ ".collectionFormat") (.unknownCollectionFormat name))

namespace ParameterObject

/-- The value of a parameter outside the body. -/
def resolveValue (p : ParameterObject) (path : String) : Resolve SimpleValue := do
  let type ← require (path ++ ".type") p.type
  if type = "array" then
    let items ← require (path ++ ".items") p.items
    let format ← resolveCollectionFormat path p.collectionFormat
    let items ← items.resolve (path ++ ".items")
    return .array items p.description p.validation.resolve format
  else
    match PrimitiveKind.ofName? type with
    | some kind =>
      SimpleValue.primitive <$>
        kind.resolve path p.format p.description p.validation p.enum p.default
    | none => throw (.invalidField (path ++ ".type") (.unknownParameterType type))

/-- The schema of a body parameter; a string unless it is said. -/
def resolveBody (p : ParameterObject) (path : String) : Resolve Schema :=
  match p.schema with
  | some schema => schema.resolve (path ++ ".schema")
  | none => do
    Checked.warn (.bodyWithoutSchema path)
    return .string

/-- What a parameter carries at a location. -/
def resolvePayload (p : ParameterObject) (path : String) : Location → Resolve Payload
  | .body => Payload.body <$> p.resolveBody path
  | .formData => (fun value => Payload.formData value.schema) <$> p.resolveValue path
  | .path => Payload.path <$> p.resolveValue path
  | .query => Payload.query <$> p.resolveValue path
  | .header => Payload.header <$> p.resolveValue path

/-- A parameter that is no reference. Path parameters are always required. -/
def resolveOwn (p : ParameterObject) (path : String) : Resolve Parameter := do
  let name ← require (path ++ ".name") p.name
  let path := path ++ "(" ++ name ++ ")"
  let locationName ← require (path ++ ".in") p.location
  match Location.ofName? locationName with
  | none => throw (.invalidField (path ++ ".in") (.unknownLocation locationName))
  | some location =>
    let payload ← p.resolvePayload path location
    return ⟨name, p.description, location = .path || p.required.getD false, payload⟩

/-- A parameter, looked up in the pool if it is a reference. -/
def resolve (p : ParameterObject) (pool : Table Parameter) (path : String) : Resolve Parameter :=
  match p.reference with
  | some reference =>
    match sharedEntry? "#/parameters/" pool reference with
    | some shared => return shared
    | none => throw (.unresolvedParameter reference)
  | none => p.resolveOwn path

end ParameterObject

/-- The shared parameters. -/
def resolveParameterPool (pool : Table ParameterObject) : Resolve (Table Parameter) :=
  pool.mapM fun (name, p) => do
    let path := "parameters." ++ name
    if p.reference.isSome then throw (.invalidField (path ++ ".$ref") .sharedParameter)
    return (name, ← p.resolve [] path)

/-- The parameters of a list, each at its place. -/
def resolveParameters (pool : Table Parameter) (path : String) (ps : List ParameterObject) :
    Resolve (List Parameter) :=
  ps.zipIdx.mapM fun (p, i) => p.resolve pool (path ++ ".parameters[" ++ toString i ++ "]")

namespace ResponseObject

/-- A response that is no reference. -/
def resolveOwn (r : ResponseObject) (status : Status) (path : String) : Resolve Response := do
  let description ← require (path ++ ".description") r.description
  let schema ← r.schema.mapM fun schema => schema.resolve (path ++ ".schema")
  let headers ← r.headers.mapM fun (name, header) => do
    return (name, ← header.resolve (path ++ ".headers." ++ name))
  return ⟨status, description, schema, headers, r.examples⟩

/-- A response, looked up in the pool if it is a reference. -/
def resolve (r : ResponseObject) (status : Status) (pool : Table Response) (path : String) :
    Resolve Response :=
  match r.reference with
  | some reference =>
    match sharedEntry? "#/responses/" pool reference with
    | some shared => return { shared with status }
    | none => throw (.unresolvedResponse reference)
  | none => r.resolveOwn status path

end ResponseObject

/-- The shared responses; they have no code of their own. -/
def resolveResponsePool (pool : Table ResponseObject) : Resolve (Table Response) :=
  pool.mapM fun (name, r) => do
    let path := "responses." ++ name
    if r.reference.isSome then throw (.invalidField (path ++ ".$ref") .sharedResponse)
    return (name, ← r.resolve .default [] path)

end ClientGen
