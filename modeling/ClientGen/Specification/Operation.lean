import ClientGen.Schema.Shape

/-!
# Operations

Methods, parameters, responses and the operations made of them.

* `PathItem.effectiveParameters` merges the parameters of a path with those of an operation.
* `Operation.canonicalSuccess?` is the response that decides the type of a successful call.
* `Operation.successAmbiguity` lists the other successes that would decide otherwise.
-/

namespace ClientGen

/-- The methods that a path can have operations for. -/
inductive Method where
  | get
  | put
  | post
  | delete
  | options
  | head
  | patch
  deriving DecidableEq, Repr, Inhabited

namespace Method

/-- All methods, in the order in which operations are listed. -/
def all : List Method := [.get, .put, .post, .delete, .options, .head, .patch]

/-- `GET`, `POST`, … -/
def upper : Method → String
  | .get => "GET"
  | .put => "PUT"
  | .post => "POST"
  | .delete => "DELETE"
  | .options => "OPTIONS"
  | .head => "HEAD"
  | .patch => "PATCH"

/-- `get`, `post`, … -/
def lower : Method → String
  | .get => "get"
  | .put => "put"
  | .post => "post"
  | .delete => "delete"
  | .options => "options"
  | .head => "head"
  | .patch => "patch"

/-- `Get`, `Post`, … -/
def pascal : Method → String
  | .get => "Get"
  | .put => "Put"
  | .post => "Post"
  | .delete => "Delete"
  | .options => "Options"
  | .head => "Head"
  | .patch => "Patch"

/-- Do requests of this method carry a body? -/
def hasBody : Method → Bool
  | .put | .post | .patch => true
  | _ => false

end Method

/-! ## Parameters -/

/-- Where a parameter travels. -/
inductive Location where
  | path
  | query
  | header
  | body
  | formData
  deriving DecidableEq, Repr, Inhabited

/-- The name of a location in documents. -/
def Location.name : Location → String
  | .path => "path"
  | .query => "query"
  | .header => "header"
  | .body => "body"
  | .formData => "formData"

/-- The location of a name. -/
def Location.ofName? : String → Option Location
  | "path" => some .path
  | "query" => some .query
  | "header" => some .header
  | "body" => some .body
  | "formData" => some .formData
  | _ => none

/-- How the values of an array are put together. -/
inductive CollectionFormat where
  | csv
  | ssv
  | tsv
  | pipes
  /-- the name is repeated for each value -/
  | multi
  deriving DecidableEq, Repr, Inhabited

/-- The format of a name. -/
def CollectionFormat.ofName? : String → Option CollectionFormat
  | "csv" => some .csv
  | "ssv" => some .ssv
  | "tsv" => some .tsv
  | "pipes" => some .pipes
  | "multi" => some .multi
  | _ => none

/-- What stands between the values, unless the name is repeated. -/
def CollectionFormat.separator? : CollectionFormat → Option String
  | .csv => some ","
  | .ssv => some " "
  | .tsv => some "\t"
  | .pipes => some "|"
  | .multi => none

/-- The value of a parameter outside the body. -/
inductive SimpleValue where
  | primitive (value : Primitive)
  | array (items : Schema) (description : Option String) (constraints : Constraints)
      (format : CollectionFormat)
  deriving Repr

/-- The value as a schema. -/
def SimpleValue.schema : SimpleValue → Schema
  | .primitive p => .primitive p
  | .array items description constraints _ => .array items description constraints

/-- The default, which arrays do not have. -/
def SimpleValue.default? : SimpleValue → Option Literal
  | .primitive p => p.default
  | .array _ _ _ _ => none

/-- What a parameter carries, by location. -/
inductive Payload where
  | path (value : SimpleValue)
  | query (value : SimpleValue)
  | header (value : SimpleValue)
  | body (schema : Schema)
  | formData (schema : Schema)
  deriving Repr

/-- A parameter. -/
structure Parameter where
  name : String
  description : Option String
  required : Bool
  payload : Payload
  deriving Repr

namespace Parameter

/-- Where the parameter travels. -/
def location (p : Parameter) : Location :=
  match p.payload with
  | .path _ => .path
  | .query _ => .query
  | .header _ => .header
  | .body _ => .body
  | .formData _ => .formData

/-- The schema of what the parameter carries. -/
def schema (p : Parameter) : Schema :=
  match p.payload with
  | .path v | .query v | .header v => v.schema
  | .body s | .formData s => s

/-- The value, for parameters outside the body. -/
def simpleValue? (p : Parameter) : Option SimpleValue :=
  match p.payload with
  | .path v | .query v | .header v => some v
  | .body _ | .formData _ => none

/-- Does the parameter travel in the body? -/
def isBody (p : Parameter) : Bool := p.simpleValue?.isNone

end Parameter

/-! ## Responses -/

/-- The key of a response. -/
inductive Status where
  /-- a status code -/
  | code (value : Nat)
  /-- any other code -/
  | default
  deriving DecidableEq, Repr, Inhabited

namespace Status

/-- The code, if it is one. -/
def code? : Status → Option Nat
  | .code n => some n
  | .default => none

/-- A code from 200 to 299. -/
def isSuccess : Status → Bool
  | .code n => 200 ≤ n && n ≤ 299
  | .default => false

/-- The key as written. -/
def text : Status → String
  | .code n => toString n
  | .default => "default"

end Status

/-- A response. -/
structure Response where
  status : Status
  description : String
  schema : Option Schema
  headers : Table Schema
  /-- examples by media type -/
  examples : Table Json.Value
  deriving Repr

/-- The shape of what is sent back, if anything is. -/
def Response.shape? (r : Response) : Option String := r.schema.map Schema.shape

/-- A link to more documentation. -/
structure ExternalDocs where
  url : String
  description : Option String
  deriving DecidableEq, Repr

/-- A security scheme with the scopes that are required of it. -/
structure Requirement where
  name : String
  scopes : List String
  deriving DecidableEq, Repr

/-- One method's work on a path. -/
structure Operation where
  method : Method
  path : String
  operationId : Option String
  summary : Option String
  description : Option String
  tags : List String
  /-- the operation's own media types, or those of the document -/
  consumes : List String
  /-- the operation's own media types, or those of the document -/
  produces : List String
  parameters : List Parameter
  /-- in the order of the document -/
  responses : List Response
  /-- the operation's own requirements, or those of the document -/
  security : List Requirement
  /-- does a requirement ask for an OAuth token? -/
  oauthSecured : Bool
  deprecated : Bool
  externalDocs : Option ExternalDocs
  deriving Repr

namespace Operation

/-- The operation in messages. -/
def label (op : Operation) : String :=
  match op.operationId with
  | some id => id
  | none => op.method.upper ++ " " ++ op.path

/-- The operation in the context of an error. -/
def context (op : Operation) : String := "operation `" ++ op.label ++ "`"

/-- The responses with a code, in order. -/
def codedResponses (op : Operation) : List (Nat × Response) :=
  op.responses.filterMap fun r => r.status.code?.map ((·, r))

/-- The responses with a success code. -/
def successes (op : Operation) : List Response := op.responses.filter (·.status.isSuccess)

/-- The first of the responses with the lowest code. -/
def lowest : Response → List Response → Response
  | best, [] => best
  | best, r :: rs =>
    lowest (if r.status.code?.getD 0 < best.status.code?.getD 0 then r else best) rs

/-- The success with the lowest code. -/
def canonicalSuccess? (op : Operation) : Option Response :=
  match op.successes with
  | [] => none
  | r :: rs => some (lowest r rs)

/-- The schema of the success with the lowest code. -/
def successSchema? (op : Operation) : Option Schema := op.canonicalSuccess?.bind (·.schema)

/-- The codes of the successes whose shape differs from that of the canonical one, in order. -/
def successAmbiguity (op : Operation) : List Nat :=
  match op.canonicalSuccess? with
  | none => []
  | some canonical =>
    let others := op.successes.filter fun r =>
      r.status ≠ canonical.status ∧ r.shape? ≠ canonical.shape?
    (others.filterMap (·.status.code?)).mergeSort (· ≤ ·)

end Operation

/-- A path and the operations on it. -/
structure PathItem where
  path : String
  /-- shared by the operations, unless they override them -/
  parameters : List Parameter
  /-- in the order of `Method.all` -/
  operations : List Operation
  deriving Repr

/-- Does the operation have a parameter of the same name at the same place? -/
def Operation.overrides (op : Operation) (p : Parameter) : Bool :=
  op.parameters.any fun own => own.name = p.name && own.location = p.location

/-- The parameters of the path that the operation does not override, then its own. -/
def PathItem.effectiveParameters (item : PathItem) (op : Operation) : List Parameter :=
  item.parameters.filter (fun p => !op.overrides p) ++ op.parameters

end ClientGen
