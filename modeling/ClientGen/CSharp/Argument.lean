import ClientGen.CSharp.Plan

/-!
# Arguments of generated methods

The parameters of an operation as parameters of a C# method: types, names that do not clash, default
values, and the order of the signature.
-/

namespace ClientGen.CSharp

/-- What an argument is used for. -/
inductive ArgumentKind where
  /-- the OAuth token -/
  | token
  | path
  /-- a query parameter; arrays say how their values are put together -/
  | query (format : Option CollectionFormat)
  | header
  | body
  | formData
  deriving DecidableEq, Repr

/-- A parameter of a generated method. -/
structure Argument where
  /-- the name in the method -/
  ident : String
  /-- the name as sent -/
  wireName : String
  type : TypeRef
  required : Bool
  /-- the default as a literal -/
  default : Option String
  description : Option String
  kind : ArgumentKind
  deriving DecidableEq, Repr

/-- The type as written; what is optional takes `null`. -/
def Argument.typeText (a : Argument) : String := if a.required then a.type.name else a.type.nullable

/-- The argument in a signature; what is optional has a default. -/
def Argument.declaration (a : Argument) : String :=
  if a.required then a.typeText ++ " " ++ a.ident
  else a.typeText ++ " " ++ a.ident ++ " = " ++ a.default.getD "null"

/-- The name of the argument that carries the OAuth token. -/
def tokenParameter : String := "oauthToken"

/-- The argument that carries the OAuth token. -/
def tokenArgument : Argument where
  ident := tokenParameter
  wireName := tokenParameter
  type := .reference "string"
  required := true
  default := none
  description := some "OAuth bearer token"
  kind := .token

/-- The names that method bodies use themselves. -/
def bodyLocals : List String :=
  ["_uri", "_query", "_item", "_options", "_form", "_content", "_response", "_data"]

/-- A default as a literal of a type, if it fits. -/
def defaultLiteral? (literal : Literal) (type : TypeRef) : Option String :=
  match literal, type.name with
  | .string s, "string" => some (stringLiteral s)
  | .integer n, "int" => if -2147483648 ≤ n ∧ n ≤ 2147483647 then some (toString n) else none
  | .integer n, "long" => some (toString n)
  | .integer n, "double" => some (toString n)
  | .integer n, "float" => some (toString n)
  | .number x, "double" => some (FloatFormat.message.render x)
  | .number x, "float" => some (FloatFormat.message.render x ++ "f")
  | .boolean b, "bool" => some (toString b)
  | _, _ => none

/-- What a parameter is used for. -/
def argumentKind : Payload → ArgumentKind
  | .path _ => .path
  | .header _ => .header
  | .query (.array _ _ _ format) => .query (some format)
  | .query (.primitive _) => .query none
  | .body _ => .body
  | .formData _ => .formData

/-- The name for a model that a parameter may need. Several body parameters are told apart by their
names. -/
def argumentHint (stem : String) (bodies : Nat) (p : Parameter) : String :=
  if p.isBody then
    if 1 < bodies then stem ++ "In_" ++ Name.sanitize p.name else stem ++ "In"
  else stem ++ Name.pascal p.name

/-- The argument for a parameter, given the names in use. -/
def argumentOf (p : Parameter) (type : TypeRef) (taken : List String) : Argument where
  ident := Name.uniqueName (parameterName p.name) (bodyLocals ++ taken)
  wireName := p.name
  type
  required := p.required
  default := (p.simpleValue?.bind SimpleValue.default?).bind (defaultLiteral? · type)
  description := Text.oneLine? p.description
  kind := argumentKind p.payload

/-- The arguments for parameters in their order, given the names in use. -/
def argumentsAfter (definitions : Table Schema) (stem context : String) (bodies : Nat) :
    (taken : List String) → List Parameter → Plan (List Argument)
  | _, [] => return []
  | taken, p :: ps => do
    let type ← mapSchema definitions p.schema (argumentHint stem bodies p) context
    let argument := argumentOf p type taken
    let rest ← argumentsAfter definitions stem context bodies (taken ++ [argument.ident]) ps
    return argument :: rest

/-- Required arguments before optional ones, each in their order. -/
def signatureOrder (arguments : List Argument) : List Argument :=
  arguments.filter (·.required) ++ arguments.filter (!·.required)

/-- The arguments of an operation in the order of the signature; the token comes first. -/
def arguments (spec : Specification) (item : PathItem) (op : Operation) (stem : String) :
    Plan (List Argument) := do
  let parameters := item.effectiveParameters op
  let bodies := (parameters.filter (·.isBody)).length
  let token := if op.oauthSecured then [tokenArgument] else []
  let rest ← argumentsAfter spec.definitions stem op.context bodies (token.map (·.ident)) parameters
  return token ++ signatureOrder rest

end ClientGen.CSharp
