import ClientGen.Specification.Operation

/-!
# Specifications

What a document means, with everything looked up and checked. A specification is made once and only
read afterwards.
-/

namespace ClientGen

/-- What a specification says about itself. -/
structure Info where
  title : String
  version : String
  description : Option String
  termsOfService : Option String
  contact : Option Contact
  license : Option License
  deriving DecidableEq, Repr

/-- A tag that operations are grouped by. -/
structure Tag where
  name : String
  description : Option String
  externalDocs : Option ExternalDocs
  deriving DecidableEq, Repr

/-- Where an API key travels. -/
inductive KeyLocation where
  | query
  | header
  deriving DecidableEq, Repr

/-- How an OAuth token is obtained. -/
inductive OAuthFlow where
  | implicit
  | password
  | application
  | accessCode
  deriving DecidableEq, Repr

/-- The flow of a name. -/
def OAuthFlow.ofName? : String → Option OAuthFlow
  | "implicit" => some .implicit
  | "password" => some .password
  | "application" => some .application
  | "accessCode" => some .accessCode
  | _ => none

/-- The kinds of security schemes. -/
inductive SecurityKind where
  | basic
  | apiKey (name : String) (location : KeyLocation)
  | oauth2 (flow : Option OAuthFlow) (authorizationUrl tokenUrl : Option String)
      (scopes : Table String)
  deriving DecidableEq, Repr

/-- A security scheme. -/
structure SecurityDefinition where
  name : String
  description : Option String
  kind : SecurityKind
  deriving DecidableEq, Repr

/-- A specification. -/
structure Specification where
  /-- the path or address that the document was read from -/
  sourceId : String
  swagger : String
  info : Info
  host : Option String
  basePath : Option String
  schemes : List String
  consumes : List String
  produces : List String
  paths : List PathItem
  definitions : Table Schema
  parameters : Table Parameter
  responses : Table Response
  securityDefinitions : Table SecurityDefinition
  security : List Requirement
  tags : List Tag
  externalDocs : Option ExternalDocs
  deriving Repr

/-- A finding that does not stop anything: successes of one operation have different shapes, and the
one with the lowest code was chosen. -/
structure Diagnostic where
  sourceId : String
  operation : String
  /-- the code that was chosen -/
  chosen : Nat
  /-- the codes of the other shapes -/
  codes : List Nat
  deriving DecidableEq, Repr

/-- The finding for people. -/
def Diagnostic.message (d : Diagnostic) : String :=
  d.sourceId ++ ": operation `" ++ d.operation ++
    "` declares differently shaped success responses [" ++
    ", ".intercalate (d.codes.map toString) ++ "]; using " ++ toString d.chosen

namespace Specification

/-- The operations with the paths they are on, in the order of the document. -/
def operations (spec : Specification) : List (PathItem × Operation) :=
  spec.paths.flatMap fun item => item.operations.map fun op => (item, op)

/-- The finding about one operation. -/
def diagnose? (spec : Specification) (op : Operation) : Option Diagnostic :=
  match op.canonicalSuccess?.bind (·.status.code?), op.successAmbiguity with
  | none, _ => none
  | _, [] => none
  | some chosen, codes => some ⟨spec.sourceId, op.label, chosen, codes⟩

/-- The findings about all operations. -/
def diagnostics (spec : Specification) : List Diagnostic :=
  spec.operations.filterMap fun (_, op) => spec.diagnose? op

/-- The address of the interface: `http` unless a scheme is given. -/
def baseUrl (spec : Specification) : String :=
  spec.schemes.headD "http" ++ "://" ++ spec.host.getD "localhost" ++ spec.basePath.getD ""

end Specification

end ClientGen
