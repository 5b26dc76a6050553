import ClientGen.Json.Value

/-!
# Swagger documents as written

One type for each object of a Swagger 2.0 document, with the members that this program knows.
Nothing is looked up, checked or filled in here: what the document leaves out is absent, also where
the format requires it. `Specification` is what a document means.
-/

namespace ClientGen

/-- Whom to ask about an interface. -/
structure Contact where
  name : Option String := none
  url : Option String := none
  email : Option String := none
  deriving DecidableEq, Repr, Inhabited

/-- The licence of an interface. -/
structure License where
  name : Option String := none
  url : Option String := none
  deriving DecidableEq, Repr, Inhabited

/-- What a document says about itself. -/
structure InfoObject where
  title : Option String := none
  version : Option String := none
  description : Option String := none
  termsOfService : Option String := none
  contact : Option Contact := none
  license : Option License := none
  deriving DecidableEq, Repr, Inhabited

/-- A link to more documentation. -/
structure ExternalDocsObject where
  url : Option String := none
  description : Option String := none
  deriving DecidableEq, Repr, Inhabited

/-- A tag that operations are grouped by. -/
structure TagObject where
  name : Option String := none
  description : Option String := none
  externalDocs : Option ExternalDocsObject := none
  deriving DecidableEq, Repr, Inhabited

/-- The validation keywords that schemas and parameters share. -/
structure Validation where
  maximum : Option Double := none
  exclusiveMaximum : Option Bool := none
  minimum : Option Double := none
  exclusiveMinimum : Option Bool := none
  maxLength : Option Nat := none
  minLength : Option Nat := none
  pattern : Option String := none
  maxItems : Option Nat := none
  minItems : Option Nat := none
  uniqueItems : Option Bool := none
  multipleOf : Option Double := none
  deriving DecidableEq, Repr, Inhabited

/-- `additionalProperties`: a switch or a schema. -/
inductive Additional (σ : Type) where
  /-- are other members allowed? -/
  | allowed (value : Bool)
  /-- the schema of other members -/
  | schema (value : σ)
  deriving Repr

/-- What a schema object says apart from the schemas inside it. -/
structure SchemaHead where
  /-- `$ref` -/
  reference : Option String := none
  type : Option String := none
  format : Option String := none
  title : Option String := none
  description : Option String := none
  default : Option Json.Value := none
  required : List String := []
  collectionFormat : Option String := none
  enum : List Json.Value := []
  validation : Validation := {}
  discriminator : Option String := none
  readOnly : Option Bool := none
  /-- `example` -/
  sample : Option Json.Value := none
  deriving Repr, Inhabited

/-- A schema object. It also describes array items and response headers, which know fewer
keywords. -/
structure SchemaObject where
  head : SchemaHead
  properties : List (String × SchemaObject)
  /-- `additionalProperties` -/
  additional : Option (Additional SchemaObject)
  items : Option SchemaObject
  deriving Repr

/-- The schema object without members. -/
def SchemaObject.empty : SchemaObject := ⟨{}, [], none, none⟩

instance : Inhabited SchemaObject := ⟨.empty⟩

/-- A parameter. Body parameters have a schema, the others say their type in the parameter
itself. -/
structure ParameterObject where
  /-- `$ref` -/
  reference : Option String := none
  name : Option String := none
  /-- `in` -/
  location : Option String := none
  description : Option String := none
  required : Option Bool := none
  schema : Option SchemaObject := none
  type : Option String := none
  format : Option String := none
  items : Option SchemaObject := none
  collectionFormat : Option String := none
  default : Option Json.Value := none
  enum : List Json.Value := []
  allowEmptyValue : Option Bool := none
  validation : Validation := {}
  deriving Repr, Inhabited

/-- A response, or a reference to a shared one. -/
structure ResponseObject where
  /-- `$ref` -/
  reference : Option String := none
  description : Option String := none
  schema : Option SchemaObject := none
  headers : Table SchemaObject := []
  /-- examples by media type -/
  examples : Table Json.Value := []
  deriving Repr, Inhabited

/-- Scopes by the name of a security scheme. -/
abbrev RequirementObject := Table (List String)

/-- A security scheme. -/
structure SecuritySchemeObject where
  type : Option String := none
  description : Option String := none
  name : Option String := none
  /-- `in` -/
  location : Option String := none
  flow : Option String := none
  authorizationUrl : Option String := none
  tokenUrl : Option String := none
  scopes : Table String := []
  deriving DecidableEq, Repr, Inhabited

/-- An operation. -/
structure OperationObject where
  operationId : Option String := none
  summary : Option String := none
  description : Option String := none
  tags : List String := []
  consumes : Option (List String) := none
  produces : Option (List String) := none
  parameters : List ParameterObject := []
  responses : Option (Table ResponseObject) := none
  schemes : List String := []
  deprecated : Option Bool := none
  security : Option (List RequirementObject) := none
  externalDocs : Option ExternalDocsObject := none
  deriving Repr, Inhabited

/-- The operations on one path, by method. -/
structure PathItemObject where
  parameters : List ParameterObject := []
  get : Option OperationObject := none
  put : Option OperationObject := none
  post : Option OperationObject := none
  delete : Option OperationObject := none
  options : Option OperationObject := none
  head : Option OperationObject := none
  patch : Option OperationObject := none
  deriving Repr, Inhabited

/-- A whole document. -/
structure Document where
  swagger : Option String := none
  info : Option InfoObject := none
  host : Option String := none
  basePath : Option String := none
  schemes : List String := []
  consumes : List String := []
  produces : List String := []
  paths : Option (Table PathItemObject) := none
  definitions : Table SchemaObject := []
  parameters : Table ParameterObject := []
  responses : Table ResponseObject := []
  securityDefinitions : Table SecuritySchemeObject := []
  security : Option (List RequirementObject) := none
  tags : List TagObject := []
  externalDocs : Option ExternalDocsObject := none
  deriving Repr, Inhabited

end ClientGen
