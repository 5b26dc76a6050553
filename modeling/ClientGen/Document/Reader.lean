import ClientGen.Document.Basic
import ClientGen.Json.Reader

/-!
# Reading documents

The fields of each object in their order. Optional fields may be `null`; lists and tables that are
empty when absent may not. `Document.ofJson` reads a whole text.

Schemas and parameters are open records: the validation keywords stand among their members.
-/

namespace ClientGen

open Json (Fault RecordField Keyword Node Reader readRecord readOpenRecord)

/-- The fields of a contact. -/
def Contact.fields : List (RecordField Contact) :=
  [.optional "name" .text fun c v => { c with name := v },
   .optional "url" .text fun c v => { c with url := v },
   .optional "email" .text fun c v => { c with email := v }]

/-- The fields of a licence. -/
def License.fields : List (RecordField License) :=
  [.optional "name" .text fun l v => { l with name := v },
   .optional "url" .text fun l v => { l with url := v }]

/-- The fields of the information about a document. -/
def InfoObject.fields : List (RecordField InfoObject) :=
  [.optional "title" .text fun i v => { i with title := v },
   .optional "version" .text fun i v => { i with version := v },
   .optional "description" .text fun i v => { i with description := v },
   .optional "termsOfService" .text fun i v => { i with termsOfService := v },
   .optional "contact" (readRecord Contact.fields {}) fun i v => { i with contact := v },
   .optional "license" (readRecord License.fields {}) fun i v => { i with license := v }]

/-- The fields of a link to documentation. -/
def ExternalDocsObject.fields : List (RecordField ExternalDocsObject) :=
  [.optional "url" .text fun d v => { d with url := v },
   .optional "description" .text fun d v => { d with description := v }]

/-- Reads a link to documentation. -/
def ExternalDocsObject.read : Reader ExternalDocsObject := readRecord fields {}

/-- The fields of a tag. -/
def TagObject.fields : List (RecordField TagObject) :=
  [.optional "name" .text fun t v => { t with name := v },
   .optional "description" .text fun t v => { t with description := v },
   .optional "externalDocs" ExternalDocsObject.read fun t v => { t with externalDocs := v }]

/-! ## Schemas -/

/-- A number as a validation keyword. -/
def doubleKeyword? : Json.Value → Option Double
  | .number n => some n.toDouble
  | _ => none

/-- A count as a validation keyword. -/
def naturalKeyword? : Json.Value → Option Nat
  | .number n => n.toNat?
  | _ => none

/-- A switch as a validation keyword. -/
def boolKeyword? : Json.Value → Option Bool
  | .bool b => some b
  | _ => none

/-- A string as a validation keyword. -/
def textKeyword? : Json.Value → Option String
  | .text s => some s
  | _ => none

/-- The validation keywords. -/
def Validation.keywords : List (Keyword Validation) :=
  [.optional "maximum" doubleKeyword? fun k v => { k with maximum := v },
   .optional "exclusiveMaximum" boolKeyword? fun k v => { k with exclusiveMaximum := v },
   .optional "minimum" doubleKeyword? fun k v => { k with minimum := v },
   .optional "exclusiveMinimum" boolKeyword? fun k v => { k with exclusiveMinimum := v },
   .optional "maxLength" naturalKeyword? fun k v => { k with maxLength := v },
   .optional "minLength" naturalKeyword? fun k v => { k with minLength := v },
   .optional "pattern" textKeyword? fun k v => { k with pattern := v },
   .optional "maxItems" naturalKeyword? fun k v => { k with maxItems := v },
   .optional "minItems" naturalKeyword? fun k v => { k with minItems := v },
   .optional "uniqueItems" boolKeyword? fun k v => { k with uniqueItems := v },
   .optional "multipleOf" doubleKeyword? fun k v => { k with multipleOf := v }]

/-- Reads `additionalProperties`. The value is read as a whole first; after that every problem in it
is a mismatch. -/
def Additional.read (schema : Reader SchemaObject) : Reader (Additional SchemaObject) :=
  fun room node => do
    let _ ← Json.Value.ofNode room node
    match node with
    | .bool b => return .allowed b
    | node =>
      match schema room node with
      | .ok s => return .schema s
      | .error _ => throw .mismatch

/-- The fields of a schema, given a reader of the schemas inside it. -/
def SchemaObject.fields (schema : Reader SchemaObject) : List (RecordField SchemaObject) :=
  [.optional "$ref" .text fun s v => { s with head.reference := v },
   .optional "type" .text fun s v => { s with head.type := v },
   .optional "format" .text fun s v => { s with head.format := v },
   .optional "title" .text fun s v => { s with head.title := v },
   .optional "description" .text fun s v => { s with head.description := v },
   .optional "default" .value fun s v => { s with head.default := v },
   .defaulting "properties" (.table schema) fun s v => { s with properties := v },
   .defaulting "required" (.list .text) fun s v => { s with head.required := v },
   .optional "additionalProperties" (Additional.read schema) fun s v => { s with additional := v },
   .optional "items" schema fun s v => { s with items := v },
   .optional "collectionFormat" .text fun s v => { s with head.collectionFormat := v },
   .defaulting "enum" (.list .value) fun s v => { s with head.enum := v },
   .optional "discriminator" .text fun s v => { s with head.discriminator := v },
   .optional "readOnly" .bool fun s v => { s with head.readOnly := v },
   .optional "example" .value fun s v => { s with head.sample := v }]

/-- Reads a schema with at most `levels` schemas inside each other. -/
def SchemaObject.readWithin : (levels : Nat) → Reader SchemaObject
  | 0 => fun _ _ => .error .malformed
  | levels + 1 =>
    readOpenRecord (fields (readWithin levels)) Validation.keywords .empty {}
      fun s k => { s with head.validation := k }

/-- Reads a schema. Each schema opens an object, so there are never more of them inside each other
than objects may be opened. -/
def SchemaObject.read : Reader SchemaObject := fun room => readWithin (room + 1) room

/-! ## Parameters, responses, operations -/

/-- The fields of a parameter. -/
def ParameterObject.fields : List (RecordField ParameterObject) :=
  [.optional "$ref" .text fun p v => { p with reference := v },
   .optional "name" .text fun p v => { p with name := v },
   .optional "in" .text fun p v => { p with location := v },
   .optional "description" .text fun p v => { p with description := v },
   .optional "required" .bool fun p v => { p with required := v },
   .optional "schema" SchemaObject.read fun p v => { p with schema := v },
   .optional "type" .text fun p v => { p with type := v },
   .optional "format" .text fun p v => { p with format := v },
   .optional "items" SchemaObject.read fun p v => { p with items := v },
   .optional "collectionFormat" .text fun p v => { p with collectionFormat := v },
   .optional "default" .value fun p v => { p with default := v },
   .defaulting "enum" (.list .value) fun p v => { p with enum := v },
   .optional "allowEmptyValue" .bool fun p v => { p with allowEmptyValue := v }]

/-- Reads a parameter. -/
def ParameterObject.read : Reader ParameterObject :=
  readOpenRecord fields Validation.keywords {} {} fun p k => { p with validation := k }

/-- The fields of a response. -/
def ResponseObject.fields : List (RecordField ResponseObject) :=
  [.optional "$ref" .text fun r v => { r with reference := v },
   .optional "description" .text fun r v => { r with description := v },
   .optional "schema" SchemaObject.read fun r v => { r with schema := v },
   .defaulting "headers" (.table SchemaObject.read) fun r v => { r with headers := v },
   .defaulting "examples" (.table .value) fun r v => { r with examples := v }]

/-- Reads a response. -/
def ResponseObject.read : Reader ResponseObject := readRecord fields {}

/-- Reads a list of security requirements. -/
def readRequirements : Reader (List RequirementObject) := .list (.table (.list .text))

/-- The fields of a security scheme. -/
def SecuritySchemeObject.fields : List (RecordField SecuritySchemeObject) :=
  [.optional "type" .text fun s v => { s with type := v },
   .optional "description" .text fun s v => { s with description := v },
   .optional "name" .text fun s v => { s with name := v },
   .optional "in" .text fun s v => { s with location := v },
   .optional "flow" .text fun s v => { s with flow := v },
   .optional "authorizationUrl" .text fun s v => { s with authorizationUrl := v },
   .optional "tokenUrl" .text fun s v => { s with tokenUrl := v },
   .defaulting "scopes" (.table .text) fun s v => { s with scopes := v }]

/-- The fields of an operation. -/
def OperationObject.fields : List (RecordField OperationObject) :=
  [.optional "operationId" .text fun o v => { o with operationId := v },
   .optional "summary" .text fun o v => { o with summary := v },
   .optional "description" .text fun o v => { o with description := v },
   .defaulting "tags" (.list .text) fun o v => { o with tags := v },
   .optional "consumes" (.list .text) fun o v => { o with consumes := v },
   .optional "produces" (.list .text) fun o v => { o with produces := v },
   .defaulting "parameters" (.list ParameterObject.read) fun o v => { o with parameters := v },
   .optional "responses" (.table ResponseObject.read) fun o v => { o with responses := v },
   .defaulting "schemes" (.list .text) fun o v => { o with schemes := v },
   .optional "deprecated" .bool fun o v => { o with deprecated := v },
   .optional "security" readRequirements fun o v => { o with security := v },
   .optional "externalDocs" ExternalDocsObject.read fun o v => { o with externalDocs := v }]

/-- Reads an operation. -/
def OperationObject.read : Reader OperationObject := readRecord fields {}

/-- The fields of a path item. -/
def PathItemObject.fields : List (RecordField PathItemObject) :=
  [.defaulting "parameters" (.list ParameterObject.read) fun i v => { i with parameters := v },
   .optional "get" OperationObject.read fun i v => { i with get := v },
   .optional "put" OperationObject.read fun i v => { i with put := v },
   .optional "post" OperationObject.read fun i v => { i with post := v },
   .optional "delete" OperationObject.read fun i v => { i with delete := v },
   .optional "options" OperationObject.read fun i v => { i with options := v },
   .optional "head" OperationObject.read fun i v => { i with head := v },
   .optional "patch" OperationObject.read fun i v => { i with patch := v }]

/-! ## Documents -/

/-- The fields of a document. -/
def Document.fields : List (RecordField Document) :=
  [.optional "swagger" .text fun d v => { d with swagger := v },
   .optional "info" (readRecord InfoObject.fields {}) fun d v => { d with info := v },
   .optional "host" .text fun d v => { d with host := v },
   .optional "basePath" .text fun d v => { d with basePath := v },
   .defaulting "schemes" (.list .text) fun d v => { d with schemes := v },
   .defaulting "consumes" (.list .text) fun d v => { d with consumes := v },
   .defaulting "produces" (.list .text) fun d v => { d with produces := v },
   .optional "paths" (.table (readRecord PathItemObject.fields {}))
     fun d v => { d with paths := v },
   .defaulting "definitions" (.table SchemaObject.read) fun d v => { d with definitions := v },
   .defaulting "parameters" (.table ParameterObject.read) fun d v => { d with parameters := v },
   .defaulting "responses" (.table ResponseObject.read) fun d v => { d with responses := v },
   .defaulting "securityDefinitions" (.table (readRecord SecuritySchemeObject.fields {}))
     fun d v => { d with securityDefinitions := v },
   .optional "security" readRequirements fun d v => { d with security := v },
   .defaulting "tags" (.list (readRecord TagObject.fields {})) fun d v => { d with tags := v },
   .optional "externalDocs" ExternalDocsObject.read fun d v => { d with externalDocs := v }]

/-- Reads a document of any version. -/
def Document.read : Reader Document := readRecord fields {}

end ClientGen
