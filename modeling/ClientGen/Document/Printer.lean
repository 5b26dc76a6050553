import ClientGen.Document.Basic

/-!
# Writing documents

Each object as a JSON value: members in the order of the fields, absent members and empty lists and
tables left out. The validation keywords stand among the members of a schema or parameter.
`Document.toJson` writes a whole document.
-/

namespace ClientGen

open Json (Value)

/-- The object of the members that are present. -/
def objectOf (members : List (Option (String × Value))) : Value := .object (members.filterMap id)

/-- A member that may be absent. -/
def member {α : Type} (name : String) (write : α → Value) (value : Option α) :
    Option (String × Value) :=
  value.map fun v => (name, write v)

/-- A list, left out when it is empty. -/
def listMember {α : Type} (name : String) (write : α → Value) (values : List α) :
    Option (String × Value) :=
  if values.isEmpty then none else some (name, .array (values.map write))

/-- The object of a table. -/
def tableValue {α : Type} (write : α → Value) (entries : Table α) : Value :=
  .object (entries.map fun (name, v) => (name, write v))

/-- A table, left out when it is empty. -/
def tableMember {α : Type} (name : String) (write : α → Value) (entries : Table α) :
    Option (String × Value) :=
  if entries.isEmpty then none else some (name, tableValue write entries)

/-- A list of strings. -/
def textsValue (values : List String) : Value := .array (values.map .text)

/-- A contact as a value. -/
def Contact.toValue (c : Contact) : Value :=
  objectOf [member "name" .text c.name, member "url" .text c.url, member "email" .text c.email]

/-- A licence as a value. -/
def License.toValue (l : License) : Value :=
  objectOf [member "name" .text l.name, member "url" .text l.url]

/-- The information about a document as a value. -/
def InfoObject.toValue (i : InfoObject) : Value :=
  objectOf [
    member "title" .text i.title,
    member "version" .text i.version,
    member "description" .text i.description,
    member "termsOfService" .text i.termsOfService,
    member "contact" Contact.toValue i.contact,
    member "license" License.toValue i.license]

/-- A link to documentation as a value. -/
def ExternalDocsObject.toValue (d : ExternalDocsObject) : Value :=
  objectOf [member "url" .text d.url, member "description" .text d.description]

/-- A tag as a value. -/
def TagObject.toValue (t : TagObject) : Value :=
  objectOf [
    member "name" .text t.name,
    member "description" .text t.description,
    member "externalDocs" ExternalDocsObject.toValue t.externalDocs]

/-- A double as a value. -/
def doubleValue (x : Double) : Value := .number (.real x)

/-- A count as a value. -/
def naturalValue (n : Nat) : Value := .number (.whole n)

/-- The validation keywords as members. -/
def Validation.members (k : Validation) : List (Option (String × Value)) :=
  [member "maximum" doubleValue k.maximum,
   member "exclusiveMaximum" .bool k.exclusiveMaximum,
   member "minimum" doubleValue k.minimum,
   member "exclusiveMinimum" .bool k.exclusiveMinimum,
   member "maxLength" naturalValue k.maxLength,
   member "minLength" naturalValue k.minLength,
   member "pattern" .text k.pattern,
   member "maxItems" naturalValue k.maxItems,
   member "minItems" naturalValue k.minItems,
   member "uniqueItems" .bool k.uniqueItems,
   member "multipleOf" doubleValue k.multipleOf]

/-- The members of a schema, given the values of the schemas inside it. -/
def SchemaHead.members (h : SchemaHead) (properties : List (String × Value))
    (additional items : Option Value) : List (Option (String × Value)) :=
  [member "$ref" .text h.reference,
   member "type" .text h.type,
   member "format" .text h.format,
   member "title" .text h.title,
   member "description" .text h.description,
   member "default" id h.default,
   tableMember "properties" id properties,
   listMember "required" .text h.required,
   member "additionalProperties" id additional,
   member "items" id items,
   member "collectionFormat" .text h.collectionFormat,
   listMember "enum" id h.enum] ++
  h.validation.members ++
  [member "discriminator" .text h.discriminator,
   member "readOnly" .bool h.readOnly,
   member "example" id h.sample]

mutual

/-- A schema as a value. -/
def SchemaObject.toValue : SchemaObject → Value
  | ⟨head, properties, additional, items⟩ =>
    objectOf (head.members (SchemaObject.propertyValues properties)
      (SchemaObject.additionalValue additional) (SchemaObject.itemsValue items))
termination_by structural s => s

/-- The properties of a schema as values. -/
def SchemaObject.propertyValues : List (String × SchemaObject) → List (String × Value)
  | [] => []
  | (name, s) :: properties => (name, s.toValue) :: SchemaObject.propertyValues properties
termination_by structural ps => ps

/-- `additionalProperties` as a value. -/
def SchemaObject.additionalValue : Option (Additional SchemaObject) → Option Value
  | none => none
  | some (.allowed b) => some (.bool b)
  | some (.schema s) => some s.toValue
termination_by structural a => a

/-- The items of an array as a value. -/
def SchemaObject.itemsValue : Option SchemaObject → Option Value
  | none => none
  | some s => some s.toValue
termination_by structural i => i

end

/-- A parameter as a value. -/
def ParameterObject.toValue (p : ParameterObject) : Value :=
  objectOf ([
    member "$ref" .text p.reference,
    member "name" .text p.name,
    member "in" .text p.location,
    member "description" .text p.description,
    member "required" .bool p.required,
    member "schema" SchemaObject.toValue p.schema,
    member "type" .text p.type,
    member "format" .text p.format,
    member "items" SchemaObject.toValue p.items,
    member "collectionFormat" .text p.collectionFormat,
    member "default" id p.default,
    listMember "enum" id p.enum,
    member "allowEmptyValue" .bool p.allowEmptyValue] ++ p.validation.members)

/-- A response as a value. -/
def ResponseObject.toValue (r : ResponseObject) : Value :=
  objectOf [
    member "$ref" .text r.reference,
    member "description" .text r.description,
    member "schema" SchemaObject.toValue r.schema,
    tableMember "headers" SchemaObject.toValue r.headers,
    tableMember "examples" id r.examples]

/-- A list of security requirements as a value. -/
def requirementsValue (rs : List RequirementObject) : Value :=
  .array (rs.map (tableValue textsValue))

/-- A security scheme as a value. -/
def SecuritySchemeObject.toValue (s : SecuritySchemeObject) : Value :=
  objectOf [
    member "type" .text s.type,
    member "description" .text s.description,
    member "name" .text s.name,
    member "in" .text s.location,
    member "flow" .text s.flow,
    member "authorizationUrl" .text s.authorizationUrl,
    member "tokenUrl" .text s.tokenUrl,
    tableMember "scopes" .text s.scopes]

/-- An operation as a value. -/
def OperationObject.toValue (o : OperationObject) : Value :=
  objectOf [
    member "operationId" .text o.operationId,
    member "summary" .text o.summary,
    member "description" .text o.description,
    listMember "tags" .text o.tags,
    member "consumes" textsValue o.consumes,
    member "produces" textsValue o.produces,
    listMember "parameters" ParameterObject.toValue o.parameters,
    member "responses" (tableValue ResponseObject.toValue) o.responses,
    listMember "schemes" .text o.schemes,
    member "deprecated" .bool o.deprecated,
    member "security" requirementsValue o.security,
    member "externalDocs" ExternalDocsObject.toValue o.externalDocs]

/-- A path item as a value. -/
def PathItemObject.toValue (i : PathItemObject) : Value :=
  objectOf [
    listMember "parameters" ParameterObject.toValue i.parameters,
    member "get" OperationObject.toValue i.get,
    member "put" OperationObject.toValue i.put,
    member "post" OperationObject.toValue i.post,
    member "delete" OperationObject.toValue i.delete,
    member "options" OperationObject.toValue i.options,
    member "head" OperationObject.toValue i.head,
    member "patch" OperationObject.toValue i.patch]

/-- A document as a value. -/
def Document.toValue (d : Document) : Value :=
  objectOf [
    member "swagger" .text d.swagger,
    member "info" InfoObject.toValue d.info,
    member "host" .text d.host,
    member "basePath" .text d.basePath,
    listMember "schemes" .text d.schemes,
    listMember "consumes" .text d.consumes,
    listMember "produces" .text d.produces,
    member "paths" (tableValue PathItemObject.toValue) d.paths,
    tableMember "definitions" SchemaObject.toValue d.definitions,
    tableMember "parameters" ParameterObject.toValue d.parameters,
    tableMember "responses" ResponseObject.toValue d.responses,
    tableMember "securityDefinitions" SecuritySchemeObject.toValue d.securityDefinitions,
    member "security" requirementsValue d.security,
    listMember "tags" TagObject.toValue d.tags,
    member "externalDocs" ExternalDocsObject.toValue d.externalDocs]

/-- A document as JSON text without blanks. -/
def Document.toJson (d : Document) : String := d.toValue.compact

end ClientGen
