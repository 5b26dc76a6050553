import ClientGen.Name.Route
import ClientGen.Specification.Basic
import ClientGen.TypeScript.Type

/-!
# TypeScript declarations

What a module wants to declare: its definitions, an enum for each property with listed values, and
an interface for the parameters of each operation. A registry decides which of them are new;
`Scope.declare` gives the ones that are their final form.
-/

namespace ClientGen.TypeScript

/-- A type that a module wants to declare. -/
inductive Declaration where
  | definition (name : String) (schema : Schema)
  /-- the listed values of a property -/
  | companion (name : String) (values : Primitive)
  /-- the parameters of an operation -/
  | request (name : String) (operation : Operation) (parameters : List Parameter)
  deriving Repr

namespace Declaration

/-- The declared name. -/
def name : Declaration → String
  | .definition name _ => name
  | .companion name _ => name
  | .request name _ _ => name

/-- A parameter in the shape of a request. -/
def parameterShape (p : Parameter) : String :=
  p.name ++ (if p.required then "" else "?") ++ ":" ++ p.schema.shape

/-- The shape that registries compare. -/
def shape : Declaration → String
  | .definition _ schema => schema.shape
  | .companion _ values => values.shape
  | .request _ _ parameters =>
    "request(" ++ ",".intercalate (parameters.map parameterShape) ++ ")"

end Declaration

/-! ## Planning -/

/-- The enums for the properties of a definition. -/
def companions (owner : String) (properties : List (Property Schema)) : List Declaration :=
  properties.filterMap fun property =>
    match property.schema with
    | .primitive p =>
      if p.isStringEnum then some (.companion (companionName owner property.name) p) else none
    | _ => none

/-- A definition and its enums; none for one that goes by the name of any value. -/
def planDefinition (rawName : String) (schema : Schema) : List Declaration :=
  if Name.isAny anyType rawName then []
  else
    let name := normalize rawName
    .definition name schema ::
      match schema with
      | .object _ _ properties _ => companions name properties
      | _ => []

/-- The definitions of a specification with their enums, in order. -/
def planDefinitions (spec : Specification) : List Declaration :=
  spec.definitions.flatMap fun (name, schema) => planDefinition name schema

/-- The name of a method. -/
def methodName (op : Operation) : String :=
  match op.operationId with
  | some id => normalize id
  | none => Name.ofRoute op.method.upper op.path

/-- The name of the interface for the parameters of an operation. -/
def requestName (op : Operation) : String := methodName op ++ "Request"

/-- An interface for each operation with parameters, in order. -/
def planRequests (spec : Specification) : List Declaration :=
  spec.operations.filterMap fun (item, op) =>
    let parameters := item.effectiveParameters op
    if parameters.isEmpty then none else some (.request (requestName op) op parameters)

/-- Everything that a specification wants to declare, in order. -/
def planned (spec : Specification) : List Declaration := planDefinitions spec ++ planRequests spec

/-! ## Final forms -/

/-- A field of an interface. -/
structure FieldDecl where
  /-- the key -/
  name : String
  optional : Bool
  type : TypeExpr
  description : Option String
  deriving Repr

/-- A declaration in its final form. -/
inductive TypeDecl where
  /-- an interface; `index` is the type of its other members -/
  | interface (name : String) (description : Option String) (fields : List FieldDecl)
      (index : Option TypeExpr)
  | enum (name : String) (description : Option String) (members : List EnumMember)
  /-- an interface that extends an array -/
  | array (name : String) (description : Option String) (target : TypeExpr)
  | alias (name : String) (description : Option String) (target : TypeExpr)
  deriving Repr

/-- The declared name. -/
def TypeDecl.name : TypeDecl → String
  | .interface name _ _ _ => name
  | .enum name _ _ => name
  | .array name _ _ => name
  | .alias name _ _ => name

/-- The enum of listed values. -/
def enumDecl (name : String) (p : Primitive) : TypeDecl :=
  .enum name (Text.oneLine? p.description) (enumMembers p.enum)

/-- The type of a property; one with listed values has its enum. -/
def Scope.propertyType (scope : Scope) (owner context : String) (property : Property Schema) :
    Except EmitError TypeExpr :=
  if property.schema.isStringEnum then .ok (scope.typeName (companionName owner property.name))
  else scope.map property.schema (context ++ "." ++ property.name)

/-- A property as a field. -/
def Scope.propertyField (scope : Scope) (owner context : String) (property : Property Schema) :
    Except EmitError FieldDecl := do
  let type ← scope.propertyType owner context property
  return ⟨fieldName property.name, !property.required, type,
    Text.oneLine? property.schema.description?⟩

/-- A definition in its final form. -/
def Scope.declareDefinition (scope : Scope) (name : String) (schema : Schema) :
    Except EmitError TypeDecl := do
  let context := "definition `" ++ name ++ "`"
  let description := Text.oneLine? schema.description?
  match schema with
  | .object _ _ properties additional =>
    let fields ← properties.mapM (scope.propertyField name context)
    let index ← scope.mapIndex additional properties.isEmpty context
    return .interface name description fields index
  | .array items _ _ =>
    let target ← scope.map items context
    return .array name description target
  | .primitive p =>
    if p.isStringEnum then return enumDecl name p
    else return .alias name description (primitiveType p)
  | .reference _ =>
    let target ← scope.map schema context
    return .alias name none target

/-- A parameter as a field. -/
def Scope.parameterField (scope : Scope) (context : String) (p : Parameter) :
    Except EmitError FieldDecl := do
  let type ← scope.map p.schema context
  return ⟨fieldName p.name, !p.required, type, Text.oneLine? p.description⟩

/-- A declaration in its final form. -/
def Scope.declare (scope : Scope) : Declaration → Except EmitError TypeDecl
  | .definition name schema => scope.declareDefinition name schema
  | .companion name values => return enumDecl name values
  | .request name operation parameters => do
    let fields ← parameters.mapM (scope.parameterField operation.context)
    return .interface name none fields none

/-! ## Methods -/

/-- The one parameter of a method, which holds all parameters of its operation. -/
structure ParameterDecl where
  optional : Bool
  type : TypeExpr
  deriving Repr

/-- A method of the interface of a module. -/
structure MethodDecl where
  name : String
  parameter : Option ParameterDecl
  returnType : TypeExpr
  summary : Option String
  deprecated : Bool
  deriving Repr

/-- The parameter list of a method. -/
def MethodDecl.params (m : MethodDecl) : String :=
  match m.parameter with
  | some p => "parameters" ++ (if p.optional then "?" else "") ++ ": " ++ p.type.text
  | none => ""

/-- The parameter of an operation, if it has any; it can be left out if all that it holds can. -/
def Scope.parameter? (scope : Scope) (op : Operation) (parameters : List Parameter) :
    Option ParameterDecl :=
  if parameters.isEmpty then none
  else some ⟨!parameters.any (·.required), scope.typeName (requestName op)⟩

/-- The type of what an operation gives. -/
def Scope.returnType (scope : Scope) (op : Operation) : Except EmitError TypeExpr :=
  match op.successSchema? with
  | some schema => scope.map schema op.context
  | none => .ok (.builtin "void")

/-- The method of an operation. -/
def Scope.method (scope : Scope) (item : PathItem) (op : Operation) :
    Except EmitError MethodDecl := do
  let returnType ← scope.returnType op
  return {
    name := methodName op
    parameter := scope.parameter? op (item.effectiveParameters op)
    returnType
    summary := Text.oneLine? (op.summary.or op.description)
    deprecated := op.deprecated }

/-- The methods of a specification, in order. -/
def Scope.methods (scope : Scope) (spec : Specification) : Except EmitError (List MethodDecl) :=
  spec.operations.mapM fun (item, op) => scope.method item op

end ClientGen.TypeScript
