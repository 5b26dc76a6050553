import ClientGen.TypeScript.Name
import ClientGen.Emission.Error
import ClientGen.Schema.Basic
import ClientGen.Table

/-!
# TypeScript types

Type expressions, and schemas as type expressions inside a module. `Scope` knows the definitions of
the specification and which module declares each type; a type of another module is qualified.
-/

namespace ClientGen.TypeScript

/-- A member of an object that is written in place. -/
structure Member (τ : Type) where
  /-- the key as written -/
  key : String
  optional : Bool
  type : τ
  deriving Repr

/-- A type expression. -/
inductive TypeExpr where
  /-- the type of any value -/
  | any
  /-- a type of the language -/
  | builtin (name : String)
  /-- a declared type; `owner` is the module that declares it, if it is not the one around -/
  | named (owner : Option String) (name : String)
  /-- one of the listed values -/
  | literals (values : List String)
  | array (item : TypeExpr)
  /-- an object written in place; `index` is the type of its other members -/
  | object (members : List (Member TypeExpr)) (index : Option TypeExpr)
  deriving Repr

/-- Listed values as a union of literals. -/
def unionText (values : List String) : String := " | ".intercalate (values.map stringLiteral)

mutual

/-- A type expression as written. -/
def TypeExpr.text : TypeExpr → String
  | .any => anyType
  | .builtin name => name
  | .named none name => name
  | .named (some owner) name => owner ++ "." ++ name
  | .literals values => unionText values
  | .array item => "Array<" ++ item.text ++ ">"
  | .object members index =>
    "\x7b " ++ "; ".intercalate (TypeExpr.memberTexts members ++ TypeExpr.indexTexts index) ++
      " \x7d"
termination_by structural type => type

/-- The members of an object as written. -/
def TypeExpr.memberTexts : List (Member TypeExpr) → List String
  | [] => []
  | ⟨key, optional, type⟩ :: members =>
    (key ++ (if optional then "?" else "") ++ ": " ++ type.text) :: TypeExpr.memberTexts members
termination_by structural members => members

/-- The type of the other members of an object as written. -/
def TypeExpr.indexTexts : Option TypeExpr → List String
  | none => []
  | some type => ["[key: string]: " ++ type.text]
termination_by structural index => index

end

instance : Coe TypeExpr String := ⟨TypeExpr.text⟩

/-- The type of a primitive; dates are strings. -/
def primitiveType (p : Primitive) : TypeExpr :=
  match p.kind with
  | .string => .builtin "string"
  | .integer | .number => .builtin "number"
  | .boolean => .builtin "boolean"
  | .file => .builtin "Blob"

/-- What type expressions in a module depend on. -/
structure Scope where
  definitions : Table Schema
  /-- the name of the module -/
  moduleName : String
  /-- the module that declares each type -/
  owners : Table String

/-- A declared type as it is called inside the module. -/
def Scope.typeName (scope : Scope) (name : String) : TypeExpr :=
  match scope.owners.get? name with
  | some owner => if owner = scope.moduleName then .named none name else .named (some owner) name
  | none => .named none name

/-- The definition of a name as a type. -/
def Scope.reference (scope : Scope) (name context : String) : Except EmitError TypeExpr :=
  if (scope.definitions.get? name).isNone then .error (.unresolvedReference name context)
  else
    let normalized := normalize name
    if normalized = anyType then .ok .any else .ok (scope.typeName normalized)

mutual

/-- A schema as a type expression. -/
def Scope.map (scope : Scope) : Schema → (context : String) → Except EmitError TypeExpr
  | .reference name, context => scope.reference name context
  | .array items _ _, context => do
    let item ← scope.map items context
    return .array item
  | .object _ _ properties additional, context =>
    if properties.isEmpty && additional.isNone then return .any
    else do
      let members ← scope.mapMembers properties context
      let index ← scope.mapIndex additional properties.isEmpty context
      return .object members index
  | .primitive p, _ =>
    if p.isStringEnum then return .literals p.enum else return primitiveType p
termination_by structural s => s

/-- The members of an object written in place. -/
def Scope.mapMembers (scope : Scope) : List (Property Schema) → (context : String) →
    Except EmitError (List (Member TypeExpr))
  | [], _ => return []
  | ⟨name, schema, required⟩ :: properties, context => do
    let type ← scope.map schema context
    let rest ← scope.mapMembers properties context
    return ⟨fieldName name, !required, type⟩ :: rest
termination_by structural ps => ps

/-- The type of the other members of an object. Where there are properties it has to take them too,
and is any value. -/
def Scope.mapIndex (scope : Scope) : Option Schema → (alone : Bool) → (context : String) →
    Except EmitError (Option TypeExpr)
  | none, _, _ => return none
  | some extra, alone, context =>
    if alone then some <$> scope.map extra context else return some .any
termination_by structural extra => extra

end

end ClientGen.TypeScript
