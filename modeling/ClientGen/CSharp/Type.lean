import ClientGen.CSharp.Name
import ClientGen.Emission.Error
import ClientGen.Schema.Basic

/-!
# C# types

The types that schemas are mapped to. A value type needs a question mark to take `null`.
-/

namespace ClientGen.CSharp

/-- A type by name. -/
structure TypeRef where
  name : String
  /-- is it a value type? -/
  isValue : Bool
  deriving DecidableEq, Repr, Inhabited

namespace TypeRef

/-- A reference type. -/
def reference (name : String) : TypeRef := ⟨name, false⟩

/-- A value type. -/
def value (name : String) : TypeRef := ⟨name, true⟩

/-- The type that also takes `null`. -/
def nullable (t : TypeRef) : String := if t.isValue then t.name ++ "?" else t.name

end TypeRef

/-- The type of a primitive. -/
def primitiveType (p : Primitive) : TypeRef :=
  match p.kind with
  | .integer => if p.format = some "int64" then .value "long" else .value "int"
  | .number => if p.format = some "float" then .value "float" else .value "double"
  | .boolean => .value "bool"
  | .string =>
    if p.format = some "date" ∨ p.format = some "date-time" then .value "DateTime"
    else .reference "string"
  | .file => .reference "Stream"

/-- How many definitions are followed from a reference on. -/
def maxAliasDepth : Nat := 16

/-- The type of a reference. References to primitives are the primitive, references to references
are followed; a definition that goes by the name of any value is any value. After `fuel` steps the
name reached is taken as it is. -/
def followReference (definitions : Table Schema) (context : String) :
    (fuel : Nat) → (name : String) → Except EmitError TypeRef
  | 0, name => .ok (.reference (typeName name))
  | fuel + 1, name =>
    match definitions.get? name with
    | none => .error (.unresolvedReference name context)
    | some target =>
      if typeName name = anyType then .ok (.reference anyType)
      else
        match target with
        | .reference next => followReference definitions context fuel next
        | .primitive p =>
          if p.isStringEnum then .ok (.value (typeName name)) else .ok (primitiveType p)
        | .object _ _ _ _ => .ok (.reference (typeName name))
        | .array _ _ _ => .ok (.reference (typeName name))

/-- The type of a reference. -/
def resolveReference (definitions : Table Schema) (name context : String) :
    Except EmitError TypeRef :=
  followReference definitions context maxAliasDepth name

end ClientGen.CSharp
