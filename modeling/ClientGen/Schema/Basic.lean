import ClientGen.Document.Basic

/-!
# Schemas

What a schema object means: a reference to a definition by name, an object with properties, an
array, or a primitive value. References are looked up where they are used, in the definitions of
their specification.
-/

namespace ClientGen

/-- The primitive types. -/
inductive PrimitiveKind where
  | string
  | integer
  | number
  | boolean
  | file
  deriving DecidableEq, Repr, Inhabited

/-- The name of a primitive type in documents. -/
def PrimitiveKind.name : PrimitiveKind → String
  | .string => "string"
  | .integer => "integer"
  | .number => "number"
  | .boolean => "boolean"
  | .file => "file"

/-- The primitive type of a name. -/
def PrimitiveKind.ofName? : String → Option PrimitiveKind
  | "string" => some .string
  | "integer" => some .integer
  | "number" => some .number
  | "boolean" => some .boolean
  | "file" => some .file
  | _ => none

/-- A default value that fits its primitive type. -/
inductive Literal where
  | string (value : String)
  /-- a signed 64-bit integer -/
  | integer (value : Int)
  | number (value : Double)
  | boolean (value : Bool)
  deriving DecidableEq, Repr

/-- What values must satisfy beyond their type. -/
structure Constraints where
  maximum : Option Double := none
  exclusiveMaximum : Bool := false
  minimum : Option Double := none
  exclusiveMinimum : Bool := false
  maxLength : Option Nat := none
  minLength : Option Nat := none
  pattern : Option String := none
  maxItems : Option Nat := none
  minItems : Option Nat := none
  uniqueItems : Bool := false
  multipleOf : Option Double := none
  deriving DecidableEq, Repr, Inhabited

/-- A primitive value. -/
structure Primitive where
  kind : PrimitiveKind
  format : Option String := none
  description : Option String := none
  constraints : Constraints := {}
  /-- the values a string may take; empty for no restriction, and for every other type -/
  enum : List String := []
  default : Option Literal := none
  deriving DecidableEq, Repr

/-- Is it a string with listed values? -/
def Primitive.isStringEnum (p : Primitive) : Bool := p.kind = .string && !p.enum.isEmpty

/-- A named member of an object. -/
structure Property (σ : Type) where
  /-- the name as sent -/
  name : String
  schema : σ
  required : Bool
  deriving Repr

/-- A schema. -/
inductive Schema where
  /-- the definition of that name -/
  | reference (name : String)
  /-- an object with properties in order; `additional` is the schema of its other members -/
  | object (title description : Option String) (properties : List (Property Schema))
      (additional : Option Schema)
  | array (items : Schema) (description : Option String) (constraints : Constraints)
  | primitive (value : Primitive)
  deriving Repr

namespace Schema

/-- Any value at all: an object about which nothing is said. -/
def any : Schema := .object none none [] none

/-- A string about which nothing is said. -/
def string : Schema := .primitive { kind := .string }

instance : Inhabited Schema := ⟨any⟩

/-- The description, which references do not have. -/
def description? : Schema → Option String
  | .reference _ => none
  | .object _ description _ _ => description
  | .array _ description _ => description
  | .primitive p => p.description

/-- Is it a string with listed values? -/
def isStringEnum : Schema → Bool
  | .primitive p => p.isStringEnum
  | _ => false

/-- Is it an object about whose members nothing is said? -/
def isAny : Schema → Bool
  | .object _ _ [] none => true
  | _ => false

end Schema

end ClientGen
