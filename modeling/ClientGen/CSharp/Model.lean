import ClientGen.CSharp.Type
import ClientGen.Schema.Shape

/-!
# C# models

Declarations of classes and enums, as data. Each carries the shape that registries compare.
-/

namespace ClientGen.CSharp

/-- A property of a class. -/
structure ModelProperty where
  name : String
  /-- the name as sent -/
  wireName : String
  type : String
  description : Option String
  deriving DecidableEq, Repr

/-- A member of an enum. -/
structure EnumMember where
  name : String
  value : String
  deriving DecidableEq, Repr

/-- A declaration. -/
inductive Model where
  /-- a class; `base` is what it extends, `extension` the member for undeclared properties -/
  | classModel (name : String) (description base : Option String)
      (properties : List ModelProperty) (extension : Option String) (shape : String)
  | enumModel (name : String) (description : Option String) (members : List EnumMember)
      (shape : String)
  deriving DecidableEq, Repr

namespace Model

/-- The declared name. -/
def name : Model → String
  | .classModel name _ _ _ _ _ => name
  | .enumModel name _ _ _ => name

/-- The shape that registries compare. -/
def shape : Model → String
  | .classModel _ _ _ _ _ shape => shape
  | .enumModel _ _ _ shape => shape

/-- A class that only extends a collection, or nothing. -/
def collection (name : String) (description base : Option String) (shape : String) : Model :=
  .classModel name (Text.oneLine? description) base [] none shape

end Model

/-- The members for listed values, given the names in use. -/
def enumMembersAfter (taken : List String) : List String → List EnumMember
  | [] => []
  | value :: values =>
    let name := Name.uniqueName (memberName value "") taken
    ⟨name, value⟩ :: enumMembersAfter (taken ++ [name]) values

/-- The members for listed values; repeated names are numbered. -/
def enumMembers (values : List String) : List EnumMember := enumMembersAfter [] values

/-- The enum of a string with listed values. -/
def enumModelOf (name : String) (p : Primitive) : Model :=
  .enumModel name (Text.oneLine? p.description) (enumMembers p.enum) p.shape

end ClientGen.CSharp
