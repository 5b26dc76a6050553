import ClientGen.Json.Value
import ClientGen.Name.TypeName

/-!
# Names and literals of TypeScript

Type names, keys of interfaces, members of enums and string literals for document text.
-/

namespace ClientGen.TypeScript

/-- The type of any value. -/
def anyType : String := "any"

/-- The normalized name of a type or a definition. -/
def normalize (raw : String) : String := Name.normalize anyType raw

/-- A string literal: TypeScript takes the escapes of JSON. -/
def stringLiteral (s : String) : String := Json.quote s

/-- A character that a bare key may start with. -/
def isKeyStart (c : Char) : Bool := c.isAlpha || c = '_' || c = '$'

/-- A character of a bare key. -/
def isKeyChar (c : Char) : Bool := c.isAlphanum || c = '_' || c = '$'

/-- Can the name be a key as it is? -/
def isBareKey : List Char → Bool
  | [] => false
  | c :: s => isKeyStart c && s.all isKeyChar

/-- The key of a field: bare when it is an identifier, quoted otherwise. -/
def fieldName (name : String) : String := if isBareKey name.toList then name else stringLiteral name

/-- The name of the enum that is declared for a property of a definition. -/
def companionName (owner property : String) : String := normalize (owner ++ Name.pascal property)

/-- A member of an enum. -/
structure EnumMember where
  name : String
  /-- the value as a literal -/
  value : String
  deriving DecidableEq, Repr

/-- The members for listed values, given the names in use. -/
def enumMembersAfter (taken : List String) : List String → List EnumMember
  | [] => []
  | value :: values =>
    let name := Name.uniqueName (Name.sanitize value) taken
    ⟨name, stringLiteral value⟩ :: enumMembersAfter (taken ++ [name]) values

/-- The members for listed values; repeated names are numbered. -/
def enumMembers (values : List String) : List EnumMember := enumMembersAfter [] values

end ClientGen.TypeScript
