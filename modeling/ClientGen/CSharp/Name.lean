import ClientGen.Json.Value
import ClientGen.Name.TypeName

/-!
# Names and literals of C#

Type names, member names and parameter names for document text, and string literals. Keywords are
escaped with `@` where the language allows it.
-/

namespace ClientGen.CSharp

/-- The type of any value. -/
def anyType : String := "object"

/-- The reserved words. -/
def keywords : List String :=
  ["abstract", "as", "base", "bool", "break", "byte", "case", "catch", "char", "checked", "class",
   "const", "continue", "decimal", "default", "delegate", "do", "double", "else", "enum", "event",
   "explicit", "extern", "false", "finally", "fixed", "float", "for", "foreach", "goto", "if",
   "implicit", "in", "int", "interface", "internal", "is", "lock", "long", "namespace", "new",
   "null", "object", "operator", "out", "override", "params", "private", "protected", "public",
   "readonly", "ref", "return", "sbyte", "sealed", "short", "sizeof", "stackalloc", "static",
   "string", "struct", "switch", "this", "throw", "true", "try", "typeof", "uint", "ulong",
   "unchecked", "unsafe", "ushort", "using", "virtual", "void", "volatile", "while"]

/-- Puts `@` before a reserved word. -/
def escapeKeyword (name : String) : String := if name ∈ keywords then "@" ++ name else name

/-- A string literal: C# takes the escapes of JSON. -/
def stringLiteral (s : String) : String := Json.quote s

/-- Puts `_` before a name that is empty or starts with a digit. -/
def fixStart (name : List Char) : List Char :=
  match name with
  | [] => ['_']
  | c :: _ => if c.isDigit then '_' :: name else name

/-- The normalized name of a type or a definition. -/
def normalize (raw : String) : String := Name.normalize anyType raw

/-- The name of a type. Names made from an escaped one lose its `@` first. -/
def typeName (raw : String) : String :=
  let name := normalize (String.ofList (raw.toList.dropWhile (· = '@')))
  if name = anyType then name else escapeKeyword name

/-- The name of a member, other than the name of the class that owns it. -/
def memberName (raw owner : String) : String :=
  let name := String.ofList (fixStart (Text.pascalCase (Name.sanitizeChars raw.toList)))
  if name = owner then name ++ "Value" else name

/-- The name of a parameter. -/
def parameterName (raw : String) : String :=
  escapeKeyword (String.ofList (fixStart (Text.camelCase (Name.sanitizeChars raw.toList))))

/-- The name of the type that is declared for a member of a class. -/
def memberTypeName (owner property : String) : String := typeName (owner ++ Name.pascal property)

end ClientGen.CSharp
