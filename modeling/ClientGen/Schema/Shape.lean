import ClientGen.Schema.Basic

/-!
# The shape of a schema

A text that says how a schema is built and leaves out what is documentation only: titles,
descriptions, validation keywords and defaults. Declarations are compared by their shapes.
-/

namespace ClientGen

/-- The shape of a primitive: its type, its format and its listed values. -/
def Primitive.shape (p : Primitive) : String :=
  p.kind.name ++
    (match p.format with
     | some format => "/" ++ format
     | none => "") ++
    if p.enum.isEmpty then "" else "(" ++ "|".intercalate p.enum ++ ")"

mutual

/-- The shape of a schema. -/
def Schema.shape : Schema → String
  | .reference name => "&" ++ name
  | .object _ _ properties additional =>
    "\x7b" ++ Schema.propertyShapes properties ++ Schema.additionalShape additional ++ "\x7d"
  | .array items _ _ => "[" ++ items.shape ++ "]"
  | .primitive p => p.shape
termination_by structural s => s

/-- The shapes of properties, with commas between them. -/
def Schema.propertyShapes : List (Property Schema) → String
  | [] => ""
  | ⟨name, schema, required⟩ :: properties =>
    name ++ (if required then "" else "?") ++ ":" ++ schema.shape ++
      Schema.moreShapes properties
termination_by structural ps => ps

/-- The shapes of the properties after the first. -/
def Schema.moreShapes : List (Property Schema) → String
  | [] => ""
  | ⟨name, schema, required⟩ :: properties =>
    "," ++ name ++ (if required then "" else "?") ++ ":" ++ schema.shape ++
      Schema.moreShapes properties
termination_by structural ps => ps

/-- The shape of the other members of an object. -/
def Schema.additionalShape : Option Schema → String
  | none => ""
  | some schema => ";*:" ++ schema.shape
termination_by structural a => a

end

end ClientGen
