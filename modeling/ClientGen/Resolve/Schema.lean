import ClientGen.Checked
import ClientGen.Name.TypeName

/-!
# Schemas out of schema objects

`SchemaObject.resolve` classifies a schema object: a reference, an array, an object or a primitive.
What a node's type does not use is not looked at; in particular nothing beside a `$ref` is. The path
of the node goes into errors and warnings.
-/

namespace ClientGen

/-- Resolving a part of a document. -/
abbrev Resolve (α : Type) := Checked DocumentError α

/-- The validation keywords with switches that are off unless set. -/
def Validation.resolve (k : Validation) : Constraints where
  maximum := k.maximum
  exclusiveMaximum := k.exclusiveMaximum.getD false
  minimum := k.minimum
  exclusiveMinimum := k.exclusiveMinimum.getD false
  maxLength := k.maxLength
  minLength := k.minLength
  pattern := k.pattern
  maxItems := k.maxItems
  minItems := k.minItems
  uniqueItems := k.uniqueItems.getD false
  multipleOf := k.multipleOf

/-- A default as a value of the type, if it fits. -/
def PrimitiveKind.literal? : PrimitiveKind → Json.Value → Option Literal
  | .string, .text s => some (.string s)
  | .integer, .number n => n.toInt?.map .integer
  | .number, .number n => some (.number n.toDouble)
  | .boolean, .bool b => some (.boolean b)
  | _, _ => none

/-- A listed value as text; `null` is none. -/
def enumText? : Json.Value → Option String
  | .text s => some s
  | .null => none
  | value => some value.compact

/-- The listed values, which only strings can have. -/
def PrimitiveKind.resolveEnum (kind : PrimitiveKind) (path : String) (values : List Json.Value) :
    Resolve (List String) :=
  if values.isEmpty then return []
  else if kind = .string then return values.filterMap enumText?
  else do
    Checked.warn (.enumIgnored path kind)
    return []

/-- The default, dropped with a warning when it does not fit. -/
def PrimitiveKind.resolveDefault (kind : PrimitiveKind) (path : String) :
    Option Json.Value → Resolve (Option Literal)
  | none => return none
  | some value =>
    match kind.literal? value with
    | some literal => return some literal
    | none => do
      Checked.warn (.defaultIgnored path value kind)
      return none

/-- A primitive out of the keywords that describe it. -/
def PrimitiveKind.resolve (kind : PrimitiveKind) (path : String)
    (format description : Option String) (validation : Validation) (enum : List Json.Value)
    (default : Option Json.Value) : Resolve Primitive := do
  let enum ← kind.resolveEnum path enum
  let default ← kind.resolveDefault path default
  return ⟨kind, format, description, validation.resolve, enum, default⟩

/-- The definition that a schema refers to. -/
def resolveReference (path reference : String) : Resolve Schema :=
  match Name.definition? reference with
  | some name => return .reference name
  | none => throw (.invalidField (path ++ ".$ref") (.notDefinition reference))

mutual

/-- The schema that a schema object at `path` means. -/
def SchemaObject.resolve : SchemaObject → (path : String) → Resolve Schema
  | ⟨head, properties, additional, items⟩, path =>
    match head.reference with
    | some reference => resolveReference path reference
    | none =>
      let object : Resolve Schema := do
        let properties ← SchemaObject.resolveProperties properties head.required path
        let additional ← SchemaObject.resolveAdditional additional properties.isEmpty path
        return .object head.title head.description properties additional
      match head.type with
      | none => object
      | some "object" => object
      | some "array" => do
        let items ← SchemaObject.resolveItems items path
        return .array items head.description head.validation.resolve
      | some type =>
        match PrimitiveKind.ofName? type with
        | some kind =>
          Schema.primitive <$>
            kind.resolve path head.format head.description head.validation head.enum head.default
        | none => throw (.invalidField (path ++ ".type") (.unknownType type))
termination_by structural s => s

/-- The properties of an object at `path`. -/
def SchemaObject.resolveProperties : List (String × SchemaObject) → (required : List String) →
    (path : String) → Resolve (List (Property Schema))
  | [], _, _ => return []
  | (name, schema) :: properties, required, path => do
    let schema ← schema.resolve (path ++ ".properties." ++ name)
    let rest ← SchemaObject.resolveProperties properties required path
    return ⟨name, schema, decide (name ∈ required)⟩ :: rest
termination_by structural ps => ps

/-- The other members of an object at `path`. A plain switch counts only where there are no
properties. -/
def SchemaObject.resolveAdditional : Option (Additional SchemaObject) → (alone : Bool) →
    (path : String) → Resolve (Option Schema)
  | none, _, _ => return none
  | some (.allowed value), alone, _ => return if value && alone then some .any else none
  | some (.schema schema), _, path => some <$> schema.resolve (path ++ ".additionalProperties")
termination_by structural a => a

/-- The items of an array at `path`. -/
def SchemaObject.resolveItems : Option SchemaObject → (path : String) → Resolve Schema
  | none, path => do
    Checked.warn (.arrayWithoutItems path)
    return .any
  | some schema, path => schema.resolve (path ++ ".items")
termination_by structural i => i

end

end ClientGen
