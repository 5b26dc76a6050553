import ClientGen.CSharp.Model
import ClientGen.Warning

/-!
# Planning C# declarations

A `Plan` yields a value or an error, and on the way declares models and warns. What was declared
before an error stays declared. A plan can only add to the models, and `Plan.declare` puts a model
before those that its own making declares.
-/

namespace ClientGen.CSharp

/-- A value or an error, with the models declared and the warnings noted on the way. -/
structure Plan (α : Type) where
  /-- the declared models, in order -/
  models : List Model
  /-- the warnings, in order -/
  warnings : List Warning
  /-- the value or the error -/
  outcome : Except EmitError α

namespace Plan

variable {α β : Type}

/-- A value without declarations. -/
protected def pure (a : α) : Plan α := ⟨[], [], .ok a⟩

/-- Goes on with the value, if there is one. -/
protected def bind (x : Plan α) (f : α → Plan β) : Plan β :=
  match x.outcome with
  | .ok a => ⟨x.models ++ (f a).models, x.warnings ++ (f a).warnings, (f a).outcome⟩
  | .error e => ⟨x.models, x.warnings, .error e⟩

instance : Monad Plan where
  pure := Plan.pure
  bind := Plan.bind

/-- An outcome without declarations. -/
def ofExcept (x : Except EmitError α) : Plan α := ⟨[], [], x⟩

/-- Notes a warning if there is reason to. -/
def warnIf (reason : Bool) (w : Warning) : Plan Unit := ⟨[], if reason then [w] else [], .ok ()⟩

/-- Declares a model. -/
def push (m : Model) : Plan Unit := ⟨[m], [], .ok ()⟩

/-- Declares the model that a plan makes, before the models that the plan declares. -/
def declare (make : Plan Model) : Plan Unit :=
  match make.outcome with
  | .ok m => ⟨m :: make.models, make.warnings, .ok ()⟩
  | .error e => ⟨make.models, make.warnings, .error e⟩

@[simp] theorem outcome_pure (a : α) : (pure a : Plan α).outcome = .ok a := rfl

@[simp] theorem models_pure (a : α) : (pure a : Plan α).models = [] := rfl

/-- The outcome of a sequence is the sequence of the outcomes. -/
@[simp] theorem outcome_bind (x : Plan α) (f : α → Plan β) :
    (x >>= f).outcome = x.outcome >>= fun a => (f a).outcome := by
  obtain ⟨ms, ws, _ | a⟩ := x <;> rfl

@[simp] theorem outcome_push (m : Model) : (push m).outcome = .ok () := rfl

@[simp] theorem outcome_warnIf (reason : Bool) (w : Warning) :
    (warnIf reason w).outcome = .ok () := rfl

@[simp] theorem outcome_ofExcept (x : Except EmitError α) : (ofExcept x).outcome = x := rfl

instance : LawfulMonad Plan := LawfulMonad.mk'
  Plan
  (fun x => by obtain ⟨ms, ws, _ | a⟩ := x <;> simp [Functor.map, Plan.bind, Plan.pure])
  (fun a f => by simp [bind, Plan.bind, pure, Plan.pure])
  (fun x f g => by
    obtain ⟨ms, ws, _ | a⟩ := x
    · rfl
    · simp only [bind, Plan.bind]
      cases (f a).outcome <;> simp)

end Plan

/-! ## Types of schemas -/

/-- The member for undeclared properties, named unlike its class and its properties. -/
def extensionName (owner : String) (properties : List ModelProperty) : String :=
  Name.uniqueName "AdditionalProperties" (owner :: properties.map (·.name))

/-- The class of an object, given its properties. -/
def classOf (name : String) (description : Option String) (properties : List ModelProperty)
    (isOpen : Bool) (shape : String) : Model :=
  .classModel name (Text.oneLine? description) none properties
    (if isOpen then some (extensionName name properties) else none) shape

mutual

/-- The type of a schema. Objects with properties and strings with listed values have no name of
their own: a model is declared for them and named after `hint`. -/
def mapSchema (definitions : Table Schema) : Schema → (hint context : String) → Plan TypeRef
  | .reference name, _, context => Plan.ofExcept (resolveReference definitions name context)
  | .array items _ _, hint, context => do
    let item ← mapSchema definitions items hint context
    return .reference (item.name ++ "[]")
  | .object title description properties additional, hint, context =>
    if properties.isEmpty then mapDictionary definitions additional (hint ++ "Value") context
    else do
      let name := typeName hint
      Plan.declare do
        let members ← mapProperties definitions properties name context []
        return classOf name description members additional.isSome
          (Schema.object title description properties additional).shape
      return .reference name
  | .primitive p, hint, _ =>
    if p.isStringEnum then do
      let name := typeName hint
      Plan.push (enumModelOf name p)
      return .value name
    else return primitiveType p
termination_by structural s => s

/-- The type of an object without properties: any value, unless its members have a schema. -/
def mapDictionary (definitions : Table Schema) : Option Schema → (hint context : String) →
    Plan TypeRef
  | none, _, _ => return .reference anyType
  | some extra, hint, context => do
    let value ← mapSchema definitions extra hint context
    return .reference ("Dictionary<string, " ++ value.name ++ ">")
termination_by structural extra => extra

/-- The properties of a class, given the names in use. -/
def mapProperties (definitions : Table Schema) : List (Property Schema) →
    (owner context : String) → (taken : List String) → Plan (List ModelProperty)
  | [], _, _, _ => return []
  | ⟨wireName, schema, required⟩ :: properties, owner, context, taken => do
    let type ← mapSchema definitions schema (memberTypeName owner wireName)
      (context ++ "." ++ wireName)
    let name := Name.uniqueName (memberName wireName owner) taken
    let property : ModelProperty :=
      { name, wireName
        type := if required then type.name else type.nullable
        description := Text.oneLine? schema.description? }
    let rest ← mapProperties definitions properties owner context (taken ++ [name])
    return property :: rest
termination_by structural ps => ps

end

/-- The class of an object with properties. -/
def classModel (definitions : Table Schema) (name : String) (description : Option String)
    (properties : List (Property Schema)) (additional : Option Schema) (shape context : String) :
    Plan Model := do
  let members ← mapProperties definitions properties name context []
  return classOf name description members additional.isSome shape

/-! ## Definitions -/

/-- Declares the model of a definition. References and plain primitives need none, and neither does
a definition that goes by the name of any value. -/
def planDefinition (definitions : Table Schema) (rawName : String) (schema : Schema) : Plan Unit :=
  if Name.isAny anyType rawName then return ()
  else
    let name := typeName rawName
    let context := "definition `" ++ name ++ "`"
    match schema with
    | .object _ description [] none =>
      Plan.push (.collection name description none schema.shape)
    | .object _ description [] (some extra) => Plan.declare do
      let value ← mapSchema definitions extra (name ++ "Value") context
      return .collection name description (some ("Dictionary<string, " ++ value.name ++ ">"))
        schema.shape
    | .object _ description properties additional =>
      Plan.declare
        (classModel definitions name description properties additional schema.shape context)
    | .array items description _ => Plan.declare do
      let item ← mapSchema definitions items (name ++ "Item") context
      return .collection name description (some ("List<" ++ item.name ++ ">")) schema.shape
    | .primitive p => if p.isStringEnum then Plan.push (enumModelOf name p) else return ()
    | .reference _ => return ()

/-- Declares the models of all definitions, in order. -/
def planDefinitions (spec : Specification) : Plan Unit :=
  spec.definitions.forM fun (name, schema) => planDefinition spec.definitions name schema

end ClientGen.CSharp
