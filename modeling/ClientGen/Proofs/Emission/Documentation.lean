import ClientGen.CSharp.Plan
import ClientGen.Proofs.Schema.Shape
import ClientGen.TypeScript.Type

/-!
# Types do not depend on documentation

A schema is mapped to a type, and in C# to models as well. What is documentation only can reach the
descriptions of these models, and nothing else.

* **TypeScript** (`Scope.map_erase`): a schema without its documentation is the same type.
* **C#** (`mapSchema_erase`): planning a schema without its documentation is planning the schema and
  then leaving out the descriptions (`Plan.undocumented`), with the same type or the same error.

Each is one induction over a schema. Two schemas that are the same apart from documentation are
compared through what is left of both (`types_undocumented`).
-/

namespace ClientGen

@[simp] theorem Text.oneLine?_none : oneLine? none = none := rfl

namespace Schema

/-- Whether an object has properties decides which type it is, so that it must not change when
documentation is dropped. The same goes for other members. -/
theorem isEmpty_eraseProperties (ps : List (Property Schema)) :
    (eraseProperties ps).isEmpty = ps.isEmpty := by
  cases ps <;> simp [eraseProperties]

theorem isSome_eraseAdditional (additional : Option Schema) :
    (eraseAdditional additional).isSome = additional.isSome := by
  cases additional <;> simp [eraseAdditional]

/-- Nothing is left to describe a property with, and the members of a class are given no
description. -/
theorem description?_erase (s : Schema) : s.erase.description? = none := by
  cases s <;> simp [erase, description?, Primitive.erase]

end Schema

/-! ## TypeScript -/

namespace TypeScript.Scope

mutual

/-- **A schema without documentation is the same type.** By induction on the schema, with one
statement for each kind of part; titles and descriptions are not looked at, and constraints and
defaults are not either. -/
theorem map_erase (scope : Scope) : ∀ (s : Schema) (context : String),
    scope.map s.erase context = scope.map s context
  | .reference name, context => by rw [Schema.erase]
  | .array items description constraints, context => by
    rw [Schema.erase, map, map, map_erase scope items]
  | .object title description properties additional, context => by
    rw [Schema.erase, map, map, mapMembers_erase scope properties,
      mapIndex_erase scope additional, Schema.isEmpty_eraseProperties]
    simp only [← Option.not_isSome, Schema.isSome_eraseAdditional]
  | .primitive p, context => by
    rw [Schema.erase, map, map]
    rfl
termination_by structural s => s

theorem mapMembers_erase (scope : Scope) : ∀ (ps : List (Property Schema)) (context : String),
    scope.mapMembers (Schema.eraseProperties ps) context = scope.mapMembers ps context
  | [], context => by rw [Schema.eraseProperties]
  | ⟨name, schema, required⟩ :: ps, context => by
    rw [Schema.eraseProperties, mapMembers, mapMembers, map_erase scope schema,
      mapMembers_erase scope ps]
termination_by structural ps => ps

theorem mapIndex_erase (scope : Scope) : ∀ (additional : Option Schema) (alone : Bool)
    (context : String), scope.mapIndex (Schema.eraseAdditional additional) alone context =
      scope.mapIndex additional alone context
  | none, alone, context => by rw [Schema.eraseAdditional]
  | some schema, alone, context => by
    rw [Schema.eraseAdditional, mapIndex, mapIndex, map_erase scope schema]
termination_by structural additional => additional

end

end TypeScript.Scope

/-! ## C# -/

namespace CSharp

/-- The property without its description. -/
def ModelProperty.undocumented (p : ModelProperty) : ModelProperty := { p with description := none }

/-- The model without descriptions. -/
def Model.undocumented : Model → Model
  | .classModel name _ base properties extension shape =>
    .classModel name none base (properties.map ModelProperty.undocumented) extension shape
  | .enumModel name _ members shape => .enumModel name none members shape

namespace Plan

variable {α β : Type}

/-- The plan, with models that have no descriptions. -/
def undocumented (x : Plan α) : Plan α := { x with models := x.models.map Model.undocumented }

@[simp] theorem undocumented_pure (a : α) : (pure a : Plan α).undocumented = pure a := rfl

@[simp] theorem undocumented_ofExcept (x : Except EmitError α) :
    (ofExcept x).undocumented = ofExcept x := rfl

@[simp] theorem undocumented_push (m : Model) : (push m).undocumented = push m.undocumented := rfl

/-- Leaving out descriptions goes through a plan step by step, as no step looks at the models that
are there already. With the cases above and below it makes `simp` do the induction steps. -/
@[simp] theorem undocumented_bind (x : Plan α) (f : α → Plan β) :
    (x >>= f).undocumented = x.undocumented >>= fun a => (f a).undocumented := by
  obtain ⟨ms, ws, _ | a⟩ := x
  · rfl
  · simp [bind, Plan.bind, undocumented]

@[simp] theorem undocumented_map (f : α → β) (x : Plan α) :
    (f <$> x).undocumented = f <$> x.undocumented := by
  rw [map_eq_pure_bind, map_eq_pure_bind, undocumented_bind]
  rfl

/-- A model is declared in front of the models that its making declares, and both lose their
descriptions. -/
@[simp] theorem undocumented_declare (make : Plan Model) :
    (declare make).undocumented = declare (Model.undocumented <$> make.undocumented) := by
  obtain ⟨ms, ws, _ | m⟩ := make
  · rfl
  · simp [declare, undocumented, Functor.map, Plan.bind, Plan.pure]

end Plan

/-- The extension member of a class is named after its other members, whose names stay. So the class
of undocumented members is the undocumented class. -/
theorem undocumented_classOf (name : String) (description : Option String)
    (properties : List ModelProperty) (isOpen : Bool) (shape : String) :
    (classOf name description properties isOpen shape).undocumented =
      classOf name none (properties.map ModelProperty.undocumented) isOpen shape := by
  have hnames : (properties.map ModelProperty.undocumented).map (·.name) =
      properties.map (·.name) := by
    simp [ModelProperty.undocumented, Function.comp_def]
  rw [classOf, classOf, extensionName, extensionName, hnames]
  rfl

theorem undocumented_enumModelOf (name : String) (p : Primitive) :
    (enumModelOf name p).undocumented = enumModelOf name p.erase := rfl

theorem primitiveType_erase (p : Primitive) : primitiveType p.erase = primitiveType p := rfl

mutual

/-- **Planning a schema without documentation.** By induction on the schema: a plan declares models
on the way, and `undocumented` goes through its steps, so that it is enough to know it of the models
that each step declares. -/
theorem mapSchema_erase (definitions : Table Schema) : ∀ (s : Schema) (hint context : String),
    mapSchema definitions s.erase hint context = (mapSchema definitions s hint context).undocumented
  | .reference name, hint, context => by simp [Schema.erase, mapSchema]
  | .array items description constraints, hint, context => by
    simp [Schema.erase, mapSchema, mapSchema_erase definitions items]
  | .object title description properties additional, hint, context => by
    have hshape := Schema.shape_erase (.object title description properties additional)
    rw [Schema.erase] at hshape ⊢
    rw [mapSchema, mapSchema, Schema.isEmpty_eraseProperties]
    split
    · exact mapDictionary_erase definitions additional (hint ++ "Value") context
    · simp [mapProperties_erase definitions properties, Schema.isSome_eraseAdditional, hshape,
        undocumented_classOf]
  | .primitive p, hint, context => by
    rw [Schema.erase, mapSchema, mapSchema, p.isStringEnum_erase]
    split
    · simp [undocumented_enumModelOf]
    · simp [primitiveType_erase]
termination_by structural s => s

/-- An object without properties declares no model of its own; its values may. -/
theorem mapDictionary_erase (definitions : Table Schema) : ∀ (additional : Option Schema)
    (hint context : String),
    mapDictionary definitions (Schema.eraseAdditional additional) hint context =
      (mapDictionary definitions additional hint context).undocumented
  | none, hint, context => by simp [Schema.eraseAdditional, mapDictionary]
  | some schema, hint, context => by
    simp [Schema.eraseAdditional, mapDictionary, mapSchema_erase definitions schema]
termination_by structural additional => additional

/-- The members of a class come out of planning as values and not as declared models, so that their
descriptions are left out of the result as well. -/
theorem mapProperties_erase (definitions : Table Schema) : ∀ (ps : List (Property Schema))
    (owner context : String) (taken : List String),
    mapProperties definitions (Schema.eraseProperties ps) owner context taken =
      List.map ModelProperty.undocumented <$>
        (mapProperties definitions ps owner context taken).undocumented
  | [], owner, context, taken => by simp [Schema.eraseProperties, mapProperties]
  | ⟨wireName, schema, required⟩ :: ps, owner, context, taken => by
    simp [Schema.eraseProperties, mapProperties, mapSchema_erase definitions schema,
      mapProperties_erase definitions ps, Schema.description?_erase, ModelProperty.undocumented]
termination_by structural ps => ps

end

/-- Two plans give the same value or the same error, and declare the same models, descriptions
apart. -/
structure Plan.Alike {α : Type} (x y : Plan α) : Prop where
  outcome : x.outcome = y.outcome
  models : x.models.map Model.undocumented = y.models.map Model.undocumented

/-- Plans that are the same without descriptions are alike, which is how two schemas are compared
with what is left of both. -/
theorem Plan.Alike.of_undocumented_eq {α : Type} {x y : Plan α}
    (h : x.undocumented = y.undocumented) : x.Alike y := by
  obtain ⟨hmodels, -, houtcome⟩ := Plan.mk.inj h
  exact ⟨houtcome, hmodels⟩

end CSharp

open CSharp (Plan mapSchema)

/-- **Types do not depend on documentation.** Schemas that are the same apart from titles,
descriptions, constraints and defaults are the same type in any TypeScript module, or fail with the
same error. In C#, after any plan, they are planned alike. -/
theorem types_undocumented {a b : Schema} (h : a.erase = b.erase) :
    (∀ (scope : TypeScript.Scope) (context : String),
      scope.map a context = scope.map b context) ∧
    ∀ (definitions : Table Schema) (before : Plan Unit) (hint context : String),
      (before >>= fun _ => mapSchema definitions a hint context).Alike
        (before >>= fun _ => mapSchema definitions b hint context) := by
  refine ⟨fun scope context => ?_, fun definitions before hint context => ?_⟩
  · rw [← scope.map_erase a, h, scope.map_erase b]
  · apply Plan.Alike.of_undocumented_eq
    rw [Plan.undocumented_bind, Plan.undocumented_bind, ← CSharp.mapSchema_erase definitions a, h,
      CSharp.mapSchema_erase definitions b]

/-- An order with a state, with lines of text and with other members, documented or not. -/
def orderSchema (text : Option String) (size : Option Nat) : Schema :=
  .object text text
    [⟨"state", .primitive
        { kind := .string, enum := ["open", "paid"], description := text,
          default := text.map .string }, false⟩,
     ⟨"lines", .array (.primitive { kind := .string, constraints := { maxLength := size } }) text
        { minItems := size }, true⟩] (some .string)

/-- The models of a documented order have descriptions, and are those of a bare one otherwise. They
come after a model that is there already. -/
theorem types_undocumented_orderSchema :
    (orderSchema (some "open") (some 80)).erase = (orderSchema none none).erase ∧
      (mapSchema [] (orderSchema (some "open") (some 80)) "Order" "").models ≠
        (mapSchema [] (orderSchema none none) "Order" "").models ∧
      (mapSchema [] (orderSchema none none) "Order" "").models.map (·.name) =
        ["Order", "OrderState"] ∧
      (TypeScript.Scope.mk [] "Shop" []).map (orderSchema (some "open") (some 80)) "" =
        (TypeScript.Scope.mk [] "Shop" []).map (orderSchema none none) "" ∧
      (Plan.push (.enumModel "Color" none [] "") >>= fun _ =>
          mapSchema [] (orderSchema (some "open") (some 80)) "Order" "").Alike
        (Plan.push (.enumModel "Color" none [] "") >>= fun _ =>
          mapSchema [] (orderSchema none none) "Order" "") := by
  have herase : (orderSchema (some "open") (some 80)).erase = (orderSchema none none).erase := rfl
  obtain ⟨htypescript, hcsharp⟩ := types_undocumented herase
  exact ⟨herase, by decide +kernel, by decide +kernel, htypescript _ _, hcsharp _ _ _ _⟩

end ClientGen
