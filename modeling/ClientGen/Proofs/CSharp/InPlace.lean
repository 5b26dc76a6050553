import ClientGen.Proofs.CSharp.Plan

/-!
# Declaring in place

A plan says which models it adds. The same can be done in place: there is one list of models, and
the class of an object is inserted where the list ended before its properties were mapped.

* `InPlace` — work on the list of models, with `push` and `declare`. `Built` is all work that is
  put together from these.
* `Plan.onto` — a plan, done after the models that are there. It respects every way to build a plan
  (`Plan.onto_bind`, `Plan.onto_declare`), so that **built work is a plan** (`built_iff`): whatever
  happens on the way, the models that are there stay where they are.
* `InPlace.map` — schemas mapped in place. This is what the plans do (`InPlace.map_eq`).
-/

namespace ClientGen.CSharp

/-- Work on the models declared so far. It gives a value or an error; what it has declared before
an error stays declared. -/
abbrev InPlace := ExceptT EmitError (StateM (List Model))

namespace InPlace

variable {α β : Type}

/-- What the work gives where these models are declared, and the models that are declared then. -/
def after (x : InPlace α) (before : List Model) : Except EmitError α × List Model :=
  (ExceptT.run x).run before

/-- Declares a model after all others. -/
def push (m : Model) : InPlace Unit := modify (· ++ [m])

/-- Keeps the next place for the model that the work makes, and inserts it there. -/
def declare (make : InPlace Model) : InPlace Unit := do
  let place := (← get).length
  let m ← make
  modify fun models => models.insertIdx place m

theorem ext {x y : InPlace α} (h : ∀ before, x.after before = y.after before) : x = y := funext h

theorem after_bind_ok {x : InPlace α} {f : α → InPlace β} {before ms : List Model} {a : α}
    (h : x.after before = (.ok a, ms)) : (x >>= f).after before = (f a).after ms := by
  have hx : (ExceptT.run x).run before = pure (.ok a, ms) := h
  rw [after, ExceptT.run_bind, StateT.run_bind, hx, pure_bind]
  rfl

theorem after_bind_error {x : InPlace α} {f : α → InPlace β} {before ms : List Model}
    {e : EmitError} (h : x.after before = (.error e, ms)) :
    (x >>= f).after before = (.error e, ms) := by
  have hx : (ExceptT.run x).run before = pure (.error e, ms) := h
  rw [after, ExceptT.run_bind, StateT.run_bind, hx, pure_bind]
  rfl

/-- The model comes to stand where the list ended before. -/
theorem after_declare_ok {make : InPlace Model} {before ms : List Model} {m : Model}
    (h : make.after before = (.ok m, ms)) :
    (declare make).after before = (.ok (), ms.insertIdx before.length m) := by
  have hget : (get : InPlace (List Model)).after before = (.ok before, before) := rfl
  rw [declare, after_bind_ok hget, after_bind_ok h]
  rfl

theorem after_declare_error {make : InPlace Model} {before ms : List Model} {e : EmitError}
    (h : make.after before = (.error e, ms)) : (declare make).after before = (.error e, ms) := by
  have hget : (get : InPlace (List Model)).after before = (.ok before, before) := rfl
  rw [declare, after_bind_ok hget, after_bind_error h]

end InPlace

/-! ## Plans in place -/

namespace Plan

variable {α β : Type}

/-- Does a plan after the models that are there. -/
def onto (x : Plan α) : InPlace α := fun before => (x.outcome, before ++ x.models)

theorem after_onto (x : Plan α) (before : List Model) :
    x.onto.after before = (x.outcome, before ++ x.models) := rfl

theorem onto_pure (a : α) : (pure a : Plan α).onto = pure a := by
  apply InPlace.ext
  intro before
  rw [after_onto, models_pure, List.append_nil]
  rfl

theorem onto_ofExcept (x : Except EmitError α) : (ofExcept x).onto = liftExcept x := by
  apply InPlace.ext
  intro before
  have hnone : before ++ (ofExcept x).models = before := List.append_nil before
  rw [after_onto, hnone]
  cases x with
  | error e => rfl
  | ok a => rfl

theorem onto_push (m : Model) : (push m).onto = InPlace.push m := rfl

theorem onto_bind (x : Plan α) (f : α → Plan β) :
    (x >>= f).onto = x.onto >>= fun a => (f a).onto := by
  apply InPlace.ext
  intro before
  have hx := x.after_onto before
  obtain ⟨ms, ws, e | a⟩ := x
  · exact (InPlace.after_bind_error hx).symm
  · rw [InPlace.after_bind_ok hx, after_onto, after_onto, List.append_assoc]
    rfl

/-- What follows the place at which a model is inserted moves behind it. -/
theorem insertIdx_length_append (before added : List Model) (m : Model) :
    (before ++ added).insertIdx before.length m = before ++ m :: added := by
  induction before with
  | nil => simp
  | cons b before ih => simp [ih]

theorem onto_declare (make : Plan Model) : (declare make).onto = InPlace.declare make.onto := by
  apply InPlace.ext
  intro before
  have hmake := make.after_onto before
  rw [after_onto, declare]
  rcases hout : make.outcome with e | m
  · rw [hout] at hmake
    rw [InPlace.after_declare_error hmake]
  · rw [hout] at hmake
    rw [InPlace.after_declare_ok hmake, insertIdx_length_append]

end Plan

/-! ## Built work -/

namespace InPlace

/-- Work that is put together from the ways to declare models. -/
inductive Built : {α : Type} → InPlace α → Prop
  | pure {α : Type} (a : α) : Built (pure a : InPlace α)
  | throw {α : Type} (e : EmitError) : Built (throw e : InPlace α)
  | bind {α β : Type} {x : InPlace α} {f : α → InPlace β} :
      Built x → (∀ a, Built (f a)) → Built (x >>= f)
  | push (m : Model) : Built (push m)
  | declare {make : InPlace Model} : Built make → Built (declare make)

variable {α : Type}

/-- Each way to build work is a way to build plans. -/
theorem Built.exists_plan {x : InPlace α} (h : Built x) : ∃ p : Plan α, p.onto = x := by
  induction h with
  | pure a => exact ⟨_, Plan.onto_pure a⟩
  | throw e => exact ⟨_, Plan.onto_ofExcept (.error e)⟩
  | push m => exact ⟨_, Plan.onto_push m⟩
  | bind _ _ ihx ihf =>
    obtain ⟨p, rfl⟩ := ihx
    choose q hq using ihf
    refine ⟨p >>= q, ?_⟩
    rw [Plan.onto_bind]
    simp only [hq]
  | declare _ ih =>
    obtain ⟨p, rfl⟩ := ih
    exact ⟨_, Plan.onto_declare p⟩

theorem after_forM_push (ms : List Model) : ∀ before : List Model,
    (ms.forM push).after before = (.ok (), before ++ ms) := by
  induction ms with
  | nil =>
    intro before
    rw [List.append_nil]
    rfl
  | cons m ms ih =>
    intro before
    have hm : (push m).after before = (.ok (), before ++ [m]) := rfl
    rw [List.forM, after_bind_ok hm, ih, List.append_assoc, List.singleton_append]

theorem built_forM_push (ms : List Model) : Built (ms.forM push) := by
  induction ms with
  | nil => exact .pure ()
  | cons m ms ih => exact .bind (.push m) fun _ => ih

theorem built_liftExcept (x : Except EmitError α) : Built (liftExcept x : InPlace α) := by
  cases x with
  | error e => exact .throw e
  | ok a => exact .pure a

/-- A plan is done by declaring its models one after the other. -/
theorem onto_eq (p : Plan α) : p.onto = p.models.forM push >>= fun _ => liftExcept p.outcome := by
  apply ext
  intro before
  rw [after_bind_ok (after_forM_push p.models before), Plan.after_onto]
  cases p.outcome with
  | error e => rfl
  | ok a => rfl

/-- **Built work is a plan**, done after the models that are there. -/
theorem built_iff {x : InPlace α} : Built x ↔ ∃ p : Plan α, p.onto = x := by
  constructor
  · exact Built.exists_plan
  · rintro ⟨p, rfl⟩
    rw [onto_eq]
    exact .bind (built_forM_push p.models) fun _ => built_liftExcept p.outcome

/-! ## Schemas in place -/

mutual

/-- Maps a schema to a type; the models that this needs are declared on the way. -/
def map (definitions : Table Schema) : Schema → (hint context : String) → InPlace TypeRef
  | .reference name, _, context => liftExcept (resolveReference definitions name context)
  | .array items _ _, hint, context => do
    let item ← map definitions items hint context
    return .reference (item.name ++ "[]")
  | .object title description properties additional, hint, context =>
    if properties.isEmpty then mapExtra definitions additional (hint ++ "Value") context
    else do
      let name := typeName hint
      declare do
        let members ← mapMembers definitions properties name context []
        return classOf name description members additional.isSome
          (Schema.object title description properties additional).shape
      return .reference name
  | .primitive p, hint, _ =>
    if p.isStringEnum then do
      let name := typeName hint
      push (enumModelOf name p)
      return .value name
    else return primitiveType p
termination_by structural s => s

/-- Maps an object without properties. -/
def mapExtra (definitions : Table Schema) : Option Schema → (hint context : String) →
    InPlace TypeRef
  | none, _, _ => return .reference anyType
  | some extra, hint, context => do
    let value ← map definitions extra hint context
    return .reference ("Dictionary<string, " ++ value.name ++ ">")
termination_by structural extra => extra

/-- Maps properties one after the other, and puts them behind those that are done. -/
def mapMembers (definitions : Table Schema) : List (Property Schema) → (owner context : String) →
    (done : List ModelProperty) → InPlace (List ModelProperty)
  | [], _, _, done => return done
  | ⟨wireName, schema, required⟩ :: properties, owner, context, done => do
    let type ← map definitions schema (memberTypeName owner wireName) (context ++ "." ++ wireName)
    let member : ModelProperty :=
      { name := Name.uniqueName (memberName wireName owner) (done.map (·.name))
        wireName
        type := if required then type.name else type.nullable
        description := Text.oneLine? schema.description? }
    mapMembers definitions properties owner context (done ++ [member])
termination_by structural properties => properties

end

/-- The class of an object, with the models of its properties declared on the way. -/
def classModel (definitions : Table Schema) (name : String) (description : Option String)
    (properties : List (Property Schema)) (additional : Option Schema) (shape context : String) :
    InPlace Model := do
  let members ← mapMembers definitions properties name context []
  return classOf name description members additional.isSome shape

/-- Declares the class of an object. -/
def declareClass (definitions : Table Schema) (name : String) (description : Option String)
    (properties : List (Property Schema)) (additional : Option Schema) (shape context : String) :
    InPlace Unit :=
  declare (classModel definitions name description properties additional shape context)

mutual

/-- **Schemas are mapped in place as plans map them.** -/
theorem map_eq (definitions : Table Schema) : ∀ (schema : Schema) (hint context : String),
    map definitions schema hint context = (mapSchema definitions schema hint context).onto
  | .reference name, hint, context => by rw [map, mapSchema, Plan.onto_ofExcept]
  | .array items description constraints, hint, context => by
    simp only [map, mapSchema, Plan.onto_bind, Plan.onto_pure, map_eq definitions items]
  | .object title description properties additional, hint, context => by
    rw [map, mapSchema]
    split
    · exact mapExtra_eq definitions additional _ context
    · simp only [Plan.onto_bind, Plan.onto_pure, Plan.onto_declare,
        mapMembers_eq definitions properties, List.map_nil, List.nil_append, bind_pure]
  | .primitive p, hint, context => by
    rw [map, mapSchema]
    split <;> simp only [Plan.onto_bind, Plan.onto_pure, Plan.onto_push]
termination_by structural schema => schema

theorem mapExtra_eq (definitions : Table Schema) : ∀ (extra : Option Schema)
    (hint context : String),
    mapExtra definitions extra hint context = (mapDictionary definitions extra hint context).onto
  | none, hint, context => by rw [mapExtra, mapDictionary, Plan.onto_pure]
  | some extra, hint, context => by
    simp only [mapExtra, mapDictionary, Plan.onto_bind, Plan.onto_pure, map_eq definitions extra]
termination_by structural extra => extra

/-- The properties that are done give the names in use, and stay in front. -/
theorem mapMembers_eq (definitions : Table Schema) : ∀ (properties : List (Property Schema))
    (owner context : String) (done : List ModelProperty),
    mapMembers definitions properties owner context done =
      (mapProperties definitions properties owner context (done.map (·.name)) >>= fun members =>
        pure (done ++ members) : Plan (List ModelProperty)).onto
  | [], owner, context, done => by
    rw [mapMembers, mapProperties, pure_bind, List.append_nil, Plan.onto_pure]
  | ⟨wireName, schema, required⟩ :: properties, owner, context, done => by
    simp only [mapMembers, mapProperties, map_eq definitions schema,
      mapMembers_eq definitions properties, List.map_append, List.map_cons, List.map_nil,
      List.append_assoc, List.singleton_append, bind_assoc, pure_bind, Plan.onto_bind]
termination_by structural properties => properties

end

/-- Built work may map schemas on the way. -/
theorem built_map (definitions : Table Schema) (schema : Schema) (hint context : String) :
    Built (map definitions schema hint context) := by
  rw [map_eq]
  exact built_iff.mpr ⟨_, rfl⟩

theorem declareClass_eq (definitions : Table Schema) (name : String) (description : Option String)
    (properties : List (Property Schema)) (additional : Option Schema) (shape context : String) :
    declareClass definitions name description properties additional shape context =
      (Plan.declare (CSharp.classModel definitions name description properties additional shape
        context)).onto := by
  simp only [declareClass, classModel, CSharp.classModel, mapMembers_eq, Plan.onto_declare,
    Plan.onto_bind, Plan.onto_pure, List.map_nil, List.nil_append, bind_pure]

end InPlace

end ClientGen.CSharp
