import ClientGen.Proofs.Emission.Batch
import ClientGen.Proofs.Emission.Registry
import ClientGen.Proofs.Outcome

/-!
# Scopes of TypeScript modules are closed

Every declared type that a module of a document names is declared in that document, by a module of
the name that the use says. Three layers:

* **Claims** (`Names.claim_spec`): the registry and the table of owners stay in step, and an owner
  that a claim adds is the claiming module, which declares the name.
* **Type expressions** (`Scope.uses_map`): what a schema is turned into names only types that have
  an owner, and is qualified with that owner, given that all definitions of the specification have
  one.
* **Batches** (`closed_batch`): the two together are an invariant of emission, and `uses_declared`
  reads scope closure off it.
-/

namespace ClientGen.TypeScript

/-! ## Uses -/

mutual

/-- The declared types that a type expression names, each with the module it is qualified with. -/
def TypeExpr.uses : TypeExpr → List (Option String × String)
  | .any => []
  | .builtin _ => []
  | .named owner name => [(owner, name)]
  | .literals _ => []
  | .array item => item.uses
  | .object members index => TypeExpr.memberUses members ++ TypeExpr.indexUses index
termination_by structural type => type

/-- The declared types that members name. -/
def TypeExpr.memberUses : List (Member TypeExpr) → List (Option String × String)
  | [] => []
  | ⟨_, _, type⟩ :: members => type.uses ++ TypeExpr.memberUses members
termination_by structural members => members

/-- The declared types that the type of other members names. -/
def TypeExpr.indexUses : Option TypeExpr → List (Option String × String)
  | none => []
  | some type => type.uses
termination_by structural index => index

end

/-- The type expressions of a declaration: of its fields, of its other members, of its target. -/
def TypeDecl.types : TypeDecl → List TypeExpr
  | .interface _ _ fields index => fields.map (·.type) ++ index.toList
  | .enum _ _ _ => []
  | .array _ _ target => [target]
  | .alias _ _ target => [target]

/-- The type expressions of a method: of its parameter and of what it gives. -/
def MethodDecl.types (m : MethodDecl) : List TypeExpr :=
  m.parameter.toList.map (·.type) ++ [m.returnType]

/-- The declared types that a module names. -/
def Module.uses (m : Module) : List (Option String × String) :=
  (m.declarations.flatMap TypeDecl.types ++ m.methods.flatMap MethodDecl.types).flatMap
    TypeExpr.uses

/-- The names that a module declares. -/
def Module.declared (m : Module) : List String := m.declarations.map TypeDecl.name

/-! ## Claims -/

/-- The registry and the table of owners list the same names. -/
def Names.InStep (names : Names) : Prop := names.registry.names = names.owners.names

/-- Inversion for claims: the first name is new, goes to the end of both tables and is declared, or
it is there with the same shape and nothing happens to it. -/
theorem Names.claim_cons_cases {moduleName : String} {d : Declaration}
    {ds declared : List Declaration} {names names' : Names}
    (h : names.claim moduleName (d :: ds) = .ok (declared, names')) :
    (names.registry.shape? d.name = none ∧ ∃ rest, declared = d :: rest ∧
      Names.claim moduleName
        ⟨⟨names.registry.entries ++ [(d.name, d.shape)]⟩, names.owners.put d.name moduleName⟩ ds =
          .ok (rest, names')) ∨
    (names.registry.shape? d.name = some d.shape ∧
      names.claim moduleName ds = .ok (declared, names')) := by
  rw [Names.claim] at h
  by_cases hapi : d.name = apiName
  · rw [if_pos hapi] at h
    cases h
  · rw [if_neg hapi] at h
    obtain ⟨-, -, h⟩ := bind_eq_ok h
    obtain ⟨⟨fresh, registry⟩, hclaim, h⟩ := bind_eq_ok h
    rcases Registry.claim_cases hclaim with ⟨rfl, hnone, rfl⟩ | ⟨rfl, hsome, rfl⟩
    · obtain ⟨⟨rest, names''⟩, hrest, h⟩ := bind_eq_ok h
      cases pure_eq_ok h
      exact Or.inl ⟨hnone, rest, rfl, hrest⟩
    · exact Or.inr ⟨hsome, h⟩

/-- What a sequence of claims does: registry and owners stay in step, what is declared was claimed,
every claimed name has an owner afterwards, owned names stay owned, and an owner that is new is the
claiming module with a declaration of its own. -/
structure Names.Claimed (moduleName : String) (names : Names) (ds declared : List Declaration)
    (names' : Names) : Prop where
  inStep : names'.InStep
  planned : declared ⊆ ds
  owned : ∀ d ∈ ds, d.name ∈ names'.owners.names
  mono : names.owners.names ⊆ names'.owners.names
  origin : ∀ name owner, names'.owners.get? name = some owner →
    names.owners.get? name = some owner ∨
      (owner = moduleName ∧ name ∈ declared.map Declaration.name)

/-- A name is in the table of owners exactly when it has a shape. -/
theorem Names.InStep.shape?_eq_none_iff {names : Names} (hin : names.InStep) (name : String) :
    names.registry.shape? name = none ↔ name ∉ names.owners.names := by
  rw [← hin]
  exact Table.get?_eq_none_iff names.registry.entries name

/-- A new name keeps registry and owners in step. -/
theorem Names.InStep.add {names : Names} (hin : names.InStep) {name : String}
    (hnew : names.registry.shape? name = none) (shape owner : String) :
    Names.InStep ⟨⟨names.registry.entries ++ [(name, shape)]⟩, names.owners.put name owner⟩ := by
  have hnot : name ∉ names.owners.names := (hin.shape?_eq_none_iff name).mp hnew
  show Table.names (names.registry.entries ++ [(name, shape)]) = (names.owners.put name owner).names
  rw [Table.names_put, if_neg hnot, Table.names, List.map_append, List.map_singleton]
  exact congrArg (· ++ [name]) hin

/-- The owner of the named type is the module that the use is qualified with, or the module around
it where there is no qualification. -/
def Scope.Owns (scope : Scope) (use : Option String × String) : Prop :=
  scope.owners.get? use.2 = some (use.1.getD scope.moduleName)

/-- Every definition of the specification has an owner, unless it goes by the name of any value. -/
def Scope.Complete (scope : Scope) : Prop :=
  ∀ raw ∈ scope.definitions.names, normalize raw ≠ anyType → normalize raw ∈ scope.owners.names

theorem Scope.uses_typeName {scope : Scope} {name : String} (h : name ∈ scope.owners.names) :
    ∀ use ∈ (scope.typeName name).uses, scope.Owns use := by
  rcases ho : scope.owners.get? name with _ | owner
  · exact absurd h ((Table.get?_eq_none_iff _ _).mp ho)
  · intro use huse
    by_cases hown : owner = scope.moduleName
    · rw [Scope.typeName, ho] at huse
      simp only [if_pos hown, TypeExpr.uses, List.mem_singleton] at huse
      rw [huse, Scope.Owns, ho, hown, Option.getD_none]
    · rw [Scope.typeName, ho] at huse
      simp only [if_neg hown, TypeExpr.uses, List.mem_singleton] at huse
      rw [huse, Scope.Owns, ho, Option.getD_some]

theorem Scope.uses_reference {scope : Scope} (hc : scope.Complete) {name context : String}
    {type : TypeExpr} (h : scope.reference name context = .ok type) :
    ∀ use ∈ type.uses, scope.Owns use := by
  unfold Scope.reference at h
  rcases hd : scope.definitions.get? name with _ | schema
  · rw [hd, Option.isNone_none, if_pos rfl] at h
    cases h
  · have hmem : name ∈ scope.definitions.names :=
      List.mem_map_of_mem (f := (·.1)) (Table.mem_of_get? hd)
    rw [hd, Option.isNone_some, if_neg Bool.false_ne_true] at h
    by_cases hany : normalize name = anyType
    · simp only [if_pos hany] at h
      cases h
      exact fun _ huse => (nomatch huse)
    · simp only [if_neg hany] at h
      cases h
      exact Scope.uses_typeName (hc name hmem hany)

theorem uses_primitiveType (p : Primitive) : (primitiveType p).uses = [] := by
  unfold primitiveType
  cases p.kind <;> rfl

mutual

/-- **Type expressions**, by induction on the schema: whatever a schema is turned into names owned
types only. -/
theorem Scope.uses_map {scope : Scope} (hc : scope.Complete) :
    ∀ (s : Schema) {context : String} {type : TypeExpr}, scope.map s context = .ok type →
      ∀ use ∈ type.uses, scope.Owns use
  | .reference name, context, type, h => by
    rw [Scope.map] at h
    exact Scope.uses_reference hc h
  | .array items _ _, context, type, h => by
    rw [Scope.map] at h
    obtain ⟨item, hitem, h⟩ := bind_eq_ok h
    cases pure_eq_ok h
    rw [TypeExpr.uses]
    exact Scope.uses_map hc items hitem
  | .object _ _ properties additional, context, type, h => by
    rw [Scope.map] at h
    by_cases hany : (properties.isEmpty && additional.isNone) = true
    · rw [if_pos hany] at h
      cases pure_eq_ok h
      exact fun _ huse => (nomatch huse)
    · rw [if_neg hany] at h
      obtain ⟨members, hmembers, h⟩ := bind_eq_ok h
      obtain ⟨index, hindex, h⟩ := bind_eq_ok h
      cases pure_eq_ok h
      rw [TypeExpr.uses]
      intro use huse
      rcases List.mem_append.mp huse with huse | huse
      · exact Scope.uses_mapMembers hc properties hmembers use huse
      · exact Scope.uses_mapIndex hc additional hindex use huse
  | .primitive p, context, type, h => by
    rw [Scope.map] at h
    by_cases henum : p.isStringEnum = true
    · rw [if_pos henum] at h
      cases pure_eq_ok h
      exact fun _ huse => (nomatch huse)
    · rw [if_neg henum] at h
      cases pure_eq_ok h
      rw [uses_primitiveType]
      exact fun _ huse => (nomatch huse)
termination_by structural s => s

theorem Scope.uses_mapMembers {scope : Scope} (hc : scope.Complete) :
    ∀ (ps : List (Property Schema)) {context : String} {members : List (Member TypeExpr)},
      scope.mapMembers ps context = .ok members →
      ∀ use ∈ TypeExpr.memberUses members, scope.Owns use
  | [], context, members, h => by
    rw [Scope.mapMembers] at h
    cases pure_eq_ok h
    exact fun _ huse => (nomatch huse)
  | ⟨_, schema, _⟩ :: ps, context, members, h => by
    rw [Scope.mapMembers] at h
    obtain ⟨type, htype, h⟩ := bind_eq_ok h
    obtain ⟨rest, hrest, h⟩ := bind_eq_ok h
    cases pure_eq_ok h
    rw [TypeExpr.memberUses]
    intro use huse
    rcases List.mem_append.mp huse with huse | huse
    · exact Scope.uses_map hc schema htype use huse
    · exact Scope.uses_mapMembers hc ps hrest use huse
termination_by structural ps => ps

theorem Scope.uses_mapIndex {scope : Scope} (hc : scope.Complete) :
    ∀ (extra : Option Schema) {alone : Bool} {context : String} {index : Option TypeExpr},
      scope.mapIndex extra alone context = .ok index →
      ∀ use ∈ TypeExpr.indexUses index, scope.Owns use
  | none, alone, context, index, h => by
    rw [Scope.mapIndex] at h
    cases pure_eq_ok h
    exact fun _ huse => (nomatch huse)
  | some schema, alone, context, index, h => by
    rw [Scope.mapIndex] at h
    by_cases halone : alone = true
    · rw [if_pos halone] at h
      obtain ⟨type, htype, rfl⟩ := map_eq_ok h
      rw [TypeExpr.indexUses]
      exact Scope.uses_map hc schema htype
    · rw [if_neg halone] at h
      cases pure_eq_ok h
      exact fun _ huse => (nomatch huse)
termination_by structural extra => extra

end

/-! ## Declarations and methods

The names that declarations and methods mention are planned, so all of them are claimed. -/

theorem mem_planned_definition {spec : Specification} {raw : String}
    (hraw : raw ∈ spec.definitions.names) (hany : normalize raw ≠ anyType) :
    ∃ d ∈ planned spec, d.name = normalize raw := by
  obtain ⟨⟨raw, schema⟩, hmem, rfl⟩ := List.mem_map.mp hraw
  have hnot : ¬ Name.isAny anyType raw = true := fun h => hany (of_decide_eq_true h)
  refine ⟨.definition (normalize raw) schema, List.mem_append_left _ ?_, rfl⟩
  refine List.mem_flatMap.mpr ⟨(raw, schema), hmem, ?_⟩
  simp only [planDefinition, if_neg hnot]
  exact List.mem_cons_self ..

/-- Companions are enums for properties with listed values, and nothing else. -/
theorem mem_companions {owner : String} {properties : List (Property Schema)} {d : Declaration} :
    d ∈ companions owner properties ↔ ∃ property ∈ properties, ∃ p, property.schema = .primitive p ∧
      p.isStringEnum = true ∧ d = .companion (companionName owner property.name) p := by
  unfold companions
  rw [List.mem_filterMap]
  constructor
  · rintro ⟨property, hp, h⟩
    refine ⟨property, hp, ?_⟩
    rcases hs : property.schema with _ | _ | _ | p
    case primitive =>
      by_cases henum : p.isStringEnum = true
      · simp only [hs, if_pos henum] at h
        exact ⟨p, rfl, henum, (Option.some.inj h).symm⟩
      · simp only [hs, if_neg henum] at h
        cases h
    all_goals
      rw [hs] at h
      cases h
  · rintro ⟨property, hp, p, hs, henum, rfl⟩
    refine ⟨property, hp, ?_⟩
    simp only [hs, if_pos henum]

/-- An enum is planned for each property with listed values of a planned definition. -/
theorem mem_planned_companion {spec : Specification} {name : String}
    {title description : Option String} {properties : List (Property Schema)}
    {additional : Option Schema}
    (h : .definition name (.object title description properties additional) ∈ planned spec)
    {property : Property Schema} (hp : property ∈ properties)
    (henum : property.schema.isStringEnum = true) :
    ∃ d ∈ planned spec, d.name = companionName name property.name := by
  rcases List.mem_append.mp h with h | h
  · obtain ⟨⟨raw, schema⟩, hmem, hd⟩ := List.mem_flatMap.mp h
    simp only [planDefinition] at hd
    split at hd
    · cases hd
    · rename_i hany
      rcases List.mem_cons.mp hd with hd | hd
      · cases hd
        rcases hs : property.schema with _ | _ | _ | p
        case primitive =>
          rw [hs] at henum
          refine ⟨.companion (companionName (normalize raw) property.name) p, ?_, rfl⟩
          refine List.mem_append_left _ (List.mem_flatMap.mpr ⟨_, hmem, ?_⟩)
          simp only [planDefinition, if_neg hany]
          exact List.mem_cons_of_mem _ (mem_companions.mpr ⟨property, hp, p, hs, henum, rfl⟩)
        all_goals
          rw [hs] at henum
          cases henum
      · -- the companions of a definition are no definitions
        split at hd
        · obtain ⟨_, _, _, _, _, h⟩ := mem_companions.mp hd
          cases h
        · cases hd
  · obtain ⟨⟨item, op⟩, -, hd⟩ := List.mem_filterMap.mp h
    simp only at hd
    split at hd <;> cases hd

theorem mem_planned_request {spec : Specification} {item : PathItem} {op : Operation}
    (hop : (item, op) ∈ spec.operations) (hp : item.effectiveParameters op ≠ []) :
    ∃ d ∈ planned spec, d.name = requestName op := by
  refine ⟨.request (requestName op) op (item.effectiveParameters op),
    List.mem_append_right _ ?_, rfl⟩
  refine List.mem_filterMap.mpr ⟨(item, op), hop, ?_⟩
  have hne : ¬ (item.effectiveParameters op).isEmpty = true := fun h => hp (List.isEmpty_iff.mp h)
  simp only [if_neg hne]

/-- What a module of a specification can rely on: every name that the specification plans has an
owner. -/
def Scope.Covers (scope : Scope) (spec : Specification) : Prop :=
  scope.definitions = spec.definitions ∧ ∀ d ∈ planned spec, d.name ∈ scope.owners.names

theorem Scope.Covers.complete {scope : Scope} {spec : Specification} (hc : scope.Covers spec) :
    scope.Complete := by
  intro raw hraw hany
  rw [hc.1] at hraw
  obtain ⟨d, hd, hname⟩ := mem_planned_definition hraw hany
  rw [← hname]
  exact hc.2 d hd

/-- What is declared in its final form: one rule for each form that a declaration can take. The
properties of declarations are read off these rules. -/
inductive Scope.Declares (scope : Scope) : Declaration → TypeDecl → Prop
  | companion {name : String} {values : Primitive} :
      scope.Declares (.companion name values) (enumDecl name values)
  | request {name : String} {op : Operation} {parameters : List Parameter}
      {fields : List FieldDecl} :
      parameters.mapM (scope.parameterField op.context) = .ok fields →
      scope.Declares (.request name op parameters) (.interface name none fields none)
  | object {name context : String} {title description : Option String}
      {properties : List (Property Schema)} {additional : Option Schema} {fields : List FieldDecl}
      {index : Option TypeExpr} :
      properties.mapM (scope.propertyField name context) = .ok fields →
      scope.mapIndex additional properties.isEmpty context = .ok index →
      scope.Declares (.definition name (.object title description properties additional))
        (.interface name (Text.oneLine? description) fields index)
  | array {name context : String} {items : Schema} {description : Option String}
      {constraints : Constraints} {target : TypeExpr} :
      scope.map items context = .ok target →
      scope.Declares (.definition name (.array items description constraints))
        (.array name (Text.oneLine? description) target)
  | enum {name : String} {p : Primitive} :
      p.isStringEnum = true → scope.Declares (.definition name (.primitive p)) (enumDecl name p)
  | primitive {name : String} {p : Primitive} :
      ¬ p.isStringEnum = true → scope.Declares (.definition name (.primitive p))
        (.alias name (Text.oneLine? p.description) (primitiveType p))
  | reference {name context raw : String} {target : TypeExpr} :
      scope.map (.reference raw) context = .ok target →
      scope.Declares (.definition name (.reference raw)) (.alias name none target)

theorem Scope.declares_of_declareDefinition {scope : Scope} {name : String} {schema : Schema}
    {t : TypeDecl} (h : scope.declareDefinition name schema = .ok t) :
    scope.Declares (.definition name schema) t := by
  unfold Scope.declareDefinition at h
  cases schema with
  | reference raw =>
    obtain ⟨target, htarget, h⟩ := bind_eq_ok h
    cases pure_eq_ok h
    exact .reference htarget
  | array items description constraints =>
    obtain ⟨target, htarget, h⟩ := bind_eq_ok h
    cases pure_eq_ok h
    exact .array htarget
  | primitive p =>
    by_cases henum : p.isStringEnum = true
    · simp only [if_pos henum] at h
      cases pure_eq_ok h
      exact .enum henum
    · simp only [if_neg henum] at h
      cases pure_eq_ok h
      exact .primitive henum
  | object title description properties additional =>
    obtain ⟨fields, hfields, h⟩ := bind_eq_ok h
    obtain ⟨index, hindex, h⟩ := bind_eq_ok h
    cases pure_eq_ok h
    exact .object hfields hindex

/-- **What is declared has one of these forms.** -/
theorem Scope.declares_of_declare {scope : Scope} {d : Declaration} {t : TypeDecl}
    (h : scope.declare d = .ok t) : scope.Declares d t := by
  cases d with
  | companion name values =>
    cases pure_eq_ok h
    exact .companion
  | request name operation parameters =>
    obtain ⟨fields, hfields, h⟩ := bind_eq_ok h
    cases pure_eq_ok h
    exact .request hfields
  | definition name schema => exact declares_of_declareDefinition h

/-- A declaration keeps its planned name. -/
theorem Scope.name_declare {scope : Scope} {d : Declaration} {t : TypeDecl}
    (h : scope.declare d = .ok t) : t.name = d.name := by
  cases declares_of_declare h <;> rfl

theorem Scope.names_mapM_declare {scope : Scope} {ds : List Declaration} {ts : List TypeDecl}
    (h : ds.mapM scope.declare = .ok ts) : ts.map TypeDecl.name = ds.map Declaration.name :=
  map_eq_of_mapM h Scope.name_declare

/-- A use in a module is declared: by a module with the name that the use is qualified with, or with
the name of the module around it where there is no qualification. -/
def Declares (modules : List Module) (m : Module) (use : Option String × String) : Prop :=
  ∃ m' ∈ modules, m'.name = use.1.getD m.name ∧ use.2 ∈ m'.declared

end ClientGen.TypeScript
