import ClientGen.Proofs.TypeScript.Scope

/-!
# What the owners of types decide

The table of owners decides how declared types are qualified, and nothing else. The module of a
specification is emitted side by side with two tables:

* **Type expressions** (`Scope.map_matches`) and **declarations** (`Scope.declare_matches`): both
  fail with the same error, or both succeed. They give the same if the tables agree on the names
  that the specification plans, since no other names are looked up.
* **Claims** (`Names.claim_matches`): the tables have no say in what is declared.
* **Modules** (`emitModule_matches`): all of them together. Names that are not planned keep their
  owners (`get?_owners_of_emitModule`).

Throughout, `P` stands for the agreement of the tables. The statements hold without it, and say more
with it.
-/

namespace ClientGen.TypeScript

/-- Two tables of owners agree on the names of these declarations. -/
def OwnersAgree (ds : List Declaration) (owners owners' : Table String) : Prop :=
  ∀ d ∈ ds, owners.get? d.name = owners'.get? d.name

/-- The scope of the module of a specification. -/
def Scope.of (spec : Specification) (owners : Table String) : Scope :=
  ⟨spec.definitions, TypeScript.moduleName spec, owners⟩

/-! ## Type expressions -/

section

variable {P : Prop} {spec : Specification} {owners owners' : Table String}

theorem Scope.typeName_eqIf (h : P → OwnersAgree (planned spec) owners owners') {name : String}
    (hname : ∃ d ∈ planned spec, d.name = name) :
    EqIf P ((Scope.of spec owners).typeName name) ((Scope.of spec owners').typeName name) := by
  intro hP
  obtain ⟨d, hd, rfl⟩ := hname
  have hget : (Scope.of spec owners).owners.get? d.name =
      (Scope.of spec owners').owners.get? d.name := h hP d hd
  rw [Scope.typeName, Scope.typeName, hget]
  rfl

theorem Scope.reference_of (name context : String) :
    (Scope.of spec owners).reference name context =
      if (spec.definitions.get? name).isNone then .error (.unresolvedReference name context)
      else if normalize name = anyType then .ok .any
      else .ok ((Scope.of spec owners).typeName (normalize name)) :=
  rfl

theorem Scope.reference_matches (h : P → OwnersAgree (planned spec) owners owners')
    (name context : String) :
    Matches (EqIf P) ((Scope.of spec owners).reference name context)
      ((Scope.of spec owners').reference name context) := by
  rw [Scope.reference_of, Scope.reference_of]
  by_cases hnone : (spec.definitions.get? name).isNone = true
  · rw [if_pos hnone, if_pos hnone]
    exact .error _
  · rw [if_neg hnone, if_neg hnone]
    by_cases hany : normalize name = anyType
    · rw [if_pos hany, if_pos hany]
      exact .ok (.refl _)
    · rw [if_neg hany, if_neg hany]
      have hmem : name ∈ spec.definitions.names := by
        by_contra hnot
        exact hnone (Option.isNone_iff_eq_none.mpr ((Table.get?_eq_none_iff _ _).mpr hnot))
      exact .ok (Scope.typeName_eqIf h (mem_planned_definition hmem hany))

mutual

/-- **Type expressions**, by induction on the schema: only references look at the owners. -/
theorem Scope.map_matches (h : P → OwnersAgree (planned spec) owners owners') :
    ∀ (s : Schema) (context : String),
      Matches (EqIf P) ((Scope.of spec owners).map s context)
        ((Scope.of spec owners').map s context)
  | .reference name, context => by
    rw [Scope.map, Scope.map]
    exact Scope.reference_matches h name context
  | .array items _ _, context => by
    rw [Scope.map, Scope.map]
    apply (Scope.map_matches h items context).bind
    intro item item' hitem
    exact .ok fun hP => congrArg TypeExpr.array (hitem hP)
  | .object _ _ properties additional, context => by
    rw [Scope.map, Scope.map]
    by_cases hany : (properties.isEmpty && additional.isNone) = true
    · rw [if_pos hany, if_pos hany]
      exact .ok (.refl _)
    · rw [if_neg hany, if_neg hany]
      apply (Scope.mapMembers_matches h properties context).bind
      intro members members' hmembers
      apply (Scope.mapIndex_matches h additional properties.isEmpty context).bind
      intro index index' hindex
      exact .ok fun hP => congrArg₂ TypeExpr.object (hmembers hP) (hindex hP)
  | .primitive p, context => by
    rw [Scope.map, Scope.map]
    exact .refl .refl _
termination_by structural s => s

theorem Scope.mapMembers_matches (h : P → OwnersAgree (planned spec) owners owners') :
    ∀ (ps : List (Property Schema)) (context : String),
      Matches (EqIf P) ((Scope.of spec owners).mapMembers ps context)
        ((Scope.of spec owners').mapMembers ps context)
  | [], context => by
    rw [Scope.mapMembers, Scope.mapMembers]
    exact .ok (.refl _)
  | ⟨name, schema, required⟩ :: ps, context => by
    rw [Scope.mapMembers, Scope.mapMembers]
    apply (Scope.map_matches h schema context).bind
    intro type type' htype
    apply (Scope.mapMembers_matches h ps context).bind
    intro rest rest' hrest
    refine .ok fun hP => ?_
    rw [htype hP, hrest hP]
termination_by structural ps => ps

theorem Scope.mapIndex_matches (h : P → OwnersAgree (planned spec) owners owners') :
    ∀ (extra : Option Schema) (alone : Bool) (context : String),
      Matches (EqIf P) ((Scope.of spec owners).mapIndex extra alone context)
        ((Scope.of spec owners').mapIndex extra alone context)
  | none, alone, context => by
    rw [Scope.mapIndex, Scope.mapIndex]
    exact .ok (.refl _)
  | some schema, alone, context => by
    rw [Scope.mapIndex, Scope.mapIndex]
    by_cases halone : alone = true
    · rw [if_pos halone, if_pos halone, map_eq_pure_bind, map_eq_pure_bind]
      apply (Scope.map_matches h schema context).bind
      intro type type' htype
      exact .ok fun hP => congrArg some (htype hP)
    · rw [if_neg halone, if_neg halone]
      exact .ok (.refl _)
termination_by structural extra => extra

end

/-! ## Declarations and methods -/

/-- A property looks up its companion, which is planned with its definition. -/
theorem Scope.propertyField_matches (h : P → OwnersAgree (planned spec) owners owners')
    {name context : String} {title description : Option String}
    {properties : List (Property Schema)} {additional : Option Schema}
    (hd : .definition name (.object title description properties additional) ∈ planned spec)
    {property : Property Schema} (hp : property ∈ properties) :
    Matches (EqIf P) ((Scope.of spec owners).propertyField name context property)
      ((Scope.of spec owners').propertyField name context property) := by
  have htype : Matches (EqIf P) ((Scope.of spec owners).propertyType name context property)
      ((Scope.of spec owners').propertyType name context property) := by
    rw [Scope.propertyType, Scope.propertyType]
    by_cases henum : property.schema.isStringEnum = true
    · rw [if_pos henum, if_pos henum]
      exact .ok (Scope.typeName_eqIf h (mem_planned_companion hd hp henum))
    · rw [if_neg henum, if_neg henum]
      exact Scope.map_matches h property.schema _
  apply htype.bind
  intro type type' htype
  refine .ok fun hP => ?_
  rw [htype hP]

theorem Scope.declareDefinition_matches (h : P → OwnersAgree (planned spec) owners owners')
    {name : String} {schema : Schema} (hd : .definition name schema ∈ planned spec) :
    Matches (EqIf P) ((Scope.of spec owners).declareDefinition name schema)
      ((Scope.of spec owners').declareDefinition name schema) := by
  cases schema with
  | reference raw =>
    apply (Scope.map_matches h (.reference raw) _).bind
    intro target target' htarget
    exact .ok fun hP => congrArg (TypeDecl.alias name none) (htarget hP)
  | array items description constraints =>
    apply (Scope.map_matches h items _).bind
    intro target target' htarget
    exact .ok fun hP => congrArg (TypeDecl.array name _) (htarget hP)
  | primitive p => exact .refl .refl _
  | object title description properties additional =>
    apply (Matches.mapM fun property hp => Scope.propertyField_matches h hd hp).bind
    intro fields fields' hfields
    apply (Scope.mapIndex_matches h additional properties.isEmpty _).bind
    intro index index' hindex
    exact .ok fun hP => congrArg₂ (TypeDecl.interface name _) (hfields hP) (hindex hP)

/-- **One declaration.** -/
theorem Scope.declare_matches (h : P → OwnersAgree (planned spec) owners owners') {d : Declaration}
    (hd : d ∈ planned spec) :
    Matches (EqIf P) ((Scope.of spec owners).declare d) ((Scope.of spec owners').declare d) := by
  cases d with
  | definition name schema => exact Scope.declareDefinition_matches h hd
  | companion name values => exact .ok (.refl _)
  | request name operation parameters =>
    have hfield : ∀ p ∈ parameters,
        Matches (EqIf P) ((Scope.of spec owners).parameterField operation.context p)
          ((Scope.of spec owners').parameterField operation.context p) := by
      intro p _
      apply (Scope.map_matches h p.schema operation.context).bind
      intro type type' htype
      refine .ok fun hP => ?_
      rw [htype hP]
    apply (Matches.mapM hfield).bind
    intro fields fields' hfields
    exact .ok fun hP => congrArg (TypeDecl.interface name none · none) (hfields hP)

/-- **One method**: it looks up the interface of its parameters, which is planned if there are any.
-/
theorem Scope.method_matches (h : P → OwnersAgree (planned spec) owners owners') {item : PathItem}
    {op : Operation} (hop : (item, op) ∈ spec.operations) :
    Matches (EqIf P) ((Scope.of spec owners).method item op)
      ((Scope.of spec owners').method item op) := by
  have hreturn : Matches (EqIf P) ((Scope.of spec owners).returnType op)
      ((Scope.of spec owners').returnType op) := by
    rw [Scope.returnType, Scope.returnType]
    cases op.successSchema? with
    | none => exact .ok (.refl _)
    | some schema => exact Scope.map_matches h schema op.context
  have hparameter : EqIf P ((Scope.of spec owners).parameter? op (item.effectiveParameters op))
      ((Scope.of spec owners').parameter? op (item.effectiveParameters op)) := by
    intro hP
    rw [Scope.parameter?, Scope.parameter?]
    by_cases hp : item.effectiveParameters op = []
    · rw [hp]
      rfl
    · rw [Scope.typeName_eqIf h (mem_planned_request hop hp) hP]
  apply hreturn.bind
  intro type type' htype
  refine .ok fun hP => ?_
  rw [htype hP, hparameter hP]

end

/-! ## Claims -/

/-- Names in use side by side: the registries are related, and where `P` holds the owners of what is
to be declared are the same. -/
structure Names.Twins (R : Registry → Registry → Prop) (P : Prop) (ds : List Declaration)
    (names names' : Names) : Prop where
  registry : R names.registry names'.registry
  owners : P → OwnersAgree ds names.owners names'.owners

/-- **Claims**, by induction on those that are still to come: the owners have no say in what is
declared, and what is new gets the same owner in both tables. -/
theorem Names.claim_matches {R : Registry → Registry → Prop} {P : Prop} {all : List Declaration}
    (hR : Registry.Indistinct R (all.map Declaration.name)) (moduleName : String)
    {ds : List Declaration} (hds : ds ⊆ all) :
    ∀ {names names' : Names}, Names.Twins R P all names names' →
      Matches (fun x y => x.1 = y.1 ∧ x.1 ⊆ ds ∧ Names.Twins R P all x.2 y.2)
        (names.claim moduleName ds) (names'.claim moduleName ds) := by
  induction ds with
  | nil => exact fun htwins => .ok ⟨rfl, List.Subset.refl _, htwins⟩
  | cons d ds ih =>
    intro names names' htwins
    obtain ⟨hd, hds⟩ := List.cons_subset.mp hds
    rw [Names.claim, Names.claim]
    by_cases hapi : d.name = apiName
    · rw [if_pos hapi, if_pos hapi]
      exact .error _
    · rw [if_neg hapi, if_neg hapi]
      apply (hR htwins.registry d.name (List.mem_map_of_mem hd) d.shape).bind
      rintro ⟨fresh, registry⟩ ⟨_, registry'⟩ ⟨rfl, hregistry⟩
      by_cases hfresh : fresh = true
      · have hput : Names.Twins R P all ⟨registry, names.owners.put d.name moduleName⟩
            ⟨registry', names'.owners.put d.name moduleName⟩ := by
          refine ⟨hregistry, fun hP d' hd' => ?_⟩
          rw [Table.get?_put, Table.get?_put, htwins.owners hP d' hd']
        simp only [if_pos hfresh]
        apply (ih hds hput).bind
        rintro ⟨rest, after⟩ ⟨_, after'⟩ ⟨rfl, hrest, hafter⟩
        exact .ok ⟨rfl, List.cons_subset_cons d hrest, hafter⟩
      · simp only [if_neg hfresh]
        have hkept : Names.Twins R P all ⟨registry, names.owners⟩ ⟨registry', names'.owners⟩ :=
          ⟨hregistry, htwins.owners⟩
        apply (ih hds hkept).mono
        rintro x y ⟨hdeclared, hsub, hafter⟩
        exact ⟨hdeclared, List.subset_cons_of_subset d hsub, hafter⟩

/-- Names that are not claimed keep their owners. -/
theorem Names.get?_owners_of_claim {moduleName name : String} {ds : List Declaration}
    (hname : name ∉ ds.map Declaration.name) :
    ∀ {names names' : Names} {declared : List Declaration},
      names.claim moduleName ds = .ok (declared, names') →
      names'.owners.get? name = names.owners.get? name := by
  induction ds with
  | nil =>
    intro names names' declared h
    cases h
    rfl
  | cons d ds ih =>
    intro names names' declared h
    rw [List.map_cons, List.mem_cons, not_or] at hname
    rcases Names.claim_cons_cases h with ⟨-, rest, -, hrest⟩ | ⟨-, hrest⟩
    · rw [ih hname.2 hrest, Table.get?_put, if_neg hname.1]
    · exact ih hname.2 hrest

/-! ## Modules -/

/-- **One module**: it fails with the same error from both, or it is emitted from both. If the
owners of its planned names are the same, so is the module. -/
theorem emitModule_matches {R : Registry → Registry → Prop} {P : Prop} {spec : Specification}
    (hR : Registry.Indistinct R ((planned spec).map Declaration.name)) {names names' : Names}
    (htwins : Names.Twins R P (planned spec) names names') :
    Matches (fun x y => EqIf P x.1 y.1 ∧ Names.Twins R P (planned spec) x.2 y.2)
      (emitModule spec names) (emitModule spec names') := by
  rw [emitModule, emitModule]
  apply (Names.claim_matches hR (moduleName spec) (List.Subset.refl _) htwins).bind
  rintro ⟨declared, after⟩ ⟨_, after'⟩ ⟨rfl, hplanned, hafter⟩
  apply (Matches.mapM fun d hd => Scope.declare_matches hafter.owners (hplanned hd)).bind
  intro declarations declarations' hdeclarations
  apply (Matches.mapM fun entry hentry => Scope.method_matches hafter.owners hentry).bind
  intro methods methods' hmethods
  refine .ok ⟨fun hP => ?_, hafter⟩
  rw [hdeclarations hP, hmethods hP]

theorem get?_owners_of_emitModule {spec : Specification} {names names' : Names} {m : Module}
    (h : emitModule spec names = .ok (m, names')) {name : String}
    (hname : name ∉ (planned spec).map Declaration.name) :
    names'.owners.get? name = names.owners.get? name := by
  rw [emitModule] at h
  obtain ⟨⟨declared, after⟩, hclaim, h⟩ := bind_eq_ok h
  obtain ⟨declarations, -, h⟩ := bind_eq_ok h
  obtain ⟨methods, -, h⟩ := bind_eq_ok h
  obtain ⟨-, rfl⟩ := Prod.mk.inj (pure_eq_ok h)
  exact Names.get?_owners_of_claim hname hclaim

end ClientGen.TypeScript
