import ClientGen.Proofs.Emission.Lookup
import ClientGen.Proofs.Emission.Parallel
import ClientGen.Proofs.Emission.Uniqueness

/-!
# References that dangle, and those that are not looked at

A module claims its names first, and gives a final form to those of its declarations that are new.
The references of a declaration that is there already are never looked up, so a definition that
dangles can hide behind one of the same name and shape.

* `Scope.map_looksUp`, `Scope.declare_looksUp`, `Scope.methods_looksUp` — type expressions,
  declarations and methods look up what they refer to.
* `exists_emitModule_iff` — **a module is made** exactly if its names can be claimed and all that is
  new in it refers to definitions (`Complete`).
* `Reported` — what it means for a batch that a specification fails.
* `exists_declared_of_not_hidden` — **new declarations cannot dangle**: a reference is looked up
  unless it hides (`Hidden`), and a specification with one that does not is reported
  (`dangling_reported`). `hidden_not_reported` has the two ways to hide.
-/

namespace ClientGen.TypeScript

/-! ## What is looked up -/

namespace Scope

variable (scope : Scope)

theorem reference_looksUp (name context : String) :
    LooksUp scope.definitions (Schema.reference name).Refers (scope.reference name context) := by
  rw [reference]
  split
  · next hnone => exact .unresolved (.reference name) (Option.isNone_iff_eq_none.mp hnone)
  · next hsome =>
    have hdefined : ∀ n, (Schema.reference name).Refers n → scope.definitions.get? n ≠ none := by
      rintro _ ⟨⟩
      exact fun hnone => hsome (Option.isNone_iff_eq_none.mpr hnone)
    dsimp only
    split
    · exact .ok _ hdefined
    · exact .ok _ hdefined

mutual

/-- **Type expressions.** -/
theorem map_looksUp : ∀ (s : Schema) (context : String),
    LooksUp scope.definitions s.Refers (scope.map s context)
  | .reference name, context => by
    rw [map]
    exact scope.reference_looksUp name context
  | .array items _ _, context => by
    rw [map]
    exact ((map_looksUp items context).bind_ok _).congr fun _ => Schema.refers_array.symm
  | .object _ _ properties additional, context => by
    rw [map]
    split
    · next hempty =>
      simp only [Bool.and_eq_true, List.isEmpty_iff, Option.isNone_iff_eq_none] at hempty
      exact .ok _ (by simp [Schema.refers_object, hempty])
    · refine ((mapMembers_looksUp properties context).bind fun _ =>
        (mapIndex_looksUp additional properties.isEmpty context).bind_ok _).congr fun name => ?_
      rw [Schema.refers_object, List.isEmpty_iff]
  | .primitive p, context => by
    rw [map]
    split
    · exact .ok _ (by simp)
    · exact .ok _ (by simp)
termination_by structural s => s

theorem mapMembers_looksUp : ∀ (properties : List (Property Schema)) (context : String),
    LooksUp scope.definitions (fun name => ∃ p ∈ properties, p.schema.Refers name)
      (scope.mapMembers properties context)
  | [], _ => .ok _ (by simp)
  | ⟨wireName, schema, required⟩ :: properties, context => by
    rw [mapMembers]
    refine ((map_looksUp schema context).bind fun _ =>
      (mapMembers_looksUp properties context).bind_ok _).congr fun name => ?_
    simp
termination_by structural properties => properties

theorem mapIndex_looksUp : ∀ (additional : Option Schema) (alone : Bool) (context : String),
    LooksUp scope.definitions
      (fun name => alone = true ∧ ∃ extra, additional = some extra ∧ extra.Refers name)
      (scope.mapIndex additional alone context)
  | none, _, _ => .ok _ (by simp)
  | some extra, alone, context => by
    rw [mapIndex]
    split
    · next halone =>
      rw [← bind_pure_comp]
      exact ((map_looksUp extra context).bind_ok some).congr fun name => by simp [halone]
    · next halone => exact .ok _ (by simp [halone])
termination_by structural additional => additional

end

theorem propertyField_looksUp (owner context : String) (p : Property Schema) :
    LooksUp scope.definitions p.schema.Refers (scope.propertyField owner context p) := by
  rw [propertyField, propertyType]
  refine LooksUp.bind_ok ?_ _
  split
  · next henum =>
    have hplain : ∀ name, ¬ p.schema.Refers name := by
      cases hschema : p.schema <;> simp_all [Schema.isStringEnum]
    exact .ok _ fun name hname => absurd hname (hplain name)
  · exact scope.map_looksUp p.schema _

theorem declareDefinition_looksUp (name : String) (schema : Schema) :
    LooksUp scope.definitions schema.Refers (scope.declareDefinition name schema) := by
  cases schema with
  | object title description properties additional =>
    rw [declareDefinition]
    refine ((LooksUp.mapM fun p _ => scope.propertyField_looksUp name _ p).bind fun _ =>
      (scope.mapIndex_looksUp additional properties.isEmpty _).bind_ok _).congr fun n => ?_
    rw [Schema.refers_object, List.isEmpty_iff]
  | array items description constraints =>
    rw [declareDefinition]
    exact ((scope.map_looksUp items _).bind_ok _).congr fun n => Schema.refers_array.symm
  | primitive p =>
    rw [declareDefinition]
    split
    · exact .ok _ (by simp)
    · exact .ok _ (by simp)
  | reference target =>
    rw [declareDefinition]
    exact (scope.map_looksUp (.reference target) _).bind_ok _

end Scope

/-- A declaration refers to a name. -/
def Declaration.Refers : Declaration → String → Prop
  | .definition _ schema, name => schema.Refers name
  | .companion _ _, _ => False
  | .request _ _ parameters, name => ∃ p ∈ parameters, p.schema.Refers name

/-- A method refers to a name: what its operation gives does. -/
def MethodsRefer (spec : Specification) (name : String) : Prop :=
  ∃ entry ∈ spec.operations, ∃ schema, entry.2.successSchema? = some schema ∧ schema.Refers name

namespace Scope

variable (scope : Scope)

/-- **Declarations.** -/
theorem declare_looksUp (d : Declaration) :
    LooksUp scope.definitions d.Refers (scope.declare d) := by
  cases d with
  | definition name schema => exact scope.declareDefinition_looksUp name schema
  | companion name values => exact .ok _ fun _ => False.elim
  | request name operation parameters =>
    rw [declare]
    exact (LooksUp.mapM fun p _ => (scope.map_looksUp p.schema _).bind_ok _).bind_ok _

/-- **Methods.** -/
theorem methods_looksUp (spec : Specification) :
    LooksUp scope.definitions (MethodsRefer spec) (scope.methods spec) := by
  rw [methods]
  refine LooksUp.mapM fun entry _ => ?_
  obtain ⟨item, op⟩ := entry
  dsimp only
  rw [method, returnType]
  refine LooksUp.bind_ok ?_ _
  cases op.successSchema? with
  | some schema => exact (scope.map_looksUp schema _).congr fun name => by simp
  | none => exact .ok _ (by simp)

end Scope

/-! ## Modules -/

/-- The names of the module can be claimed, and what is new in it refers to definitions. -/
def Complete (names : Names) (spec : Specification) : Prop :=
  ∃ declared names', names.claim (moduleName spec) (planned spec) = .ok (declared, names') ∧
    ∀ name, ((∃ d ∈ declared, d.Refers name) ∨ MethodsRefer spec name) →
      spec.definitions.get? name ≠ none

/-- **A module is made** exactly if it is complete. -/
theorem exists_emitModule_iff {names : Names} {spec : Specification} :
    (∃ made, emitModule spec names = .ok made) ↔ Complete names spec := by
  rw [emitModule, Complete]
  cases hclaim : names.claim (moduleName spec) (planned spec) with
  | error e =>
    constructor
    · rintro ⟨_, ⟨⟩⟩
    · rintro ⟨_, _, ⟨⟩, -⟩
  | ok claimed =>
    obtain ⟨declared, names'⟩ := claimed
    let scope : Scope := ⟨spec.definitions, moduleName spec, names'.owners⟩
    have hlookup := (LooksUp.mapM fun d (_ : d ∈ declared) => scope.declare_looksUp d).bind
      fun declarations => (scope.methods_looksUp spec).bind_ok
        fun methods => ((⟨moduleName spec, declarations, methods⟩ : Module), names')
    refine hlookup.exists_ok_iff.trans ⟨fun h => ⟨declared, names', rfl, h⟩, ?_⟩
    rintro ⟨_, _, heq, h⟩
    obtain ⟨rfl, -⟩ := Prod.mk.inj (Except.ok.inj heq)
    exact h

/-! ## Batches -/

/-- The document of a batch. -/
def generated (options : EmitOptions) (specs : List Specification) : Generation :=
  (generate .typescript options specs).2

/-- At its place in a batch the specification is reported as a failure, and apart from that the
document is what it would be without the specification. -/
structure Reported (options : EmitOptions) (before : List Specification) (spec : Specification)
    (after : List Specification) : Prop where
  failures : ∃ error rest,
    (generated options (before ++ [spec])).failures =
        (generated options before).failures ++ [.of spec error] ∧
      (generated options (before ++ spec :: after)).failures =
        (generated options before).failures ++ .of spec error :: rest ∧
      (generated options (before ++ after)).failures = (generated options before).failures ++ rest
  content : (generated options (before ++ spec :: after)).content =
    (generated options (before ++ after)).content
  emitted : (generated options (before ++ spec :: after)).emitted =
    (generated options (before ++ after)).emitted
  diagnostics : (generated options (before ++ spec :: after)).diagnostics =
    (generated options (before ++ after)).diagnostics

section Batches

variable {options : EmitOptions} {before after : List Specification} {spec : Specification}

theorem batch_append (before specs : List Specification) : batch (before ++ specs) .empty =
    (batch before .empty).append (emitBatch emitter (batch before .empty).names specs) :=
  emitBatch_append emitter _ before specs

theorem failures_append (options : EmitOptions) (before specs : List Specification) :
    (generated options (before ++ specs)).failures = (generated options before).failures ++
      (emitBatch emitter (batch before .empty).names specs).failed.map
        fun failure => .of failure.1 failure.2 := by
  have hfailures (specs : List Specification) : (generated options specs).failures =
      (batch specs .empty).failed.map fun failure => .of failure.1 failure.2 := rfl
  rw [hfailures, hfailures, batch_append, Batch.append, List.map_append]

theorem reported_of_error {error : EmitError}
    (h : emitModule spec (batch before .empty).names = .error error) :
    Reported options before spec after := by
  have hemit : (emitter.emit spec (batch before .empty).names).2 = .error error := h
  obtain ⟨-, halone⟩ := emitBatch_cons_of_error hemit []
  obtain ⟨hemitted, hfailed⟩ := emitBatch_cons_of_error hemit after
  have hsame : (batch (before ++ spec :: after) .empty).emitted =
      (batch (before ++ after) .empty).emitted := by
    rw [batch_append, batch_append, Batch.append, Batch.append, hemitted]
  constructor
  · refine ⟨error, _, ?_, ?_, failures_append options before after⟩
    · rw [failures_append, halone]
      rfl
    · rw [failures_append, hfailed, List.map_cons]
  · exact content?_congr options _ _ hsame
  · exact congrArg (List.map (·.1.sourceId)) hsame
  · exact congrArg (List.flatMap (·.1.diagnostics)) hsame

theorem not_reported_of_ok {made : Module × Names}
    (h : emitModule spec (batch before .empty).names = .ok made) :
    ¬ Reported options before spec after := by
  intro hreported
  have hemit : (emitter.emit spec (batch before .empty).names).2 = .ok made := h
  have hfailed : (emitBatch emitter (batch before .empty).names [spec]).failed = [] := by
    simp [emitBatch_failed, trace, hemit, failedEntry?]
  obtain ⟨error, -, halone, -⟩ := hreported.failures
  rw [failures_append, hfailed] at halone
  simp at halone

/-- A specification is reported exactly if it is not complete. -/
theorem reported_iff :
    Reported options before spec after ↔ ¬ Complete (batch before .empty).names spec := by
  rw [← exists_emitModule_iff]
  cases hemit : emitModule spec (batch before .empty).names with
  | ok made => exact iff_of_false (not_reported_of_ok hemit) (not_not.mpr ⟨made, rfl⟩)
  | error error => exact iff_of_true (reported_of_error hemit) (by rintro ⟨_, ⟨⟩⟩)

end Batches

/-! ## Declarations that hide -/

/-- A reference of the declaration hides: the declaration has the name and the shape of one that is
there already, or of another one that the module plans first and that has no such reference. -/
def Hidden (names : Names) (spec : Specification) (d : Declaration) (target : String) : Prop :=
  names.registry.shape? d.name = some d.shape ∨
    ∃ d', (planned spec).find? (fun other => other.name = d.name) = some d' ∧ d' ≠ d ∧
      d'.shape = d.shape ∧ ¬ d'.Refers target

/-- A reference that does not hide is one of something new: of the first declaration of the name. -/
theorem exists_declared_of_not_hidden {names names' : Names} {spec : Specification}
    {declared : List Declaration} {d : Declaration} {target : String}
    (hclaim : names.claim (moduleName spec) (planned spec) = .ok (declared, names'))
    (hd : d ∈ planned spec) (hrefers : d.Refers target) (hhidden : ¬ Hidden names spec d target) :
    ∃ d' ∈ declared, d'.Refers target := by
  rw [Hidden, not_or] at hhidden
  obtain ⟨hnew, hfirst⟩ := hhidden
  have hclaims := claims_of_claim hclaim
  obtain ⟨d', hd'⟩ : ∃ d', (planned spec).find? (fun other => other.name = d.name) = some d' := by
    rw [← Option.isSome_iff_exists, List.find?_isSome]
    exact ⟨d, hd, decide_eq_true rfl⟩
  have hname : d'.name = d.name := by simpa using List.find?_some hd'
  -- both have been claimed, so they have one shape
  have hshape : d'.shape = d.shape := by
    have hfirstShape := hclaims.shape?_of_mem (List.mem_of_find?_eq_some hd')
    have hownShape := hclaims.shape?_of_mem hd
    dsimp only at hfirstShape hownShape
    rw [hname, hownShape] at hfirstShape
    exact (Option.some.inj hfirstShape).symm
  refine ⟨d', ?_, ?_⟩
  · apply hclaims.mem_fresh
    · rw [hname]
      exact hd'
    · rw [hname, hshape]
      exact hnew
  · by_contra hnot
    refine hfirst ⟨d', hd', ?_, hshape, hnot⟩
    rintro rfl
    exact hnot hrefers

theorem definition_mem_planned {spec : Specification} {raw : String} {schema : Schema}
    (hmem : (raw, schema) ∈ spec.definitions) (hraw : Name.normalize anyType raw ≠ anyType) :
    .definition (normalize raw) schema ∈ planned spec := by
  refine List.mem_append_left _ (List.mem_flatMap.mpr ⟨(raw, schema), hmem, ?_⟩)
  simp [planDefinition, Name.isAny, hraw]

/-- **Dangling references are reported, unless they hide.** Where a property of an object refers to
a name without a definition, the specification is reported, whatever comes before and after it,
unless the reference hides. In any case it is reported exactly if its names cannot be claimed, or
something new in it dangles. -/
theorem dangling_reported (options : EmitOptions) (before after : List Specification)
    (spec : Specification) {raw : String} {title description : Option String}
    {properties : List (Property Schema)} {additional : Option Schema} {p : Property Schema}
    {missing : String}
    (hmem : (raw, Schema.object title description properties additional) ∈ spec.definitions)
    (hraw : Name.normalize anyType raw ≠ anyType) (hp : p ∈ properties)
    (hrefers : p.schema.Refers missing) (hnone : spec.definitions.get? missing = none) :
    (¬ Hidden (batch before .empty).names spec
        (.definition (normalize raw) (.object title description properties additional)) missing →
      Reported options before spec after) ∧
    (Reported options before spec after ↔ ¬ Complete (batch before .empty).names spec) := by
  refine ⟨fun hhidden => ?_, reported_iff⟩
  rw [reported_iff]
  rintro ⟨declared, names', hclaim, hdefined⟩
  have hdeclared := exists_declared_of_not_hidden hclaim (definition_mem_planned hmem hraw)
    (.property hp hrefers) hhidden
  exact hdefined missing (.inl hdeclared) hnone

/-- A shop whose items are known by a code. -/
def itemShop (sourceId title : String) (others : Table Schema) : Specification :=
  CSharp.specOf sourceId title
    (others ++ [("Item", .object none none [⟨"sku", .reference "Sku", true⟩] none)]) []

/-- A shop that says what a code is. -/
def fullShop : Specification := itemShop "a.json" "First" [("Sku", .string)]

/-- A shop that does not. -/
def bareShop : Specification := itemShop "b.json" "Second" []

/-- The bare shop is reported where the full one comes after it. -/
theorem dangling_reported_bareShop :
    bareShop.definitions.get? "Sku" = none ∧ Reported {} [] bareShop [fullShop] ∧
      (generated {} [bareShop, fullShop]).emitted = ["a.json"] := by
  have hhidden : ¬ Hidden (batch [] .empty).names bareShop (.definition (normalize "Item")
      (.object none none [⟨"sku", .reference "Sku", true⟩] none)) "Sku" := by
    rintro (hthere | ⟨d', hfirst, hne, -⟩)
    · cases hthere
    · exact hne (Option.some.inj hfirst).symm
  exact ⟨rfl, (dangling_reported {} [] [fullShop] bareShop List.mem_cons_self (by decide)
    List.mem_cons_self (.reference "Sku") rfl).1 hhidden, by decide +kernel⟩

/-- A shop with two definitions of an item, which differ in how a text of them is read. -/
def garbledShop : Specification :=
  CSharp.specOf "shop.json" "Shop"
    [("Pet", .string),
     ("Item", .object none none [⟨"a:&Gone,b", .reference "Pet", true⟩] none),
     ("It em", .object none none
       [⟨"a", .reference "Gone", true⟩, ⟨"b", .reference "Pet", true⟩] none)] []

/-- **Hidden references are not reported**: the item of the bare shop behind that of the full one,
and the second item of the garbled shop behind the first. -/
theorem hidden_not_reported :
    (("Item", .object none none [⟨"sku", .reference "Sku", true⟩] none) ∈ bareShop.definitions ∧
      Name.normalize anyType "Item" ≠ anyType ∧ bareShop.definitions.get? "Sku" = none ∧
      ¬ Reported {} [fullShop] bareShop []) ∧
    ("It em", .object none none
        [⟨"a", .reference "Gone", true⟩, ⟨"b", .reference "Pet", true⟩] none) ∈
          garbledShop.definitions ∧
      Name.normalize anyType "It em" ≠ anyType ∧ garbledShop.definitions.get? "Gone" = none ∧
      ¬ Reported {} [] garbledShop [] := by
  have hbare : (emitModule bareShop (batch [fullShop] .empty).names).toOption.isSome = true := by
    decide +kernel
  have hgarbled : (emitModule garbledShop (batch [] .empty).names).toOption.isSome = true := by
    decide +kernel
  obtain ⟨bare, hbare⟩ := Option.isSome_iff_exists.mp hbare
  obtain ⟨garbled, hgarbled⟩ := Option.isSome_iff_exists.mp hgarbled
  refine ⟨⟨List.mem_cons_self, by decide, rfl, ?_⟩, ?_, by decide, rfl, ?_⟩
  · exact not_reported_of_ok (eq_ok_of_toOption hbare)
  · simp [garbledShop, CSharp.specOf]
  · exact not_reported_of_ok (eq_ok_of_toOption hgarbled)

end ClientGen.TypeScript
