import ClientGen.Proofs.CSharp.Scope
import ClientGen.Proofs.Emission.Lookup

/-!
# References that dangle

A specification is planned before any of its names is claimed, so what others have declared has no
say in whether its references are found.

* `exists_within_of_refers` — a name that a schema refers to is looked up at a site below it.
* `Plan.OnlyMissing` — **plans fail over missing names only**, from one reference
  (`followReference_failsOnly`) to a whole specification (`planSpec_onlyMissing`).
* `dangling_unresolved` — so a property that refers to a missing name stops the specification, and a
  name that stops it is missing.
-/

namespace ClientGen.CSharp

variable {definitions : Table Schema}

/-! ## Sites of references -/

theorem Site.Within.of_part {s part t : Site} (h : part.Within t) (hpart : part ∈ s.parts) :
    s.Within t :=
  Relation.ReflTransGen.head hpart h

/-- A reference inside a schema has a site of its own. By induction on where it stands. -/
theorem exists_within_of_refers {s : Schema} {name : String} (h : s.Refers name) :
    ∀ hint context, ∃ site, (Site.mk s hint context).Within site ∧
      site.schema = .reference name := by
  induction h with
  | reference name => exact fun hint context => ⟨_, Relation.ReflTransGen.refl, rfl⟩
  | array _ ih =>
    intro hint context
    obtain ⟨site, hw, hsite⟩ := ih hint context
    exact ⟨site, hw.of_part (List.mem_singleton_self _), hsite⟩
  | @property _ _ properties _ p _ hp _ ih =>
    intro hint context
    obtain ⟨site, hw, hsite⟩ :=
      ih (memberTypeName (typeName hint) p.name) (context ++ "." ++ p.name)
    refine ⟨site, hw.of_part ?_, hsite⟩
    obtain ⟨q, qs, rfl⟩ := List.exists_cons_of_ne_nil (List.ne_nil_of_mem hp)
    exact List.mem_map_of_mem hp
  | additional _ ih =>
    intro hint context
    obtain ⟨site, hw, hsite⟩ := ih (hint ++ "Value") context
    exact ⟨site, hw.of_part (List.mem_singleton_self _), hsite⟩

/-- A name without a definition is not resolved, however many aliases are followed. -/
theorem resolveReference_of_missing {name : String} (h : definitions.get? name = none)
    (context : String) :
    resolveReference definitions name context = .error (.unresolvedReference name context) := by
  rw [resolveReference, maxAliasDepth, followReference, h]

/-- Once a specification is planned, its properties refer to definitions. -/
theorem Planned.defined_of_refers {spec : Specification} {client : Client} {ms : List Model}
    (h : Planned spec client ms) {raw : String} {title description : Option String}
    {properties : List (Property Schema)} {additional : Option Schema}
    (hmem : (raw, .object title description properties additional) ∈ spec.definitions)
    (hany : typeName raw ≠ anyType) {p : Property Schema} (hp : p ∈ properties) {name : String}
    (hrefers : p.schema.Refers name) : spec.definitions.get? name ≠ none := by
  obtain ⟨⟨_, hint, context⟩, hw, rfl⟩ := exists_within_of_refers hrefers
    (memberTypeName (typeName raw) p.name) (definitionContext raw ++ "." ++ p.name)
  have hroot : Site.ofProperty (typeName raw) (definitionContext raw) p ∈ specSites spec := by
    apply mem_specSites_of_definition hmem hany
    obtain ⟨q, qs, rfl⟩ := List.exists_cons_of_ne_nil (List.ne_nil_of_mem hp)
    exact List.mem_map_of_mem hp
  obtain ⟨t, _, hrun, -⟩ := h.mapped ⟨.reference name, hint, context⟩ ⟨_, hroot, hw⟩
  intro hnone
  have hresolve : resolveReference spec.definitions name context = .ok t :=
    hrun.ofExcept_inv.1
  rw [resolveReference_of_missing hnone] at hresolve
  cases hresolve

/-! ## Plans fail over missing names only -/

namespace Plan

variable {α β : Type} {x : Plan α}

/-- The plan fails over names without a definition, and over nothing else. -/
def OnlyMissing (definitions : Table Schema) (x : Plan α) : Prop :=
  FailsOnly (Missing definitions fun _ => True) x.outcome

namespace OnlyMissing

theorem pure (a : α) : OnlyMissing definitions (pure a) := FailsOnly.ok a

theorem bind {f : α → Plan β} (h : x.OnlyMissing definitions)
    (hf : ∀ a, (f a).OnlyMissing definitions) : (x >>= f).OnlyMissing definitions := by
  rw [OnlyMissing, outcome_bind]
  exact FailsOnly.bind h hf

theorem declare {make : Plan Model} (h : make.OnlyMissing definitions) :
    (Plan.declare make).OnlyMissing definitions := by
  intro e he
  apply h
  rw [Plan.declare] at he
  cases hmake : make.outcome with
  | ok m => simp [hmake] at he
  | error e' => simpa [hmake] using he

theorem mapM {f : α → Plan β} {l : List α} (h : ∀ a ∈ l, (f a).OnlyMissing definitions) :
    (l.mapM f).OnlyMissing definitions := by
  induction l with
  | nil => exact pure []
  | cons a l ih =>
    rw [List.mapM_cons]
    refine (h a List.mem_cons_self).bind fun b => ?_
    exact (ih fun c hc => h c (List.mem_cons_of_mem a hc)).bind fun bs => pure (b :: bs)

theorem forM {f : α → Plan Unit} {l : List α} (h : ∀ a ∈ l, (f a).OnlyMissing definitions) :
    (l.forM f).OnlyMissing definitions := by
  induction l with
  | nil => exact pure ()
  | cons a l ih =>
    rw [List.forM]
    exact (h a List.mem_cons_self).bind fun _ => ih fun b hb => h b (List.mem_cons_of_mem a hb)

end OnlyMissing

end Plan

open Plan (OnlyMissing)

/-- **One reference**: the name that is not found is the end of its chain of aliases. -/
theorem followReference_failsOnly (context : String) (fuel : Nat) (name : String) :
    FailsOnly (Missing definitions fun _ => True)
      (followReference definitions context fuel name) := by
  induction fuel generalizing name with
  | zero => exact .ok _
  | succ fuel ih =>
    rw [followReference]
    split
    · next hnone => exact .error ⟨name, context, rfl, trivial, hnone⟩
    · split
      · exact .ok _
      · split
        · exact ih _
        · split <;> exact .ok _
        · exact .ok _
        · exact .ok _

mutual

/-- **One schema.** -/
theorem mapSchema_onlyMissing : ∀ (s : Schema) (hint context : String),
    (mapSchema definitions s hint context).OnlyMissing definitions
  | .reference name, hint, context => followReference_failsOnly context maxAliasDepth name
  | .array items _ _, hint, context => by
    rw [mapSchema]
    exact (mapSchema_onlyMissing items hint context).bind fun _ => .pure _
  | .object title description properties additional, hint, context => by
    rw [mapSchema]
    split
    · exact mapDictionary_onlyMissing additional (hint ++ "Value") context
    · refine OnlyMissing.bind (.declare ?_) fun _ => .pure _
      exact (mapProperties_onlyMissing properties (typeName hint) context []).bind fun _ => .pure _
  | .primitive p, hint, context => by
    rw [mapSchema]
    split
    · exact FailsOnly.ok _
    · exact .pure _
termination_by structural s => s

theorem mapDictionary_onlyMissing : ∀ (extra : Option Schema) (hint context : String),
    (mapDictionary definitions extra hint context).OnlyMissing definitions
  | none, _, _ => .pure _
  | some extra, hint, context => by
    rw [mapDictionary]
    exact (mapSchema_onlyMissing extra hint context).bind fun _ => .pure _
termination_by structural extra => extra

theorem mapProperties_onlyMissing : ∀ (properties : List (Property Schema))
    (owner context : String) (taken : List String),
    (mapProperties definitions properties owner context taken).OnlyMissing definitions
  | [], _, _, _ => .pure _
  | ⟨wireName, schema, required⟩ :: properties, owner, context, taken => by
    rw [mapProperties]
    refine (mapSchema_onlyMissing schema _ _).bind fun type => ?_
    exact (mapProperties_onlyMissing properties owner context _).bind fun _ => .pure _
termination_by structural properties => properties

end

theorem planDefinition_onlyMissing (raw : String) (schema : Schema) :
    (planDefinition definitions raw schema).OnlyMissing definitions := by
  rw [planDefinition]
  split
  · exact .pure _
  · dsimp only
    split
    · exact FailsOnly.ok _
    · exact .declare ((mapSchema_onlyMissing _ _ _).bind fun _ => .pure _)
    · exact .declare ((mapProperties_onlyMissing _ _ _ _).bind fun _ => .pure _)
    · exact .declare ((mapSchema_onlyMissing _ _ _).bind fun _ => .pure _)
    · split
      · exact FailsOnly.ok _
      · exact .pure _
    · exact .pure _

theorem argumentsAfter_onlyMissing (stem context : String) (bodies : Nat) (ps : List Parameter)
    (taken : List String) :
    (argumentsAfter definitions stem context bodies taken ps).OnlyMissing definitions := by
  induction ps generalizing taken with
  | nil => exact .pure _
  | cons p ps ih =>
    rw [argumentsAfter]
    exact (mapSchema_onlyMissing _ _ _).bind fun _ => (ih _).bind fun _ => .pure _

section Specification

variable (spec : Specification)

theorem successType_onlyMissing (op : Operation) (stem : String) :
    (successType spec op stem).OnlyMissing spec.definitions := by
  rw [successType]
  split
  · exact mapSchema_onlyMissing _ _ _
  · exact .pure _

theorem responseCases_onlyMissing (op : Operation) (stem : String) (success : TypeRef) :
    (responseCases spec op stem success).OnlyMissing spec.definitions := by
  refine OnlyMissing.mapM fun entry _ => ?_
  refine OnlyMissing.bind ?_ fun _ => .pure _
  rw [responsePayload]
  split
  · exact (mapSchema_onlyMissing _ _ _).bind fun _ => .pure _
  · exact .pure _

theorem planMethod_onlyMissing (options : EmitOptions) (item : PathItem) (op : Operation)
    (name : String) : (planMethod spec options item op name).OnlyMissing spec.definitions := by
  have hsignature :
      (planSignature spec item op (upperFirst name)).OnlyMissing spec.definitions := by
    refine (successType_onlyMissing spec op _).bind fun success => ?_
    refine ((argumentsAfter_onlyMissing _ _ _ _ _).bind fun _ => .pure _).bind fun _ => ?_
    exact (responseCases_onlyMissing spec op _ success).bind fun _ => .pure _
  exact hsignature.bind fun _ => OnlyMissing.bind (FailsOnly.ok ()) fun _ => .pure _

/-- **A whole specification.** -/
theorem planSpec_onlyMissing (options : EmitOptions) :
    (planSpec spec options).OnlyMissing spec.definitions := by
  refine OnlyMissing.bind (.forM fun entry _ => planDefinition_onlyMissing _ _) fun _ => ?_
  exact OnlyMissing.bind (.mapM fun entry _ => planMethod_onlyMissing spec options _ _ _)
    fun _ => .pure _

end Specification

/-! ## Emission -/

/-- The error is about a name that is taken. -/
def IsCollision (e : EmitError) : Prop := ∃ name, e = .nameCollision name

theorem claim_failsOnly (registry : Registry) (name shape : String) :
    FailsOnly IsCollision (registry.claim name shape) := by
  rw [Registry.claim]
  split
  · exact .ok _
  · exact .ok _
  · exact .error ⟨name, rfl⟩

theorem claimModels_failsOnly (registry : Registry) (ms : List Model) :
    FailsOnly IsCollision (claimModels registry ms) := by
  induction ms generalizing registry with
  | nil => exact .ok _
  | cons m ms ih =>
    rw [claimModels]
    exact (claim_failsOnly registry _ _).bind fun _ => (ih _).bind fun _ => .ok _

/-- What is left to fail after planning are claims. -/
theorem claimPart_failsOnly (spec : Specification) (registry : Registry) (models : List Model)
    (client : Client) : FailsOnly IsCollision (claimPart spec registry models client) := by
  rw [claimPart]
  refine (claim_failsOnly registry _ _).bind fun _ => ?_
  exact (claimModels_failsOnly _ models).bind fun _ => .ok _

/-- Emission is stopped by a reference exactly if planning fails, and then with the same error. -/
theorem emitSpec_eq_unresolved_iff {spec : Specification} {options : EmitOptions}
    {registry : Registry} {name context : String} :
    (emitSpec spec options registry).2 = .error (.unresolvedReference name context) ↔
      (planSpec spec options).outcome = .error (.unresolvedReference name context) := by
  rw [emitSpec]
  cases hplan : (planSpec spec options).outcome with
  | error e => simp [Except.bind]
  | ok client =>
    constructor
    · intro h
      obtain ⟨_, hcollision⟩ := claimPart_failsOnly spec registry _ client _ h
      cases hcollision
    · rintro ⟨⟩

/-- **Dangling references are reported.** Whatever is declared already: where a property of an
object refers to a name without a definition, the specification fails with an unresolved reference;
and where it fails with one, the name has no definition. -/
theorem dangling_unresolved (spec : Specification) (options : EmitOptions) (registry : Registry) :
    (∀ raw title description properties additional,
      (raw, Schema.object title description properties additional) ∈ spec.definitions →
      Name.normalize anyType raw ≠ anyType →
      ∀ p ∈ properties, ∀ missing, p.schema.Refers missing →
      spec.definitions.get? missing = none →
      ∃ name context,
        (emitSpec spec options registry).2 = .error (.unresolvedReference name context)) ∧
    ∀ name context,
      (emitSpec spec options registry).2 = .error (.unresolvedReference name context) →
      spec.definitions.get? name = none := by
  constructor
  · intro raw title description properties additional hmem hraw p hp missing hrefers hnone
    have hany : typeName raw ≠ anyType := by
      rw [Ne, ← isAny_iff, Name.isAny, decide_eq_true_eq]
      exact hraw
    cases hplan : (planSpec spec options).outcome with
    | ok client =>
      have hplanned := planned_of_runs (Plan.Runs.mk hplan rfl)
      exact absurd hnone (hplanned.defined_of_refers hmem hany hp hrefers)
    | error e =>
      obtain ⟨name, context, rfl, -, -⟩ := planSpec_onlyMissing spec options e hplan
      exact ⟨name, context, emitSpec_eq_unresolved_iff.mpr hplan⟩
  · intro name context h
    obtain ⟨_, _, he, -, hnone⟩ :=
      planSpec_onlyMissing spec options _ (emitSpec_eq_unresolved_iff.mp h)
    cases he
    exact hnone

/-- A basket with shelves of lists of something that is not defined. -/
def basket : Specification :=
  specOf "basket.json" "Basket"
    [("Basket", .object none none
      [⟨"label", .string, true⟩,
       ⟨"shelves", .object none none [] (some (.array (.reference "Gone") none {})), false⟩] none)]
    []

/-- A registry that has its definitions already. -/
def basketRegistry : Registry := ⟨basket.definitions.map fun entry => (entry.1, entry.2.shape)⟩

/-- The basket is not emitted, although a type of its name and shape is declared. -/
theorem dangling_unresolved_basket :
    (planSpec basket {}).outcome =
        .error (.unresolvedReference "Gone" "definition `Basket`.shelves") ∧
      ∃ name context, (emitSpec basket {} basketRegistry).2 =
        .error (.unresolvedReference name context) ∧ basket.definitions.get? name = none := by
  have hrefers : (Schema.object none none [] (some (.array (.reference "Gone") none {}))).Refers
      "Gone" := .additional (.array (.reference "Gone"))
  obtain ⟨hdangling, hmissing⟩ := dangling_unresolved basket {} basketRegistry
  obtain ⟨name, context, h⟩ := hdangling "Basket" none none _ none List.mem_cons_self (by decide)
    ⟨"shelves", _, false⟩ (by simp) "Gone" hrefers rfl
  exact ⟨rfl, name, context, h, hmissing name context h⟩

end ClientGen.CSharp
