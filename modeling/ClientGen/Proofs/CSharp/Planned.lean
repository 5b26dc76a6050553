import ClientGen.CSharp.Emission
import ClientGen.Proofs.CSharp.Site
import ClientGen.Proofs.CSharp.TypeName

/-!
# The sites of a specification

What planning a specification maps, and where: the members of its definitions, and what its
operations take and give.

* **Definitions** (`planDefinition_runs`): a definition that needs a model is made into one, the
  others declare nothing.
* **Signatures** (`planSignature_runs`): the types of a method are those of its sites, or built in.
* **Specifications** (`planned_of_runs`): both together. `Mapped` is a site anywhere below, and
  `Planned` says that all of them have been mapped. Every model comes from a definition or from a
  site (`origin_of_runs`).
-/

namespace ClientGen.CSharp

open Plan (Runs RunsAll)

/-- The types that need no declaration: those of the language and its library, and the payload of
operations that send nothing back, which every document declares itself. -/
def builtinTypes : List String :=
  ["string", "int", "long", "float", "double", "bool", "DateTime", "Stream", anyType, noContent]

/-! ## Definitions -/

/-- Does a definition need a model? Plain primitives and references do not. -/
def needsModel : Schema → Bool
  | .object _ _ _ _ => true
  | .array _ _ _ => true
  | .primitive p => p.isStringEnum
  | .reference _ => false

/-- A definition in the context of an error. -/
def definitionContext (raw : String) : String := "definition `" ++ typeName raw ++ "`"

/-- The sites of a definition. -/
def definitionSites (raw : String) (schema : Schema) : List Site :=
  if typeName raw = anyType then [] else modelSites (typeName raw) (definitionContext raw) schema

/-- **One definition**: it is made into a model, or it needs none. -/
theorem planDefinition_runs {definitions : Table Schema} {raw : String} {schema : Schema} {u : Unit}
    {ms : List Model} (h : (planDefinition definitions raw schema).Runs u ms) :
    (∃ m rest, typeName raw ≠ anyType ∧ needsModel schema = true ∧ ms = m :: rest ∧
      Makes definitions (typeName raw) (definitionContext raw) schema m rest) ∨
    (ms = [] ∧ definitionSites raw schema = [] ∧
      (typeName raw = anyType ∨ needsModel schema = false)) := by
  unfold planDefinition at h
  unfold definitionSites
  by_cases hany : typeName raw = anyType
  · rw [if_pos ((isAny_iff raw).mpr hany)] at h
    rw [if_pos hany]
    exact Or.inr ⟨h.pure_inv.2, rfl, Or.inl hany⟩
  · rw [if_neg (fun hraw => hany ((isAny_iff raw).mp hraw))] at h
    rw [if_neg hany]
    cases schema with
    | reference _ => exact Or.inr ⟨h.pure_inv.2, rfl, Or.inr rfl⟩
    | primitive p =>
      by_cases henum : p.isStringEnum = true
      · simp only [if_pos henum] at h
        exact Or.inl ⟨_, [], hany, henum, h.push_inv, Makes.enum henum⟩
      · simp only [if_neg henum] at h
        exact Or.inr ⟨h.pure_inv.2, rfl, Or.inr (Bool.eq_false_iff.mpr henum)⟩
    | array items description constraints =>
      obtain ⟨m, rest, hmake, rfl⟩ := h.declare_inv
      obtain ⟨item, hitem, rfl⟩ := hmake.bind_pure_inv
      rw [← Site.plan_mk] at hitem
      exact Or.inl ⟨_, rest, hany, rfl, rfl, Makes.list hitem⟩
    | object title description properties additional =>
      cases properties with
      | nil =>
        cases additional with
        | none => exact Or.inl ⟨_, [], hany, rfl, h.push_inv, Makes.empty⟩
        | some extra =>
          obtain ⟨m, rest, hmake, rfl⟩ := h.declare_inv
          obtain ⟨value, hvalue, rfl⟩ := hmake.bind_pure_inv
          rw [← Site.plan_mk] at hvalue
          exact Or.inl ⟨_, rest, hany, rfl, rfl, Makes.dictionary hvalue⟩
      | cons p ps =>
        obtain ⟨m, rest, hmake, rfl⟩ := h.declare_inv
        obtain ⟨members, hmembers, rfl⟩ := hmake.bind_pure_inv
        obtain ⟨types, hall, rfl⟩ := runsAll_of_mapProperties hmembers
        exact Or.inl ⟨_, rest, hany, rfl, rfl, Makes.object (List.cons_ne_nil p ps) hall⟩

/-! ## Signatures -/

/-- The types that a method names: of its success, of its arguments as they are written, and of the
payloads of its responses. -/
def Signature.types (s : Signature) : List String :=
  s.success.name :: s.arguments.map Argument.typeText ++ s.cases.filterMap (·.payload)

/-- The site of the success of an operation. -/
def successSites (op : Operation) (stem : String) : List Site :=
  op.successSchema?.toList.map (⟨·, stem ++ "Out", op.context⟩)

/-- The sites of parameters. -/
def parameterSites (stem context : String) (bodies : Nat) (ps : List Parameter) : List Site :=
  ps.map fun p => ⟨p.schema, argumentHint stem bodies p, context⟩

/-- The site of a response that has a payload of its own. -/
def responseSites (op : Operation) (stem : String) (code : Nat) (r : Response) : List Site :=
  (ownSchema? op r).toList.map (⟨·, stem ++ "Out" ++ toString code, op.context⟩)

/-- The sites of an operation. -/
def signatureSites (item : PathItem) (op : Operation) (stem : String) : List Site :=
  let parameters := item.effectiveParameters op
  successSites op stem ++
    (parameterSites stem op.context (parameters.filter (·.isBody)).length parameters ++
      op.codedResponses.flatMap fun (code, r) => responseSites op stem code r)

/-- A text is the type of one of the sites in one of its forms, or built in. -/
def FormedFrom (types : List TypeRef) (text : String) : Prop :=
  text ∈ builtinTypes ∨ ∃ t ∈ types, text ∈ t.forms

theorem FormedFrom.mono {types types' : List TypeRef} {text : String} (h : FormedFrom types text)
    (hsub : types ⊆ types') : FormedFrom types' text := by
  rcases h with h | ⟨t, ht, hform⟩
  · exact Or.inl h
  · exact Or.inr ⟨t, hsub ht, hform⟩

theorem formedFrom_name {types : List TypeRef} {t : TypeRef} (h : t ∈ types) :
    FormedFrom types t.name :=
  Or.inr ⟨t, h, List.mem_cons_self ..⟩

/-- The arguments for parameters, given the names in use and their types. -/
def argumentsOf : (taken : List String) → List Parameter → List TypeRef → List Argument
  | taken, p :: ps, t :: ts =>
    let argument := argumentOf p t taken
    argument :: argumentsOf (taken ++ [argument.ident]) ps ts
  | _, _, _ => []

/-- Parameters are mapped each at its site. -/
theorem runsAll_of_argumentsAfter {definitions : Table Schema} {stem context : String}
    {bodies : Nat} {ps : List Parameter} :
    ∀ {taken : List String} {args : List Argument} {ms : List Model},
      (argumentsAfter definitions stem context bodies taken ps).Runs args ms →
      ∃ types, RunsAll (Site.plan definitions) (parameterSites stem context bodies ps) types ms ∧
        args = argumentsOf taken ps types := by
  induction ps with
  | nil =>
    intro taken args ms h
    obtain ⟨rfl, rfl⟩ := h.pure_inv
    exact ⟨[], RunsAll.nil, rfl⟩
  | cons p ps ih =>
    intro taken args ms h
    rw [argumentsAfter] at h
    obtain ⟨type, ms₁, ms₂, htype, hrest, rfl⟩ := h.bind_inv
    obtain ⟨rest, hps, rfl⟩ := hrest.bind_pure_inv
    obtain ⟨types, hall, rfl⟩ := ih hps
    rw [← Site.plan_mk] at htype
    exact ⟨type :: types, RunsAll.cons htype hall, rfl⟩

theorem type_mem_of_mem_argumentsOf {ps : List Parameter} :
    ∀ {taken : List String} {types : List TypeRef} {a : Argument},
      a ∈ argumentsOf taken ps types → a.type ∈ types := by
  induction ps with
  | nil => exact fun h => (nomatch h)
  | cons p ps ih =>
    intro taken types a h
    cases types with
    | nil => cases h
    | cons t types =>
      rw [argumentsOf] at h
      rcases List.mem_cons.mp h with rfl | h
      · exact List.mem_cons_self ..
      · exact List.mem_cons_of_mem t (ih h)

theorem typeText_mem_forms (a : Argument) : a.typeText ∈ a.type.forms := by
  unfold Argument.typeText
  by_cases h : a.required = true
  · rw [if_pos h]
    exact List.mem_cons_self ..
  · rw [if_neg h]
    exact List.mem_cons_of_mem _ (List.mem_cons_self ..)

theorem mem_of_mem_signatureOrder {args : List Argument} {a : Argument}
    (h : a ∈ signatureOrder args) : a ∈ args := by
  rcases List.mem_append.mp h with h | h
  · exact (List.mem_filter.mp h).1
  · exact (List.mem_filter.mp h).1

theorem arguments_runs {spec : Specification} {item : PathItem} {op : Operation} {stem : String}
    {args : List Argument} {ms : List Model} (h : (arguments spec item op stem).Runs args ms) :
    ∃ types, RunsAll (Site.plan spec.definitions)
        (parameterSites stem op.context
          ((item.effectiveParameters op).filter (·.isBody)).length (item.effectiveParameters op))
        types ms ∧ ∀ a ∈ args, FormedFrom types a.typeText := by
  unfold arguments at h
  obtain ⟨rest, hrest, rfl⟩ := h.bind_pure_inv
  obtain ⟨types, hall, rfl⟩ := runsAll_of_argumentsAfter hrest
  refine ⟨types, hall, fun a ha => ?_⟩
  rcases List.mem_append.mp ha with ha | ha
  · -- the token is text
    by_cases hsecured : op.oauthSecured = true
    · rw [if_pos hsecured, List.mem_singleton] at ha
      rw [ha]
      exact Or.inl (by decide)
    · rw [if_neg hsecured] at ha
      cases ha
  · have htype := type_mem_of_mem_argumentsOf (mem_of_mem_signatureOrder ha)
    exact Or.inr ⟨a.type, htype, typeText_mem_forms a⟩

theorem successType_runs {spec : Specification} {op : Operation} {stem : String} {t : TypeRef}
    {ms : List Model} (h : (successType spec op stem).Runs t ms) :
    ∃ types, RunsAll (Site.plan spec.definitions) (successSites op stem) types ms ∧
      FormedFrom types t.name := by
  unfold successType at h
  unfold successSites
  rcases hs : op.successSchema? with _ | schema
  · rw [hs] at h
    obtain ⟨rfl, rfl⟩ := h.pure_inv
    exact ⟨[], RunsAll.nil, Or.inl (by decide)⟩
  · simp only [hs] at h
    rw [← Site.plan_mk] at h
    exact ⟨[t], RunsAll.single h, formedFrom_name (List.mem_singleton_self t)⟩

theorem responsePayload_runs {spec : Specification} {op : Operation} {stem : String}
    {success : TypeRef} {code : Nat} {r : Response} {payload : Option String} {ms : List Model}
    (h : (responsePayload spec op stem success code r).Runs payload ms) :
    ∃ types, RunsAll (Site.plan spec.definitions) (responseSites op stem code r) types ms ∧
      ∀ text ∈ payload, text = success.name ∨ FormedFrom types text := by
  unfold responsePayload at h
  unfold responseSites
  rcases hs : ownSchema? op r with _ | schema
  · rw [hs] at h
    obtain ⟨rfl, rfl⟩ := h.pure_inv
    refine ⟨[], RunsAll.nil, fun text htext => ?_⟩
    unfold successPayload at htext
    by_cases hnone : success.name = noContent
    · rw [if_pos hnone] at htext
      cases htext
    · rw [if_neg hnone] at htext
      cases htext
      exact Or.inl rfl
  · rw [hs] at h
    obtain ⟨t, ht, rfl⟩ := h.bind_pure_inv
    rw [← Site.plan_mk] at ht
    refine ⟨[t], RunsAll.single ht, fun text htext => ?_⟩
    cases htext
    exact Or.inr (formedFrom_name (List.mem_singleton_self t))

theorem responseCases_runs {spec : Specification} {op : Operation} {stem : String}
    {success : TypeRef} {coded : List (Nat × Response)} :
    ∀ {cases : List ResponseCase} {ms : List Model},
      (coded.mapM fun (code, r) => responseCase spec op stem success code r).Runs cases ms →
      ∃ types, RunsAll (Site.plan spec.definitions)
          (coded.flatMap fun (code, r) => responseSites op stem code r) types ms ∧
        ∀ text ∈ cases.filterMap (·.payload), text = success.name ∨ FormedFrom types text := by
  induction coded with
  | nil =>
    intro cases ms h
    rw [List.mapM_nil] at h
    obtain ⟨rfl, rfl⟩ := h.pure_inv
    exact ⟨[], RunsAll.nil, fun _ h => (nomatch h)⟩
  | cons entry coded ih =>
    obtain ⟨code, r⟩ := entry
    intro cases ms h
    rw [List.mapM_cons] at h
    obtain ⟨c, ms₁, ms₂, hc, htail, rfl⟩ := h.bind_inv
    obtain ⟨cs, hcs, rfl⟩ := htail.bind_pure_inv
    obtain ⟨payload, hpayload, rfl⟩ := Runs.bind_pure_inv hc
    obtain ⟨types, hall, hforms⟩ := responsePayload_runs hpayload
    obtain ⟨types', hall', hforms'⟩ := ih hcs
    rw [List.flatMap_cons]
    refine ⟨types ++ types', hall.append hall', fun text htext => ?_⟩
    rw [List.filterMap_cons] at htext
    -- the payload of the first response, if it has one, or one of the others
    have hcase : payload = some text ∨ text ∈ cs.filterMap (·.payload) := by
      cases payload with
      | none => exact Or.inr htext
      | some own =>
        rcases List.mem_cons.mp htext with rfl | htext
        · exact Or.inl rfl
        · exact Or.inr htext
    rcases hcase with hown | htext
    · exact (hforms text hown).imp_right (·.mono (List.subset_append_left types types'))
    · exact (hforms' text htext).imp_right (·.mono (List.subset_append_right types types'))

/-- **One method**: its types are those of its sites, or built in. -/
theorem planSignature_runs {spec : Specification} {item : PathItem} {op : Operation} {stem : String}
    {sig : Signature} {ms : List Model} (h : (planSignature spec item op stem).Runs sig ms) :
    ∃ types, RunsAll (Site.plan spec.definitions) (signatureSites item op stem) types ms ∧
      ∀ text ∈ sig.types, FormedFrom types text := by
  unfold planSignature at h
  obtain ⟨success, ms₁, ms₂, hsuccess, hrest, rfl⟩ := h.bind_inv
  obtain ⟨args, ms₂, ms₃, hargs, hlast, rfl⟩ := hrest.bind_inv
  obtain ⟨cases, hcases, rfl⟩ := hlast.bind_pure_inv
  obtain ⟨types₁, hall₁, hforms₁⟩ := successType_runs hsuccess
  obtain ⟨types₂, hall₂, hforms₂⟩ := arguments_runs hargs
  obtain ⟨types₃, hall₃, hforms₃⟩ := responseCases_runs hcases
  refine ⟨types₁ ++ (types₂ ++ types₃), hall₁.append (hall₂.append hall₃), fun text htext => ?_⟩
  have hsuccess' : FormedFrom (types₁ ++ (types₂ ++ types₃)) success.name :=
    hforms₁.mono (List.subset_append_left ..)
  rcases List.mem_append.mp htext with htext | htext
  · rcases List.mem_cons.mp htext with rfl | htext
    · exact hsuccess'
    · obtain ⟨a, ha, rfl⟩ := List.mem_map.mp htext
      refine (hforms₂ a ha).mono ?_
      exact List.subset_append_of_subset_right _ (List.subset_append_left ..)
  · rcases hforms₃ text htext with rfl | hform
    · exact hsuccess'
    · refine hform.mono ?_
      exact List.subset_append_of_subset_right _ (List.subset_append_right ..)

/-! ## Specifications -/

/-- The operations of a specification, with the names of their methods. -/
def namedOperations (spec : Specification) : List ((PathItem × Operation) × String) :=
  spec.operations.zip (methodNames [] (spec.operations.map (·.2)))

/-- The sites that planning a specification starts from. -/
def specSites (spec : Specification) : List Site :=
  (spec.definitions.flatMap fun (raw, schema) => definitionSites raw schema) ++
    (namedOperations spec).flatMap fun ((item, op), name) =>
      signatureSites item op (upperFirst name)

/-- A site that planning a specification comes to. -/
def Mapped (spec : Specification) (s : Site) : Prop := ∃ root ∈ specSites spec, root.Within s

/-- A text is built in, or one of the forms of the type of a site of the specification. -/
def Written (spec : Specification) (text : String) : Prop :=
  text ∈ builtinTypes ∨
    ∃ s t, Mapped spec s ∧ (s.plan spec.definitions).outcome = .ok t ∧ text ∈ t.forms

/-- The model is made from a schema, and the types that it names are those of sites. -/
structure MadeIn (spec : Specification) (m : Model) : Prop where
  makes : ∃ name context schema rest, Makes spec.definitions name context schema m rest
  written : ∀ text ∈ m.types, Written spec text

/-- What is known of a specification that has been planned. -/
structure Planned (spec : Specification) (client : Client) (ms : List Model) : Prop where
  /-- every site has been mapped, and the models it needs are declared -/
  mapped : ∀ s, Mapped spec s → MapsInto spec.definitions ms s
  /-- every definition that needs a model has one -/
  defined : ∀ raw schema, (raw, schema) ∈ spec.definitions → typeName raw ≠ anyType →
    needsModel schema = true →
    ∃ m ∈ ms, ∃ rest, Makes spec.definitions (typeName raw) (definitionContext raw) schema m rest
  made : ∀ m ∈ ms, MadeIn spec m
  /-- the types that methods name are those of sites -/
  methods : ∀ method ∈ client.methods, ∀ text ∈ method.signature.types, Written spec text

theorem mapped_of_mem {spec : Specification} {s : Site} (h : s ∈ specSites spec) : Mapped spec s :=
  ⟨s, h, Relation.ReflTransGen.refl⟩

theorem Mapped.part {spec : Specification} {s part : Site} (h : Mapped spec s)
    (hpart : part ∈ s.parts) : Mapped spec part := by
  obtain ⟨root, hroot, hw⟩ := h
  exact ⟨root, hroot, hw.tail hpart⟩

/-- What is formed from the types of sites is written from them. -/
theorem written_of_formedFrom {spec : Specification} {sites : List Site} {types : List TypeRef}
    {ms : List Model} (hall : RunsAll (Site.plan spec.definitions) sites types ms)
    (hsites : ∀ s ∈ sites, Mapped spec s) {text : String} (h : FormedFrom types text) :
    Written spec text := by
  rcases h with h | ⟨t, ht, hform⟩
  · exact Or.inl h
  · obtain ⟨s, hs, ms', hrun, -⟩ := hall.of_mem_result ht
    exact Or.inr ⟨s, t, hsites s hs, hrun.outcome, hform⟩

/-- The sites of a definition are sites of the specification. -/
theorem mem_specSites_of_definition {spec : Specification} {raw : String} {schema : Schema}
    (h : (raw, schema) ∈ spec.definitions) (hany : typeName raw ≠ anyType) :
    ∀ s ∈ modelSites (typeName raw) (definitionContext raw) schema, s ∈ specSites spec := by
  intro s hs
  refine List.mem_append_left _ (List.mem_flatMap.mpr ⟨(raw, schema), h, ?_⟩)
  show s ∈ definitionSites raw schema
  rw [definitionSites, if_neg hany]
  exact hs

/-- Where a model comes from: it is that of a definition, which does not go by the name of any
value, or it is made at a site. -/
inductive Origin (spec : Specification) (m : Model) : Prop
  | definition {raw : String} {schema : Schema} {rest : List Model} :
      (raw, schema) ∈ spec.definitions → typeName raw ≠ anyType →
      Makes spec.definitions (typeName raw) (definitionContext raw) schema m rest → Origin spec m
  | site {s : Site} : Mapped spec s → MadeAt spec.definitions s m → Origin spec m

/-- Either way it is made from a schema, and the types that it names are those of sites. -/
theorem Origin.madeIn {spec : Specification} {m : Model} (h : Origin spec m) : MadeIn spec m := by
  cases h with
  | definition hmem hany hmake =>
    refine ⟨⟨_, _, _, _, hmake⟩, fun text htext => ?_⟩
    obtain ⟨types, hsites, hforms⟩ := hmake.formed
    have hmapped := mem_specSites_of_definition hmem hany
    exact written_of_formedFrom hsites (fun s hs => mapped_of_mem (hmapped s hs))
      (Or.inr (hforms text htext))
  | site hmapped hmade =>
    obtain ⟨hnameless, rest, hmake⟩ := hmade
    refine ⟨⟨_, _, _, rest, hmake⟩, fun text htext => ?_⟩
    obtain ⟨types, hparts, hforms⟩ := hmake.formed
    rw [modelSites_eq_parts hnameless] at hparts
    exact written_of_formedFrom hparts (fun part hpart => hmapped.part hpart)
      (Or.inr (hforms text htext))

/-- What sites declare is made at sites. -/
theorem origin_of_runsAll {spec : Specification} {sites : List Site} {types : List TypeRef}
    {ms : List Model} (hall : RunsAll (Site.plan spec.definitions) sites types ms)
    (hsites : ∀ s ∈ sites, s ∈ specSites spec) {m : Model} (hm : m ∈ ms) : Origin spec m := by
  obtain ⟨root, hroot, t, ms', hrun, hm⟩ := hall.of_mem_models hm
  obtain ⟨s, hw, hmade⟩ := exists_madeAt_of_mem root hrun m hm
  exact .site ⟨root, hsites root hroot, hw⟩ hmade

theorem planMethod_runs {spec : Specification} {options : EmitOptions} {item : PathItem}
    {op : Operation} {name : String} {method : ClientMethod} {ms : List Model}
    (h : (planMethod spec options item op name).Runs method ms) :
    (planSignature spec item op (upperFirst name)).Runs method.signature ms := by
  unfold planMethod at h
  obtain ⟨sig, ms₁, ms₂, hsig, hrest, rfl⟩ := h.bind_inv
  obtain ⟨u, hwarn, rfl⟩ := hrest.bind_pure_inv
  rw [hwarn.warnIf_inv, List.append_nil]
  exact hsig

/-- **All definitions.** -/
theorem planDefinitions_runs {spec : Specification} {u : Unit} {ms : List Model}
    (h : (planDefinitions spec).Runs u ms) :
    (∀ entry ∈ spec.definitions, ∀ root ∈ definitionSites entry.1 entry.2,
      MapsInto spec.definitions ms root) ∧
    (∀ entry ∈ spec.definitions, typeName entry.1 ≠ anyType → needsModel entry.2 = true →
      ∃ m ∈ ms, ∃ rest,
        Makes spec.definitions (typeName entry.1) (definitionContext entry.1) entry.2 m rest) ∧
    ∀ m ∈ ms, Origin spec m := by
  obtain ⟨units, hall⟩ := h.forM_inv
  refine ⟨?_, ?_, ?_⟩
  · intro entry hentry root hroot
    obtain ⟨v, ms', hrun, hsub⟩ := hall.of_mem hentry
    rcases planDefinition_runs hrun with ⟨m, rest, hany, -, rfl, hmake⟩ | ⟨-, hnone, -⟩
    · rw [definitionSites, if_neg hany] at hroot
      obtain ⟨types, hsites, -⟩ := hmake.formed
      have hrest : MapsInto spec.definitions rest root := hsites.of_mem hroot
      exact (hrest.mono (List.subset_cons_self m rest)).mono hsub
    · rw [hnone] at hroot
      cases hroot
  · intro entry hentry hany hneeds
    obtain ⟨v, ms', hrun, hsub⟩ := hall.of_mem hentry
    rcases planDefinition_runs hrun with ⟨m, rest, -, -, rfl, hmake⟩ | ⟨-, -, hno | hno⟩
    · exact ⟨m, hsub (List.mem_cons_self ..), rest, hmake⟩
    · exact absurd hno hany
    · rw [hneeds] at hno
      cases hno
  · intro m hm
    obtain ⟨entry, hentry, v, ms', hrun, hm⟩ := hall.of_mem_models hm
    rcases planDefinition_runs hrun with ⟨own, rest, hany, -, rfl, hmake⟩ | ⟨rfl, -, -⟩
    · -- the model of the definition itself, or one that a site below it needs
      rcases List.mem_cons.mp hm with rfl | hm
      · exact .definition hentry hany hmake
      · obtain ⟨types, hsites, -⟩ := hmake.formed
        exact origin_of_runsAll hsites (mem_specSites_of_definition hentry hany) hm
    · cases hm

/-- **All operations.** -/
theorem planClient_runs {spec : Specification} {options : EmitOptions} {client : Client}
    {ms : List Model} (h : (planClient spec options).Runs client ms) :
    (∀ entry ∈ namedOperations spec,
      ∀ root ∈ signatureSites entry.1.1 entry.1.2 (upperFirst entry.2),
      MapsInto spec.definitions ms root) ∧
    (∀ m ∈ ms, Origin spec m) ∧
    ∀ method ∈ client.methods, ∀ text ∈ method.signature.types, Written spec text := by
  unfold planClient at h
  obtain ⟨methods, hmethods, rfl⟩ := h.bind_pure_inv
  have hall := hmethods.mapM_inv
  have hmem : ∀ entry ∈ namedOperations spec,
      ∀ s ∈ signatureSites entry.1.1 entry.1.2 (upperFirst entry.2), s ∈ specSites spec := by
    intro entry hentry s hs
    exact List.mem_append_right _ (List.mem_flatMap.mpr ⟨entry, hentry, hs⟩)
  refine ⟨?_, ?_, ?_⟩
  · intro entry hentry root hroot
    obtain ⟨method, ms', hrun, hsub⟩ := hall.of_mem hentry
    obtain ⟨types, hsites, -⟩ := planSignature_runs (planMethod_runs hrun)
    exact MapsInto.mono (hsites.of_mem hroot) hsub
  · intro m hm
    obtain ⟨entry, hentry, method, ms', hrun, hm⟩ := hall.of_mem_models hm
    obtain ⟨types, hsites, -⟩ := planSignature_runs (planMethod_runs hrun)
    exact origin_of_runsAll hsites (hmem entry hentry) hm
  · intro method hmethod text htext
    obtain ⟨entry, hentry, ms', hrun, -⟩ := hall.of_mem_result hmethod
    obtain ⟨types, hsites, hforms⟩ := planSignature_runs (planMethod_runs hrun)
    exact written_of_formedFrom hsites (fun s hs => mapped_of_mem (hmem entry hentry s hs))
      (hforms text htext)

/-- Every planned model has an origin. -/
theorem origin_of_runs {spec : Specification} {options : EmitOptions} {client : Client}
    {ms : List Model} (h : (planSpec spec options).Runs client ms) : ∀ m ∈ ms, Origin spec m := by
  rw [planSpec] at h
  obtain ⟨u, ms₁, ms₂, hdefinitions, hclient, rfl⟩ := h.bind_inv
  intro m hm
  rcases List.mem_append.mp hm with hm | hm
  · exact (planDefinitions_runs hdefinitions).2.2 m hm
  · exact (planClient_runs hclient).2.1 m hm

/-- **One specification.** -/
theorem planned_of_runs {spec : Specification} {options : EmitOptions} {client : Client}
    {ms : List Model} (h : (planSpec spec options).Runs client ms) : Planned spec client ms := by
  have horigin := origin_of_runs h
  unfold planSpec at h
  obtain ⟨u, ms₁, ms₂, hdefinitions, hclient, rfl⟩ := h.bind_inv
  obtain ⟨hroots₁, hdefined, -⟩ := planDefinitions_runs hdefinitions
  obtain ⟨hroots₂, -, hmethods⟩ := planClient_runs hclient
  refine ⟨?_, ?_, fun m hm => (horigin m hm).madeIn, hmethods⟩
  · rintro s ⟨root, hroot, hw⟩
    refine MapsInto.within ?_ hw
    rcases List.mem_append.mp hroot with hroot | hroot
    · obtain ⟨entry, hentry, hroot⟩ := List.mem_flatMap.mp hroot
      exact (hroots₁ entry hentry root hroot).mono (List.subset_append_left ms₁ ms₂)
    · obtain ⟨entry, hentry, hroot⟩ := List.mem_flatMap.mp hroot
      exact (hroots₂ entry hentry root hroot).mono (List.subset_append_right ms₁ ms₂)
  · intro raw schema hmem hany hneeds
    obtain ⟨m, hm, rest, hmake⟩ := hdefined (raw, schema) hmem hany hneeds
    exact ⟨m, List.mem_append_left _ hm, rest, hmake⟩

end ClientGen.CSharp
