import ClientGen.Emission.Generate
import ClientGen.Proofs.CSharp.Reference
import ClientGen.Proofs.Emission.Batch
import ClientGen.Proofs.Emission.Registry

/-!
# The scope of a C# document is closed

Every type that a document names is built in or declared in it, and a type is a value type exactly
when it is declared as an enum. Three layers:

* **Sites** (`inScope_of_mapped`, `exists_model_of_names`): the type of a site is in the scope of
  the models that its specification plans, by induction over sites.
* **Claims** (`claimed_of_claimModels`, `Accounted`): a planned model is declared, or was declared
  already with the same name and shape, and a shape tells enums from classes.
* **Batches** (`accounted_batch`): the registry accounts for every model of the document. The main
  statement, `scope_closed`, puts the layers together.
-/

namespace ClientGen.CSharp

-- names are compared, never computed, in what follows
attribute [local irreducible] typeName

/-! ## Sites -/

/-- The name inside the wrappers of a type is built in, or the name of one of the models. -/
def InScope (models : List Model) (text : String) : Prop :=
  baseName text ∈ builtinTypes ∨ ∃ m ∈ models, m.name = baseName text

theorem baseName_builtin : ∀ text ∈ builtinTypes, baseName text = text := by
  intro text htext
  have hchars : builtinTypes.all (fun builtin => builtin.toList.all fun c =>
      c ≠ ']' ∧ c ≠ '?' ∧ c ≠ '>') = true := by decide
  have htextChars := List.all_eq_true.mp hchars text htext
  exact baseName_eq_self fun c hc => of_decide_eq_true (List.all_eq_true.mp htextChars c hc)

theorem inScope_builtin {models : List Model} {text : String} (h : text ∈ builtinTypes) :
    InScope models text := by
  refine Or.inl ?_
  rw [baseName_builtin text h]
  exact h

/-- All forms of a type have the same name inside. -/
theorem baseName_of_mem_forms {t : TypeRef} {text : String} (h : text ∈ t.forms) :
    baseName text = baseName t.name := by
  simp only [TypeRef.forms, List.mem_cons, List.not_mem_nil, or_false] at h
  rcases h with rfl | rfl | rfl | rfl
  · rfl
  · exact baseName_typeRef_nullable t
  · exact baseName_list t.name
  · exact baseName_dictionary t.name

theorem InScope.congr {models : List Model} {text text' : String} (h : InScope models text)
    (he : baseName text' = baseName text) : InScope models text' := by
  unfold InScope
  rw [he]
  exact h

theorem name_primitiveType_mem (p : Primitive) : (primitiveType p).name ∈ builtinTypes := by
  unfold primitiveType
  cases p.kind with
  | integer => simp only; split <;> decide
  | number => simp only; split <;> decide
  | boolean => simp only; decide
  | string => simp only; split <;> decide
  | file => simp only; decide

theorem Makes.isEnum_eq {definitions : Table Schema} {name context : String} {schema : Schema}
    {m : Model} {ms : List Model} (h : Makes definitions name context schema m ms) :
    m.isEnum = schema.isStringEnum := by
  cases h with
  | enum henum => exact henum.symm
  | _ => rfl

/-- The run of a site declares planned models only. -/
theorem Planned.subset {spec : Specification} {client : Client} {models : List Model}
    (hp : Planned spec client models) {s : Site} (hs : Mapped spec s) {t : TypeRef}
    {ms : List Model} (h : (s.plan spec.definitions).Runs t ms) : ms ⊆ models := by
  obtain ⟨t', ms', hrun, hsub⟩ := hp.mapped s hs
  obtain ⟨-, rfl⟩ := h.unique hrun
  exact hsub

/-- **The type of a site is in scope**, by induction over the site: wrappers hand on the scope of
their parts, models are planned where they are needed, and references end at definitions, which are
planned too. -/
theorem inScope_of_mapped {spec : Specification} {client : Client} {models : List Model}
    (hp : Planned spec client models) (hends : AliasesEnd spec.definitions) (s : Site) :
    Mapped spec s → ∀ {t : TypeRef} {ms : List Model}, (s.plan spec.definitions).Runs t ms →
      InScope models t.name := by
  induction s using Site.induction with
  | h s ih =>
    intro hs t ms hrun
    have hsub := hp.subset hs hrun
    cases mapping_of_runs hrun with
    | @reference name hint context t href =>
      -- an end of the chain that needs a model is a definition, and it has been made into one
      obtain ⟨n, last, hfollows, hend⟩ := exists_end (fun n last hf => hends n name last hf) href
      cases hend with
      | any _ => exact inScope_builtin (by decide)
      | primitive _ _ _ => exact inScope_builtin (name_primitiveType_mem _)
      | model hget hany hneeds =>
        obtain ⟨m, hm, rest, hmake⟩ := hp.defined _ _ (Table.mem_of_get? hget) hany hneeds
        refine Or.inr ⟨m, hm, ?_⟩
        rw [baseName_typeName]
        exact hmake.name_eq
    | @array items description constraints hint context t ms hitem =>
      have hpart : (⟨items, hint, context⟩ : Site) ∈
          Site.parts ⟨.array items description constraints, hint, context⟩ :=
        List.mem_singleton_self _
      exact (ih _ hpart (hs.part hpart) hitem).congr (baseName_array t.name)
    | any => exact inScope_builtin (by decide)
    | @dictionary title description extra hint context t ms hvalue =>
      have hpart : (⟨extra, hint ++ "Value", context⟩ : Site) ∈
          Site.parts ⟨.object title description [] (some extra), hint, context⟩ :=
        List.mem_singleton_self _
      exact (ih _ hpart (hs.part hpart) hvalue).congr (baseName_dictionary t.name)
    | @model schema hint context m ms _ hmake =>
      refine Or.inr ⟨m, hsub (List.mem_cons_self ..), ?_⟩
      rw [baseName_typeName]
      exact hmake.name_eq
    | primitive _ => exact inScope_builtin (name_primitiveType_mem _)

/-- The name of the model that the type of a schema stands for: an object with properties and a
string with listed values have one of their own, and a reference has that of the end of its chain.
-/
inductive NamesModel (definitions : Table Schema) : Schema → (hint name : String) → Prop
  | inline {schema : Schema} {hint : String} :
      isNameless schema = true → NamesModel definitions schema hint (typeName hint)
  | reference {n : Nat} {name last hint : String} {target : Schema} :
      Follows definitions n name last → definitions.get? last = some target →
      typeName last ≠ anyType → needsModel target = true →
      NamesModel definitions (.reference name) hint (typeName last)

/-- **Value types are enums**: where the type of a site stands for a model, a model of that name is
planned, and it is an enum exactly if the type is a value type. -/
theorem exists_model_of_names {spec : Specification} {client : Client} {models : List Model}
    (hp : Planned spec client models) (hends : AliasesEnd spec.definitions) {s : Site}
    (hs : Mapped spec s) {t : TypeRef} {ms : List Model}
    (hrun : (s.plan spec.definitions).Runs t ms) {name : String}
    (hname : NamesModel spec.definitions s.schema s.hint name) :
    t.name = name ∧ ∃ m ∈ models, m.name = name ∧ t.isValue = m.isEnum := by
  have hsub := hp.subset hs hrun
  obtain ⟨schema, hint, context⟩ := s
  cases hname with
  | inline hnameless =>
    have hmapping := mapping_of_runs hrun
    cases hmapping with
    | model _ hmake => exact ⟨rfl, _, hsub (List.mem_cons_self ..), hmake.name_eq, rfl⟩
    | primitive henum => exact absurd hnameless henum
    | reference _ => cases hnameless
    | array _ => cases hnameless
    | any => cases hnameless
    | dictionary _ => cases hnameless
  | @reference n raw last hint target hfollows hget hany hneeds =>
    have hmapping := mapping_of_runs hrun
    cases hmapping with
    | model hnameless _ => cases hnameless
    | reference href =>
      obtain ⟨fuel, hresolve⟩ := resolveReference_of_follows hfollows (hends n raw last hfollows)
      rw [hresolve, followReference_model hget hany hneeds] at href
      obtain ⟨m, hm, rest, hmake⟩ := hp.defined last target (Table.mem_of_get? hget) hany hneeds
      rw [← Except.ok.inj href]
      exact ⟨rfl, m, hm, hmake.name_eq, hmake.isEnum_eq.symm⟩

/-! ## Claims -/

/-- What claims do to a registry: shapes that are there stay, every model has its shape afterwards,
and a shape that is new is that of a model that has been found to be new. -/
structure Claimed (registry : Registry) (models fresh : List Model) (registry' : Registry) :
    Prop where
  planned : fresh ⊆ models
  mono : ∀ n shape, registry.shape? n = some shape → registry'.shape? n = some shape
  claimed : ∀ m ∈ models, registry'.shape? m.name = some m.shape
  origin : ∀ n shape, registry'.shape? n = some shape →
    registry.shape? n = some shape ∨ ∃ m ∈ fresh, m.name = n ∧ m.shape = shape

/-- Models are claimed one after the other, by induction on them. -/
theorem claims_of_claimModels {models : List Model} :
    ∀ {registry registry' : Registry} {fresh : List Model},
      claimModels registry models = .ok (fresh, registry') →
      Registry.Claims (fun m => (m.name, m.shape)) registry models fresh registry' := by
  induction models with
  | nil =>
    intro registry registry' fresh h
    cases h
    exact .nil registry
  | cons m models ih =>
    intro registry registry' fresh h
    rw [claimModels] at h
    obtain ⟨⟨isFresh, registry₁⟩, hclaim, h⟩ := bind_eq_ok h
    obtain ⟨⟨rest, registry₂⟩, hrest, h⟩ := bind_eq_ok h
    cases pure_eq_ok h
    rcases Registry.claim_cases hclaim with ⟨rfl, hnew, rfl⟩ | ⟨rfl, hold, rfl⟩
    · exact .fresh hnew (ih hrest)
    · exact .known hold (ih hrest)

theorem claimed_of_claimModels {models fresh : List Model} {registry registry' : Registry}
    (h : claimModels registry models = .ok (fresh, registry')) :
    Claimed registry models fresh registry' := by
  have hclaims := claims_of_claimModels h
  refine ⟨hclaims.subset, fun _ _ => hclaims.shape?_mono, fun _ => hclaims.shape?_of_mem, ?_⟩
  intro n shape hn
  rcases hclaims.shape?_cases hn with hn | ⟨m, hm, heq⟩
  · exact Or.inl hn
  · obtain ⟨hname, hshape⟩ := Prod.mk.inj heq
    exact Or.inr ⟨m, hm, hname, hshape⟩

/-! ## Batches -/

/-- Warnings apart, the findings of a specification do not matter to its emission. -/
theorem emit_outcome (options : EmitOptions) (spec : Specification) (registry : Registry) :
    ((emitter options).emit spec registry).2 = (emitSpec spec options registry).2 := by
  simp only [emitter]
  rcases emitSpec spec options registry with ⟨ws, error | emitted⟩ <;> rfl

/-- Inversion for one specification: it is planned, then its client and its models are claimed. -/
theorem emit_eq_ok {options : EmitOptions} {spec : Specification} {registry registry' : Registry}
    {part : Part} (h : ((emitter options).emit spec registry).2 = .ok (part, registry')) :
    ∃ ms isFresh registry₁, (planSpec spec options).Runs part.client ms ∧
      registry.claim (clientName spec) (clientShape spec) = .ok (isFresh, registry₁) ∧
      claimModels registry₁ ms = .ok (part.models, registry') := by
  rw [emit_outcome, emitSpec] at h
  obtain ⟨client, hclient, hpart⟩ := bind_eq_ok h
  unfold claimPart at hpart
  obtain ⟨⟨isFresh, registry₁⟩, hclaim, hpart⟩ := bind_eq_ok hpart
  obtain ⟨⟨fresh, registry₂⟩, hmodels, hpart⟩ := bind_eq_ok hpart
  cases pure_eq_ok hpart
  exact ⟨_, isFresh, registry₁, ⟨hclient, rfl⟩, hclaim, hmodels⟩

/-- What is declared stays declared. -/
theorem extends_of_emit {options : EmitOptions} {spec : Specification}
    {registry registry' : Registry} {part : Part}
    (h : ((emitter options).emit spec registry).2 = .ok (part, registry')) :
    registry.Extends registry' := by
  obtain ⟨ms, isFresh, registry₁, -, hclient, hmodels⟩ := emit_eq_ok h
  intro n s hn
  exact (claims_of_claimModels hmodels).shape?_mono (Registry.shape?_mono_of_claim hclient hn)

/-- The models of parts, in order. -/
def partModels (emitted : List (Specification × Part)) : List Model :=
  (emitted.map (·.2)).flatMap (·.models)

/-- The registry accounts for what has been emitted: all that is planned has its shape in it, and it
holds nothing else but names that are no models, whose shapes say so. -/
structure Accounted (options : EmitOptions) (registry : Registry)
    (emitted : List (Specification × Part)) : Prop where
  planned : ∀ entry ∈ emitted, ∃ ms, (planSpec entry.1 options).Runs entry.2.client ms ∧
    entry.2.models ⊆ ms ∧ ∀ m ∈ ms, registry.shape? m.name = some m.shape
  origin : ∀ n shape, registry.shape? n = some shape →
    shape.toList.head? = some '<' ∨ ∃ m ∈ partModels emitted, m.name = n ∧ m.shape = shape

theorem head?_clientShape (spec : Specification) :
    (clientShape spec).toList.head? = some '<' := by
  rw [clientShape, String.toList_append, String.toList_append]
  rfl

/-- The document's own types are no models. -/
theorem accounted_withSupport (options : EmitOptions) :
    Accounted options (withSupport .empty) [] := by
  refine ⟨fun _ h => (nomatch h), fun n shape hshape => Or.inl ?_⟩
  have hall : ∀ entry ∈ (withSupport .empty).entries, entry.2.toList.head? = some '<' := by decide
  exact hall (n, shape) (Table.mem_of_get? hshape)

/-- **A step keeps the account.** -/
theorem Accounted.emit {options : EmitOptions} {spec : Specification}
    {registry registry' : Registry} {part : Part} {emitted : List (Specification × Part)}
    (hacc : Accounted options registry emitted)
    (h : ((emitter options).emit spec registry).2 = .ok (part, registry')) :
    Accounted options registry' (emitted ++ [(spec, part)]) := by
  obtain ⟨ms, isFresh, registry₁, hrun, hclient, hmodels⟩ := emit_eq_ok h
  have hclaimed := claimed_of_claimModels hmodels
  have hmono := extends_of_emit h
  have hparts : partModels (emitted ++ [(spec, part)]) = partModels emitted ++ part.models := by
    simp [partModels]
  refine ⟨?_, ?_⟩
  · intro entry hentry
    rcases List.mem_append.mp hentry with hentry | hentry
    · obtain ⟨ms', hrun', hsub, hshape⟩ := hacc.planned entry hentry
      exact ⟨ms', hrun', hsub, fun m hm => hmono _ _ (hshape m hm)⟩
    · cases List.mem_singleton.mp hentry
      exact ⟨ms, hrun, hclaimed.planned, hclaimed.claimed⟩
  · intro n shape hn
    rw [hparts]
    rcases hclaimed.origin n shape hn with hn | ⟨m, hm, hname⟩
    · -- what was there before the models were claimed is older, or the client itself
      rcases Registry.shape?_cases_of_claim hclient hn with hn | ⟨-, -, rfl⟩
      · rcases hacc.origin n shape hn with hhead | ⟨m, hm, hname⟩
        · exact Or.inl hhead
        · exact Or.inr ⟨m, List.mem_append_left _ hm, hname⟩
      · exact Or.inl (head?_clientShape spec)
    · exact Or.inr ⟨m, List.mem_append_right _ hm, hname⟩

/-- **A batch keeps the account.** -/
theorem accounted_batch (options : EmitOptions) (specs : List Specification) :
    Accounted options (batch options specs .empty).names (batch options specs .empty).emitted := by
  refine emitBatch_invariant (P := Accounted options) (accounted_withSupport options) ?_
  intro spec _ registry registry' emitted part hacc hemit
  exact hacc.emit hemit

/-- Models of one shape are of one kind. -/
theorem Makes.isEnum_congr {definitions definitions' : Table Schema}
    {name name' context context' : String} {schema schema' : Schema} {m m' : Model}
    {ms ms' : List Model} (h : Makes definitions name context schema m ms)
    (h' : Makes definitions' name' context' schema' m' ms') (hshape : m.shape = m'.shape) :
    m.isEnum = m'.isEnum := by
  rcases h.head?_shape with ⟨he, hs⟩ | ⟨he, hs⟩ <;>
    rcases h'.head?_shape with ⟨he', hs'⟩ | ⟨he', hs'⟩
  · rw [he, he']
  · rw [hshape] at hs
    rcases hs' with hs' | hs' <;> exact absurd (hs.symm.trans hs') (by decide)
  · rw [← hshape] at hs'
    rcases hs with hs | hs <;> exact absurd (hs.symm.trans hs') (by decide)
  · rw [he, he']

/-- What is emitted was planned. -/
theorem runs_of_mem_emitted {options : EmitOptions} {specs : List Specification}
    {registry : Registry} :
    ∀ entry ∈ (batch options specs registry).emitted,
      ∃ ms, (planSpec entry.1 options).Runs entry.2.client ms ∧ entry.2.models ⊆ ms := by
  refine emitBatch_invariant (P := fun _ (emitted : List (Specification × Part)) =>
    ∀ entry ∈ emitted, ∃ ms, (planSpec entry.1 options).Runs entry.2.client ms ∧
      entry.2.models ⊆ ms) (fun _ h => (nomatch h)) ?_
  intro spec _ names names' emitted part hemitted hemit entry hentry
  rcases List.mem_append.mp hentry with hentry | hentry
  · exact hemitted entry hentry
  · rw [List.mem_singleton.mp hentry]
    obtain ⟨ms, isFresh, registry₁, hrun, -, hmodels⟩ := emit_eq_ok hemit
    exact ⟨ms, hrun, (claims_of_claimModels hmodels).subset⟩

theorem planned_of_emitted {options : EmitOptions} {specs : List Specification}
    {registry : Registry} {entry : Specification × Part}
    (hentry : entry ∈ (batch options specs registry).emitted) :
    Planned entry.1 entry.2.client (planSpec entry.1 options).models ∧
      entry.2.models ⊆ (planSpec entry.1 options).models := by
  obtain ⟨ms, hrun, hsub⟩ := runs_of_mem_emitted entry hentry
  rw [hrun.models]
  exact ⟨planned_of_runs hrun, hsub⟩

/-- A model of the document is one of those that some emitted specification plans. -/
theorem exists_part_of_declared {options : EmitOptions} {specs : List Specification} {d : Model}
    (hd : d ∈ declared (batch options specs .empty)) :
    ∃ entry ∈ (batch options specs .empty).emitted, d ∈ entry.2.models := by
  obtain ⟨part, hpart, hd⟩ := List.mem_flatMap.mp hd
  obtain ⟨entry, hentry, rfl⟩ := List.mem_map.mp hpart
  exact ⟨entry, hentry, hd⟩

/-- **What a specification plans is declared**: a model of the name is in the document, and every
model of that name in the document has the shape and the kind of the planned one. -/
theorem declared_of_planned {options : EmitOptions} {specs : List Specification}
    {entry : Specification × Part} (hentry : entry ∈ (batch options specs .empty).emitted)
    {m : Model} (hm : m ∈ (planSpec entry.1 options).models) :
    (∃ d ∈ declared (batch options specs .empty), d.name = m.name) ∧
      ∀ d ∈ declared (batch options specs .empty), d.name = m.name →
        d.shape = m.shape ∧ d.isEnum = m.isEnum := by
  have hacc := accounted_batch options specs
  have hshape : ∀ entry ∈ (batch options specs .empty).emitted,
      ∀ m ∈ (planSpec entry.1 options).models,
        (batch options specs .empty).names.shape? m.name = some m.shape := by
    intro entry hentry m hm
    obtain ⟨ms, hrun, -, hshape⟩ := hacc.planned entry hentry
    exact hshape m (hrun.models ▸ hm)
  obtain ⟨name, context, schema, rest, hmake⟩ := ((planned_of_emitted hentry).1.made m hm).makes
  refine ⟨?_, fun d hd hname => ?_⟩
  · rcases hacc.origin m.name m.shape (hshape entry hentry m hm) with hhead | ⟨d, hd, hname, -⟩
    · -- the shape of a model does not say that it is none
      rcases hmake.head?_shape with ⟨-, hs⟩ | ⟨-, hs | hs⟩ <;>
        exact absurd (hs.symm.trans hhead) (by decide)
    · exact ⟨d, hd, hname⟩
  · obtain ⟨entry', hentry', hd'⟩ := exists_part_of_declared hd
    obtain ⟨hplanned', hsub'⟩ := planned_of_emitted hentry'
    obtain ⟨_, _, _, _, hmake'⟩ := (hplanned'.made d (hsub' hd')).makes
    -- the registry has one shape for the name, and both models were claimed with theirs
    have heq : d.shape = m.shape := by
      have h := hshape entry' hentry' d (hsub' hd')
      rw [hname, hshape entry hentry m hm] at h
      exact (Option.some.inj h).symm
    exact ⟨heq, hmake'.isEnum_congr hmake heq⟩

/-- The types that a part of a document names: those of its methods and those of its models. -/
def Part.types (part : Part) : List String :=
  part.client.methods.flatMap (·.signature.types) ++ part.models.flatMap Model.types

/-- The type stands for the models of its name: there is one, and the type is a value type exactly
when they are enums. -/
def StandsFor (models : List Model) (t : TypeRef) (name : String) : Prop :=
  t.name = name ∧ (∃ m ∈ models, m.name = name) ∧
    ∀ m ∈ models, m.name = name → (t.isValue = true ↔ m.isEnum = true)

/-- The scope of the document of a batch is closed. What a part names is the type of one of the
sites of its specification, or built in, and in either case built in or declared once its wrappers
are removed. Every site has been mapped, and where its type stands for a model, it is a value type
exactly when the model that is declared is an enum. -/
def ScopeClosed (options : EmitOptions) (specs : List Specification) : Prop :=
  (generate .csharp options specs).2.content = content? options (batch options specs .empty) ∧
    ∀ entry ∈ (batch options specs .empty).emitted,
      (∀ text ∈ entry.2.types,
        Written entry.1 text ∧ InScope (declared (batch options specs .empty)) text) ∧
      ∀ s, Mapped entry.1 s → ∃ t, (s.plan entry.1.definitions).outcome = .ok t ∧
        ∀ name, NamesModel entry.1.definitions s.schema s.hint name →
          StandsFor (declared (batch options specs .empty)) t name

/-- **The scope of a C# document is closed**, for specifications whose chains of aliases end before
references are no longer followed. -/
theorem scope_closed (options : EmitOptions) (specs : List Specification)
    (hends : ∀ spec ∈ specs, AliasesEnd spec.definitions) : ScopeClosed options specs := by
  refine ⟨rfl, fun entry hentry => ?_⟩
  have hend := hends entry.1 (mem_of_mem_emitted hentry)
  obtain ⟨hplanned, hsub⟩ := planned_of_emitted hentry
  have hscope : ∀ text, Written entry.1 text →
      InScope (declared (batch options specs .empty)) text := by
    rintro text (htext | ⟨s, t, hs, ht, hform⟩)
    · exact inScope_builtin htext
    · have hms := inScope_of_mapped hplanned hend s hs ⟨ht, rfl⟩
      rcases hms.congr (baseName_of_mem_forms hform) with hbuiltin | ⟨m, hm, hname⟩
      · exact Or.inl hbuiltin
      · obtain ⟨d, hd, hdname⟩ := (declared_of_planned hentry hm).1
        exact Or.inr ⟨d, hd, hdname.trans hname⟩
  refine ⟨fun text htext => ?_, fun s hs => ?_⟩
  · have hwritten : Written entry.1 text := by
      rcases List.mem_append.mp htext with htext | htext
      · obtain ⟨method, hmethod, htext⟩ := List.mem_flatMap.mp htext
        exact hplanned.methods method hmethod text htext
      · obtain ⟨m, hm, htext⟩ := List.mem_flatMap.mp htext
        exact (hplanned.made m (hsub hm)).written text htext
    exact ⟨hwritten, hscope text hwritten⟩
  · obtain ⟨t, ms', hrun, -⟩ := hplanned.mapped s hs
    refine ⟨t, hrun.outcome, fun name hname => ?_⟩
    obtain ⟨htname, m, hm, hmname, hvalue⟩ := exists_model_of_names hplanned hend hs hrun hname
    obtain ⟨hexists, hkind⟩ := declared_of_planned hentry hm
    rw [← hmname]
    refine ⟨htname.trans hmname.symm, hexists, fun d hd hdname => ?_⟩
    rw [hvalue, (hkind d hd hdname).2]

/-- A specification with definitions and paths, and nothing else. -/
def specOf (sourceId title : String) (definitions : Table Schema) (paths : List PathItem) :
    Specification where
  sourceId
  swagger := "2.0"
  info := ⟨title, "1", none, none, none, none⟩
  host := none
  basePath := none
  schemes := []
  consumes := []
  produces := []
  paths
  definitions
  parameters := []
  responses := []
  securityDefinitions := []
  security := []
  tags := []
  externalDocs := none

/-- An operation that answers with a list of the items of a shop. -/
def listItems : Operation where
  method := .get
  path := "/items"
  operationId := some "listItems"
  summary := none
  description := none
  tags := []
  consumes := []
  produces := []
  parameters := [⟨"color", none, false, .query (.primitive { kind := .string, enum := ["red"] })⟩]
  responses := [⟨.code 200, "all", some (.array (.reference "Item") none {}), [], []⟩]
  security := []
  oauthSecured := false
  deprecated := false
  externalDocs := none

/-- A shop: two aliases, one of text and one of an enum, and a class that names both. -/
def paintShop : Specification :=
  specOf "shop.json" "Shop"
    [("Sku", .string),
     ("Code", .reference "Sku"),
     ("Color", .primitive { kind := .string, enum := ["red", "blue"] }),
     ("Shade", .reference "Color"),
     ("Item", .object none none
       [⟨"code", .reference "Code", true⟩, ⟨"shade", .reference "Shade", false⟩] none)]
    [⟨"/items", [], [listItems]⟩]

/-- The shop has aliases, and they end: its scope is closed, with the optional property of an
aliased enum as a nullable value. -/
theorem scope_closed_paintShop :
    (∀ spec ∈ [paintShop], AliasesEnd spec.definitions) ∧
      ((declared (batch {} [paintShop] .empty)).flatMap Model.types = ["string", "Color?"]) ∧
      ScopeClosed {} [paintShop] := by
  have hends : ∀ spec ∈ [paintShop], AliasesEnd spec.definitions := by decide +kernel
  exact ⟨hends, by decide +kernel, scope_closed {} [paintShop] hends⟩

end ClientGen.CSharp
