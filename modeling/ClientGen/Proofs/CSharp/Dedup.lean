import ClientGen.Proofs.CSharp.Scope
import ClientGen.Proofs.Schema.Erase

/-!
# Models that are declared once for several specifications

A model whose name is declared already with the same shape is skipped, and the client of its
specification works against the model that is there. Shapes hold references by name, and what a name
stands for is a matter of the specification.

* `Model.interface` — what can be told from a model by using it.
* `typeUses`, `useText` — the references that the types of a model are made from, and how each is
  written in a specification.
* `interface_eq_iff` — **one pair**: two models that are made from the same schema, apart from
  documentation, have the same interface exactly when all those references are written alike.
* `skipped_iff` says it of all models of a document. `not_skipsAgree_shops` shows that references
  need not be written alike.
-/

namespace ClientGen.CSharp

open Plan (RunsAll)

-- names are compared, never computed, in what follows
attribute [local irreducible] typeName

/-- What can be told from a model by using it: all but its name, its shape and its documentation. -/
inductive Interface where
  /-- what a class extends, the member name, wire name and type of its properties, and the member
  for undeclared properties -/
  | ofClass (base : Option String) (properties : List (String × String × String))
      (extension : Option String)
  | ofEnum (members : List EnumMember)
  deriving DecidableEq, Repr

/-- The interface of a property. -/
def ModelProperty.interface (p : ModelProperty) : String × String × String :=
  (p.name, p.wireName, p.type)

/-- The interface of a model. -/
def Model.interface : Model → Interface
  | .classModel _ _ base properties extension _ =>
    .ofClass base (properties.map ModelProperty.interface) extension
  | .enumModel _ _ members _ => .ofEnum members

/-! ## References that types are made from -/

mutual

/-- The reference that the type of a schema is made from. Objects with properties have a type of
their own, whatever their properties are. -/
def reference? : Schema → Option String
  | .reference name => some name
  | .array items _ _ => reference? items
  | .object _ _ properties additional =>
    if properties.isEmpty then valueReference? additional else none
  | .primitive _ => none
termination_by structural s => s

/-- The reference that the type of the values of a dictionary is made from. -/
def valueReference? : Option Schema → Option String
  | none => none
  | some schema => reference? schema
termination_by structural a => a

end

/-- A reference that a type is made from, and whether it is written so that it takes `null`. -/
structure TypeUse where
  name : String
  nullable : Bool
  deriving DecidableEq, Repr

/-- How a type is written. -/
def TypeRef.text (t : TypeRef) (nullable : Bool) : String := if nullable then t.nullable else t.name

/-- How a reference is written in a specification, if it resolves. -/
def useText (definitions : Table Schema) (use : TypeUse) : Option String :=
  (resolveReference definitions use.name "").toOption.map (·.text use.nullable)

/-- The use in a type that is not written so that it takes `null`. -/
def plainUses (schema : Schema) : List TypeUse := (reference? schema).toList.map (⟨·, false⟩)

/-- The use in the type of a property. A reference by itself takes `null` if the property is
optional; inside an array or a dictionary it does not. -/
def propertyUses (p : Property Schema) : List TypeUse :=
  match p.schema with
  | .reference name => [⟨name, !p.required⟩]
  | schema => plainUses schema

/-- The uses in the types that the model of a schema names. -/
def typeUses : Schema → List TypeUse
  | .object _ _ properties additional =>
    if properties.isEmpty then additional.toList.flatMap plainUses
    else properties.flatMap propertyUses
  | .array items _ _ => plainUses items
  | .reference _ => []
  | .primitive _ => []

/-- All of the uses are written alike in two specifications. -/
def WrittenAlike (definitions definitions' : Table Schema) (uses : List TypeUse) : Prop :=
  ∀ use ∈ uses, useText definitions use = useText definitions' use

/-- The context of a reference matters for errors only. -/
theorem followReference_context {definitions : Table Schema} {context context' : String}
    {t : TypeRef} {fuel : Nat} : ∀ {name : String},
      followReference definitions context fuel name = .ok t →
      followReference definitions context' fuel name = .ok t := by
  induction fuel with
  | zero => exact fun h => h
  | succ fuel ih =>
    intro name h
    rcases hget : definitions.get? name with _ | target
    · rw [followReference, hget] at h
      cases h
    · rw [followReference, hget] at h ⊢
      by_cases hany : typeName name = anyType
      · simp only [if_pos hany] at h ⊢
        exact h
      · simp only [if_neg hany] at h ⊢
        cases target with
        | reference next => exact ih h
        | primitive p => exact h
        | object _ _ _ _ => exact h
        | array _ _ _ => exact h

theorem useText_of_resolve {definitions : Table Schema} {name context : String} {t : TypeRef}
    (h : resolveReference definitions name context = .ok t) (nullable : Bool) :
    useText definitions ⟨name, nullable⟩ = some (t.text nullable) := by
  have hresolve : resolveReference definitions name "" = .ok t := followReference_context h
  unfold useText
  rw [hresolve]
  rfl

/-! ## Types of the same schema in two specifications -/

section Types

variable {definitions definitions' : Table Schema} {hint context : String} {t : TypeRef}
  {ms : List Model}

theorem runs_reference {name : String}
    (h : (Site.plan definitions ⟨.reference name, hint, context⟩).Runs t ms) :
    resolveReference definitions name context = .ok t := by
  cases mapping_of_runs h with
  | reference href => exact href
  | model hnameless _ => cases hnameless

theorem runs_array {items : Schema} {description : Option String} {constraints : Constraints}
    (h : (Site.plan definitions ⟨.array items description constraints, hint, context⟩).Runs t ms) :
    ∃ item, (Site.plan definitions ⟨items, hint, context⟩).Runs item ms ∧
      t = .reference (item.name ++ "[]") := by
  cases mapping_of_runs h with
  | array hitem => exact ⟨_, hitem, rfl⟩
  | model hnameless _ => cases hnameless

theorem runs_dictionary {title description : Option String} {extra : Schema}
    (h : (Site.plan definitions
      ⟨.object title description [] (some extra), hint, context⟩).Runs t ms) :
    ∃ value, (Site.plan definitions ⟨extra, hint ++ "Value", context⟩).Runs value ms ∧
      t = .reference ("Dictionary<string, " ++ value.name ++ ">") := by
  cases mapping_of_runs h with
  | dictionary hvalue => exact ⟨_, hvalue, rfl⟩
  | model hnameless _ => cases hnameless

theorem runs_any {title description : Option String}
    (h : (Site.plan definitions ⟨.object title description [] none, hint, context⟩).Runs t ms) :
    t = .reference anyType := by
  cases mapping_of_runs h with
  | any => rfl
  | model hnameless _ => cases hnameless

/-- A schema without a name has a type of its own, which only its hint decides, and whether it lists
values. -/
theorem runs_nameless {schema : Schema} (hnameless : isNameless schema = true)
    (h : (Site.plan definitions ⟨schema, hint, context⟩).Runs t ms) :
    t = ⟨typeName hint, schema.isStringEnum⟩ := by
  cases mapping_of_runs h with
  | model _ hmake => rw [hmake.isEnum_eq]
  | reference _ => cases hnameless
  | array _ => cases hnameless
  | any => cases hnameless
  | dictionary _ => cases hnameless
  | primitive henum => exact absurd hnameless henum

theorem runs_primitive {p : Primitive} (henum : ¬ p.isStringEnum = true)
    (h : (Site.plan definitions ⟨.primitive p, hint, context⟩).Runs t ms) :
    t = primitiveType p := by
  cases mapping_of_runs h with
  | primitive _ => rfl
  | model hnameless _ => exact absurd hnameless henum

theorem isStringEnum_of_erase_eq {p q : Primitive} (h : p.erase = q.erase) :
    p.isStringEnum = q.isStringEnum := by
  rw [← p.isStringEnum_erase, h, q.isStringEnum_erase]

theorem primitiveType_of_erase_eq {p q : Primitive} (h : p.erase = q.erase) :
    primitiveType p = primitiveType q := by
  unfold Primitive.erase at h
  rw [Primitive.mk.injEq] at h
  unfold primitiveType
  rw [h.1, h.2.1]

/-- The type of a primitive value does not depend on the specification. -/
theorem primitive_eq {p q : Primitive} (hpq : p.erase = q.erase) {context' : String} {t' : TypeRef}
    {ms' : List Model} (h : (Site.plan definitions ⟨.primitive p, hint, context⟩).Runs t ms)
    (h' : (Site.plan definitions' ⟨.primitive q, hint, context'⟩).Runs t' ms') : t = t' := by
  have henums := isStringEnum_of_erase_eq hpq
  by_cases henum : p.isStringEnum = true
  · have hp : isNameless (.primitive p) = true := henum
    have hq : isNameless (.primitive q) = true := henums.symm.trans henum
    rw [runs_nameless hp h, runs_nameless hq h', Schema.isStringEnum, Schema.isStringEnum, henums]
  · rw [runs_primitive henum h, runs_primitive (henums ▸ henum) h', primitiveType_of_erase_eq hpq]

end Types

section Comparison

variable {definitions definitions' : Table Schema}

theorem writtenAlike_nil : WrittenAlike definitions definitions' [] := fun _ h => (nomatch h)

theorem writtenAlike_append {uses uses' : List TypeUse} :
    WrittenAlike definitions definitions' (uses ++ uses') ↔
      WrittenAlike definitions definitions' uses ∧ WrittenAlike definitions definitions' uses' :=
  List.forall_mem_append

/-- A reference that resolves in both is written alike exactly when its types are. -/
theorem writtenAlike_single {name context context' : String} {t t' : TypeRef} {nullable : Bool}
    (h : resolveReference definitions name context = .ok t)
    (h' : resolveReference definitions' name context' = .ok t') :
    WrittenAlike definitions definitions' [⟨name, nullable⟩] ↔
      t.text nullable = t'.text nullable := by
  unfold WrittenAlike
  rw [List.forall_mem_singleton, useText_of_resolve h, useText_of_resolve h', Option.some.injEq]

/-- **Types**: the same schema has the same type in two specifications exactly when the reference
that it is made from, if there is one, is written alike. By induction over the site. -/
theorem name_eq_iff (site : Site) :
    ∀ {b : Schema} {context' : String} {t t' : TypeRef} {ms ms' : List Model},
      site.schema.erase = b.erase → (site.plan definitions).Runs t ms →
      (Site.plan definitions' ⟨b, site.hint, context'⟩).Runs t' ms' →
      (t.name = t'.name ↔ WrittenAlike definitions definitions' (plainUses site.schema)) := by
  induction site using Site.induction with
  | h site ih =>
    intro b context' t t' ms ms' herase hrun hrun'
    obtain ⟨a, hint, context⟩ := site
    -- only a reference is written as its specification has it; all other types are texts around one
    cases Schema.alike_of_erase_eq herase with
    | reference name =>
      have hiff : WrittenAlike definitions definitions' [⟨name, false⟩] ↔
          t.text false = t'.text false :=
        writtenAlike_single (runs_reference hrun) (runs_reference hrun')
      rw [plainUses, reference?]
      exact hiff.symm
    | @array items items' description description' constraints constraints' hitems =>
      obtain ⟨item, hitem, rfl⟩ := runs_array hrun
      obtain ⟨item', hitem', rfl⟩ := runs_array hrun'
      have hpart := ih ⟨items, hint, context⟩ (List.mem_singleton_self _) hitems hitem hitem'
      rw [plainUses, reference?]
      exact (String.append_left_inj "[]").trans hpart
    | @primitive p q hpq =>
      rw [plainUses, reference?]
      refine iff_of_true ?_ writtenAlike_nil
      rw [primitive_eq hpq hrun hrun']
    | @object title title' description description' ps qs additional additional' hps hadditional =>
      cases hps with
      | cons hpq hrest =>
        rw [plainUses, reference?, if_neg (by rw [List.isEmpty_cons]; exact Bool.false_ne_true)]
        refine iff_of_true ?_ writtenAlike_nil
        rw [runs_nameless rfl hrun, runs_nameless rfl hrun']
      | nil =>
        rw [plainUses, reference?, if_pos List.isEmpty_nil]
        cases hadditional with
        | none =>
          rw [valueReference?]
          refine iff_of_true ?_ writtenAlike_nil
          rw [runs_any hrun, runs_any hrun']
        | @some extra extra' hextra =>
          obtain ⟨value, hvalue, rfl⟩ := runs_dictionary hrun
          obtain ⟨value', hvalue', rfl⟩ := runs_dictionary hrun'
          have hpart := ih ⟨extra, hint ++ "Value", context⟩ (List.mem_singleton_self _) hextra
            hvalue hvalue'
          rw [valueReference?]
          refine Iff.trans ?_ hpart
          exact (String.append_left_inj ">").trans (String.append_right_inj _)

/-- A type that is not that of a reference is a value type or not in any specification. -/
theorem isValue_eq {a b : Schema} (hnot : ∀ name, a ≠ .reference name) (herase : a.erase = b.erase)
    {hint context context' : String} {t t' : TypeRef} {ms ms' : List Model}
    (hrun : (Site.plan definitions ⟨a, hint, context⟩).Runs t ms)
    (hrun' : (Site.plan definitions' ⟨b, hint, context'⟩).Runs t' ms') :
    t.isValue = t'.isValue := by
  cases Schema.alike_of_erase_eq herase with
  | reference name => exact absurd rfl (hnot name)
  | array _ =>
    obtain ⟨_, -, rfl⟩ := runs_array hrun
    obtain ⟨_, -, rfl⟩ := runs_array hrun'
    rfl
  | primitive hpq => rw [primitive_eq hpq hrun hrun']
  | object hps hadditional =>
    cases hps with
    | cons _ _ =>
      rw [runs_nameless rfl hrun, runs_nameless rfl hrun']
      rfl
    | nil =>
      cases hadditional with
      | none => rw [runs_any hrun, runs_any hrun']
      | some _ =>
        obtain ⟨_, -, rfl⟩ := runs_dictionary hrun
        obtain ⟨_, -, rfl⟩ := runs_dictionary hrun'
        rfl

/-- The text of a type that is a value type or not in both. -/
theorem text_eq_iff {t t' : TypeRef} (hvalue : t.isValue = t'.isValue) (nullable : Bool) :
    t.text nullable = t'.text nullable ↔ t.name = t'.name := by
  unfold TypeRef.text TypeRef.nullable
  rw [hvalue]
  by_cases hnull : nullable = true
  · rw [if_pos hnull, if_pos hnull]
    by_cases hv : t'.isValue = true
    · rw [if_pos hv, if_pos hv]
      exact String.append_left_inj "?"
    · rw [if_neg hv, if_neg hv]
  · rw [if_neg hnull, if_neg hnull]

theorem propertyUses_eq {wireName : String} {schema : Schema} {required : Bool}
    (hnot : ∀ name, schema ≠ .reference name) :
    propertyUses ⟨wireName, schema, required⟩ = plainUses schema := by
  cases schema with
  | reference name => exact absurd rfl (hnot name)
  | _ => rfl

/-- **Properties**: the type of a property is written alike in two specifications exactly when the
reference that it is made from is. -/
theorem property_text_eq_iff {owner context context' : String} {p q : Property Schema}
    (hpq : p.Alike q) {t t' : TypeRef} {ms ms' : List Model}
    (hrun : (Site.plan definitions (Site.ofProperty owner context p)).Runs t ms)
    (hrun' : (Site.plan definitions' (Site.ofProperty owner context' q)).Runs t' ms') :
    t.text (!p.required) = t'.text (!q.required) ↔
      WrittenAlike definitions definitions' (propertyUses p) := by
  obtain ⟨wireName, a, required⟩ := p
  obtain ⟨wireName', b, required'⟩ := q
  obtain ⟨rfl, rfl, herase⟩ := hpq
  rw [Site.plan_ofProperty, ← Site.plan_mk] at hrun hrun'
  by_cases href : ∃ name, a = .reference name
  · obtain ⟨name, rfl⟩ := href
    cases Schema.alike_of_erase_eq herase with
    | reference _ =>
      exact (writtenAlike_single (runs_reference hrun) (runs_reference hrun')).symm
  · have hnot : ∀ name, a ≠ .reference name := fun name he => href ⟨name, he⟩
    rw [propertyUses_eq hnot]
    refine (text_eq_iff (isValue_eq hnot herase hrun hrun') _).trans ?_
    exact name_eq_iff ⟨a, memberTypeName owner wireName, context ++ "." ++ wireName⟩ herase hrun
      hrun'

theorem text_not (t : TypeRef) (required : Bool) :
    (if required then t.name else t.nullable) = t.text (!required) := by
  cases required <;> rfl

/-- **Classes**: the members have the same names in two specifications, and the same interfaces
exactly when the references that their types are made from are written alike. By induction on the
properties. -/
theorem members_eq_iff {owner context context' : String} {ps qs : List (Property Schema)}
    (hps : List.Forall₂ Property.Alike ps qs) :
    ∀ (taken : List String) {types types' : List TypeRef} {ms ms' : List Model},
      RunsAll (Site.plan definitions) (ps.map (Site.ofProperty owner context)) types ms →
      RunsAll (Site.plan definitions') (qs.map (Site.ofProperty owner context')) types' ms' →
      (membersOf owner taken ps types).map (·.name) =
          (membersOf owner taken qs types').map (·.name) ∧
        ((membersOf owner taken ps types).map ModelProperty.interface =
            (membersOf owner taken qs types').map ModelProperty.interface ↔
          WrittenAlike definitions definitions' (ps.flatMap propertyUses)) := by
  induction hps with
  | nil =>
    intro taken types types' ms ms' _ _
    exact ⟨rfl, iff_of_true rfl writtenAlike_nil⟩
  | @cons p q ps qs hpq _ ih =>
    intro taken types types' ms ms' h h'
    cases h with
    | @cons _ t _ types ms₁ ms₂ hrun hall =>
      cases h' with
      | @cons _ t' _ types' ms₁' ms₂' hrun' hall' =>
        obtain ⟨hnames, hrest⟩ :=
          ih (taken ++ [Name.uniqueName (memberName p.name owner) taken]) hall hall'
        have htext := property_text_eq_iff hpq hrun hrun'
        rw [membersOf, membersOf, ← hpq.1]
        refine ⟨?_, ?_⟩
        · rw [List.map_cons, List.map_cons, hnames]
        · rw [List.map_cons, List.map_cons, List.cons.injEq, hrest, List.flatMap_cons,
            writtenAlike_append, ← htext]
          simp only [ModelProperty.interface, Prod.mk.injEq, true_and, text_not]

theorem interface_collection {name name' shape shape' : String}
    {description description' base base' : Option String} :
    (Model.collection name description base shape).interface =
      (Model.collection name' description' base' shape').interface ↔ base = base' := by
  simp only [Model.collection, Model.interface, Interface.ofClass.injEq, and_true]

/-- **One pair of models**: made under one name from the same schema, apart from documentation, they
have the same interface exactly when the references that their types are made from are written
alike. -/
theorem interface_eq_iff {name context context' : String} {s s' : Schema} {d m : Model}
    {ms ms' : List Model} (h : Makes definitions name context s d ms)
    (h' : Makes definitions' name context' s' m ms') (herase : s.erase = s'.erase) :
    d.interface = m.interface ↔ WrittenAlike definitions definitions' (typeUses s) := by
  -- the schema decides what is made of it, so the second model is made in the same way
  have halike := Schema.alike_of_erase_eq herase
  cases h with
  | @enum p henum =>
    cases halike with
    | @primitive _ q hpq =>
      cases h' with
      | enum henum' =>
        unfold Primitive.erase at hpq
        rw [Primitive.mk.injEq] at hpq
        refine iff_of_true ?_ writtenAlike_nil
        rw [enumModelOf, enumModelOf, Model.interface, Model.interface, hpq.2.2.2.2.1]
  | @list items description constraints t ms hrun =>
    cases halike with
    | array hitems =>
      cases h' with
      | list hrun' =>
        rw [typeUses, ← name_eq_iff _ hitems hrun hrun', interface_collection, Option.some.injEq,
          String.append_left_inj, String.append_right_inj]
  | @empty title description =>
    cases halike with
    | @object _ _ _ _ _ qs _ additional' hps hadditional =>
      cases hps
      cases h' with
      | object hne _ => exact absurd rfl hne
      | dictionary _ => cases hadditional
      | empty => exact iff_of_true rfl writtenAlike_nil
  | @dictionary title description extra t ms hrun =>
    cases halike with
    | @object _ _ _ _ _ qs _ additional' hps hadditional =>
      cases hps
      cases h' with
      | object hne _ => exact absurd rfl hne
      | empty => cases hadditional
      | dictionary hrun' =>
        have huses : typeUses (.object title description [] (some extra)) = plainUses extra := by
          simp [typeUses]
        cases hadditional with
        | some hextra =>
          rw [huses, ← name_eq_iff _ hextra hrun hrun', interface_collection, Option.some.injEq,
            String.append_left_inj, String.append_right_inj]
  | @object title description properties additional types ms hne hall =>
    cases halike with
    | @object _ _ _ _ _ qs _ additional' hps hadditional =>
      cases h' with
      | empty =>
        cases hps
        exact absurd rfl hne
      | dictionary _ =>
        cases hps
        exact absurd rfl hne
      | @object _ _ _ _ types' _ _ hall' =>
        have huses : typeUses (.object title description properties additional) =
            properties.flatMap propertyUses := by
          rw [typeUses, if_neg (fun he => hne (List.isEmpty_iff.mp he))]
        have hisSome : additional.isSome = additional'.isSome := by
          cases hadditional <;> rfl
        obtain ⟨hnames, hmembers⟩ := members_eq_iff hps [] hall hall'
        -- the member for undeclared properties is named for the class and its members only
        have hextension : extensionName name (membersOf name [] properties types) =
            extensionName name (membersOf name [] qs types') := by
          unfold extensionName
          rw [hnames]
        rw [huses, ← hmembers, classOf, classOf, Model.interface, Model.interface,
          Interface.ofClass.injEq, hisSome, hextension]
        simp only [true_and, and_true]

end Comparison

/-! ## Documents -/

/-- The schema that a model of a specification is made from. -/
def MadeFrom (spec : Specification) (s : Schema) (m : Model) : Prop :=
  ∃ context rest, Makes spec.definitions m.name context s m rest

theorem MadeFrom.shape_eq {spec : Specification} {s : Schema} {m : Model} (h : MadeFrom spec s m) :
    m.shape = s.shape := by
  obtain ⟨context, rest, hmake⟩ := h
  exact hmake.shape_eq

theorem Planned.exists_madeFrom {spec : Specification} {client : Client} {models : List Model}
    (h : Planned spec client models) {m : Model} (hm : m ∈ models) : ∃ s, MadeFrom spec s m := by
  obtain ⟨name, context, s, rest, hmake⟩ := (h.made m hm).makes
  rw [← hmake.name_eq] at hmake
  exact ⟨s, context, rest, hmake⟩

/-- All planned models have the interface of the models that are declared under their names. -/
def SkipsAgree (options : EmitOptions) (specs : List Specification) : Prop :=
  ∀ entry ∈ (batch options specs .empty).emitted, ∀ m ∈ (planSpec entry.1 options).models,
    ∀ d ∈ declared (batch options specs .empty), d.name = m.name → d.interface = m.interface

/-- How the model that a document declares compares with one of that name that an emitted
specification plans. They are of one kind and are made from schemas of one shape; if these are the
same schema, apart from documentation, then the models have the same interface exactly when all
references that their types are made from are written alike in the two specifications. -/
structure Compares (emitted : List (Specification × Part)) (spec : Specification) (m d : Model) :
    Prop where
  kind : d.isEnum = m.isEnum
  sources : ∃ earlier ∈ emitted, d ∈ earlier.2.models ∧ ∃ s s', MadeFrom earlier.1 s d ∧
    MadeFrom spec s' m ∧ s.shape = s'.shape ∧
    (s.erase = s'.erase → (d.interface = m.interface ↔
      WrittenAlike earlier.1.definitions spec.definitions (typeUses s)))

/-- **Skipped models**: any model that an emitted specification plans, and any model that the
document declares under its name. -/
theorem skipped_iff {options : EmitOptions} {specs : List Specification}
    {entry : Specification × Part} (hentry : entry ∈ (batch options specs .empty).emitted)
    {m : Model} (hm : m ∈ (planSpec entry.1 options).models)
    {d : Model} (hd : d ∈ declared (batch options specs .empty)) (hname : d.name = m.name) :
    Compares (batch options specs .empty).emitted entry.1 m d := by
  obtain ⟨hshape, hkind⟩ := (declared_of_planned hentry hm).2 d hd hname
  obtain ⟨earlier, hearlier, hdmem⟩ := exists_part_of_declared hd
  obtain ⟨hplanned, hsub⟩ := planned_of_emitted hearlier
  obtain ⟨s, hs⟩ := hplanned.exists_madeFrom (hsub hdmem)
  obtain ⟨s', hs'⟩ := (planned_of_emitted hentry).1.exists_madeFrom hm
  refine ⟨hkind, earlier, hearlier, hdmem, s, s', hs, hs', ?_, fun herase => ?_⟩
  · rw [← hs.shape_eq, ← hs'.shape_eq, hshape]
  · obtain ⟨context, rest, hmake⟩ := hs
    obtain ⟨context', rest', hmake'⟩ := hs'
    rw [hname] at hmake
    exact interface_eq_iff hmake hmake' herase

/-- A shop whose items are known by a code, and what a code is. -/
def codedShop (sourceId title : String) (code : PrimitiveKind) : Specification :=
  specOf sourceId title
    [("Sku", .primitive { kind := code }),
     ("Item", .object none none [⟨"sku", .reference "Sku", true⟩] none)] []

/-- The code is text in one shop and a number in the other. -/
def shops : List Specification :=
  [codedShop "a.json" "First" .string, codedShop "b.json" "Second" .integer]

/-- The item of the second shop is skipped, and compares with that of the first as stated. -/
theorem skipped_iff_shops : ∃ entry ∈ (batch {} shops .empty).emitted,
    ∃ m ∈ (planSpec entry.1 {}).models, ∃ d ∈ declared (batch {} shops .empty),
      entry.1.sourceId = "b.json" ∧ d.name = m.name ∧
        Compares (batch {} shops .empty).emitted entry.1 m d := by
  have hskip : ∃ entry ∈ (batch {} shops .empty).emitted, ∃ m ∈ (planSpec entry.1 {}).models,
      ∃ d ∈ declared (batch {} shops .empty),
        entry.1.sourceId = "b.json" ∧ d.name = m.name := by
    decide +kernel
  obtain ⟨entry, hentry, m, hm, d, hd, hsource, hname⟩ := hskip
  exact ⟨entry, hentry, m, hm, d, hd, hsource, hname, skipped_iff hentry hm hd hname⟩

/-- **References need not be written alike**: the client of the second shop is given items whose
code is text. -/
theorem not_skipsAgree_shops : ¬ SkipsAgree {} shops := by
  unfold SkipsAgree
  decide +kernel

end ClientGen.CSharp
