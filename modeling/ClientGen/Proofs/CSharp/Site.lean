import Mathlib.Logic.Relation
import ClientGen.Proofs.CSharp.Plan

/-!
# Where schemas become types

A site is a schema at a place where a plan maps it to a type. The type of a site is made from the
types of its parts, and so are the models that it declares.

* `Mapping` — **one step**: all that mapping a site can do. `mapping_of_runs` is the inversion.
* `Makes` — a model and the schema that it is made from, with the types of the members of the model
  tied to the sites they come from (`Makes.formed`).
* `MapsInto.within`, `exists_madeAt_of_mem` — **whole runs**: what is mapped below a site is mapped
  in its run, and every model of a run is made at a site below.
-/

namespace ClientGen.CSharp

open Plan (RunsAll)

/-- A schema where it is mapped to a type: `hint` names a model that it may need, `context` says in
errors where it stands. -/
structure Site where
  schema : Schema
  hint : String
  context : String

namespace Site

/-- Maps the schema of a site. -/
def plan (definitions : Table Schema) (s : Site) : Plan TypeRef :=
  mapSchema definitions s.schema s.hint s.context

/-- The site of a property of a class. -/
def ofProperty (owner context : String) (p : Property Schema) : Site :=
  ⟨p.schema, memberTypeName owner p.name, context ++ "." ++ p.name⟩

theorem plan_mk (definitions : Table Schema) (schema : Schema) (hint context : String) :
    plan definitions ⟨schema, hint, context⟩ = mapSchema definitions schema hint context := by
  dsimp only [plan]

theorem plan_ofProperty (definitions : Table Schema) (owner context : String)
    (p : Property Schema) : plan definitions (ofProperty owner context p) =
      mapSchema definitions p.schema (memberTypeName owner p.name) (context ++ "." ++ p.name) := by
  dsimp only [plan, ofProperty]

/-- The sites that the type of a site, or the model it declares, is made from. -/
def parts : Site → List Site
  | ⟨.array items _ _, hint, context⟩ => [⟨items, hint, context⟩]
  | ⟨.object _ _ [] (some extra), hint, context⟩ => [⟨extra, hint ++ "Value", context⟩]
  | ⟨.object _ _ properties _, hint, context⟩ => properties.map (ofProperty (typeName hint) context)
  | ⟨.reference _, _, _⟩ => []
  | ⟨.primitive _, _, _⟩ => []

/-- Parts are smaller. -/
theorem sizeOf_lt_of_mem_parts {s part : Site} (h : part ∈ s.parts) :
    sizeOf part.schema < sizeOf s.schema := by
  obtain ⟨schema, hint, context⟩ := s
  cases schema with
  | reference _ => cases h
  | primitive _ => cases h
  | array items _ _ =>
    rw [List.mem_singleton.mp h]
    simp only [Schema.array.sizeOf_spec]
    omega
  | object title description properties additional =>
    have hproperty : ∀ p ∈ properties,
        sizeOf p.schema < sizeOf (Schema.object title description properties additional) := by
      intro p hp
      have hlt := List.sizeOf_lt_of_mem hp
      obtain ⟨name, schema, required⟩ := p
      simp only [Schema.object.sizeOf_spec, Property.mk.sizeOf_spec] at hlt ⊢
      omega
    cases properties with
    | nil =>
      cases additional with
      | none => cases h
      | some extra =>
        rw [List.mem_singleton.mp h]
        simp only [Schema.object.sizeOf_spec, Option.some.sizeOf_spec]
        omega
    | cons p ps =>
      obtain ⟨q, hq, rfl⟩ := List.mem_map.mp h
      exact hproperty q hq

/-- Induction over sites: what passes from the parts to the whole holds of every site. -/
theorem induction {P : Site → Prop} (h : ∀ s, (∀ part ∈ s.parts, P part) → P s) (s : Site) : P s :=
  h s fun part hpart =>
    have := sizeOf_lt_of_mem_parts hpart
    induction h part
termination_by sizeOf s.schema

/-- The second site is the first one, or a part of it, or a part of a part. -/
def Within : Site → Site → Prop := Relation.ReflTransGen fun s part => part ∈ s.parts

end Site

/-! ## Classes -/

/-- The properties of a class, given the names in use and the types of the properties. -/
def membersOf (owner : String) : (taken : List String) → List (Property Schema) → List TypeRef →
    List ModelProperty
  | taken, p :: ps, t :: ts =>
    let name := Name.uniqueName (memberName p.name owner) taken
    { name
      wireName := p.name
      type := if p.required then t.name else t.nullable
      description := Text.oneLine? p.schema.description? } ::
      membersOf owner (taken ++ [name]) ps ts
  | _, _, _ => []

/-- The properties of a class are mapped each at its site. -/
theorem runsAll_of_mapProperties {definitions : Table Schema} {owner context : String}
    {ps : List (Property Schema)} :
    ∀ {taken : List String} {members : List ModelProperty} {ms : List Model},
      (mapProperties definitions ps owner context taken).Runs members ms →
      ∃ types, RunsAll (Site.plan definitions) (ps.map (Site.ofProperty owner context)) types ms ∧
        members = membersOf owner taken ps types := by
  induction ps with
  | nil =>
    intro taken members ms h
    rw [mapProperties] at h
    obtain ⟨rfl, rfl⟩ := h.pure_inv
    exact ⟨[], RunsAll.nil, rfl⟩
  | cons p ps ih =>
    obtain ⟨wireName, schema, required⟩ := p
    intro taken members ms h
    rw [mapProperties] at h
    obtain ⟨type, ms₁, ms₂, htype, hrest, rfl⟩ := h.bind_inv
    obtain ⟨rest, hps, rfl⟩ := hrest.bind_pure_inv
    obtain ⟨types, hall, rfl⟩ := ih hps
    refine ⟨type :: types, RunsAll.cons ?_ hall, rfl⟩
    rw [Site.plan_ofProperty]
    exact htype

/-! ## Models -/

/-- Is it an enum? -/
def Model.isEnum : Model → Bool
  | .classModel _ _ _ _ _ _ => false
  | .enumModel _ _ _ _ => true

/-- The types that a model names: what it extends, and the types of its properties. -/
def Model.types : Model → List String
  | .classModel _ _ base properties _ _ => base.toList ++ properties.map (·.type)
  | .enumModel _ _ _ _ => []

/-- The ways a type is written. -/
def TypeRef.forms (t : TypeRef) : List String :=
  [t.name, t.nullable, "List<" ++ t.name ++ ">", "Dictionary<string, " ++ t.name ++ ">"]

/-- The sites that the model of a definition is made from. -/
def modelSites (name context : String) : Schema → List Site
  | .object _ _ [] (some extra) => [⟨extra, name ++ "Value", context⟩]
  | .object _ _ properties _ => properties.map (Site.ofProperty name context)
  | .array items _ _ => [⟨items, name ++ "Item", context⟩]
  | .reference _ => []
  | .primitive _ => []

/-- The model that a schema is made into under a name, and the models that are declared while it is
made. -/
inductive Makes (definitions : Table Schema) (name context : String) :
    Schema → Model → List Model → Prop
  | object {title description : Option String} {properties : List (Property Schema)}
      {additional : Option Schema} {types : List TypeRef} {ms : List Model} :
      properties ≠ [] →
      RunsAll (Site.plan definitions) (properties.map (Site.ofProperty name context)) types ms →
      Makes definitions name context (.object title description properties additional)
        (classOf name description (membersOf name [] properties types) additional.isSome
          (Schema.object title description properties additional).shape) ms
  | empty {title description : Option String} :
      Makes definitions name context (.object title description [] none)
        (.collection name description none (Schema.object title description [] none).shape) []
  | dictionary {title description : Option String} {extra : Schema} {t : TypeRef}
      {ms : List Model} :
      (Site.plan definitions ⟨extra, name ++ "Value", context⟩).Runs t ms →
      Makes definitions name context (.object title description [] (some extra))
        (.collection name description (some ("Dictionary<string, " ++ t.name ++ ">"))
          (Schema.object title description [] (some extra)).shape) ms
  | list {items : Schema} {description : Option String} {constraints : Constraints} {t : TypeRef}
      {ms : List Model} :
      (Site.plan definitions ⟨items, name ++ "Item", context⟩).Runs t ms →
      Makes definitions name context (.array items description constraints)
        (.collection name description (some ("List<" ++ t.name ++ ">"))
          (Schema.array items description constraints).shape) ms
  | enum {p : Primitive} :
      p.isStringEnum = true → Makes definitions name context (.primitive p) (enumModelOf name p) []

namespace Makes

variable {definitions : Table Schema} {name context : String} {schema : Schema} {m : Model}
  {ms : List Model}

theorem name_eq (h : Makes definitions name context schema m ms) : m.name = name := by
  cases h <;> rfl

theorem shape_eq (h : Makes definitions name context schema m ms) : m.shape = schema.shape := by
  cases h with
  | enum _ => rw [Schema.shape]; rfl
  | _ => rfl

/-- The types of the properties of a class are those of the sites, in one of their forms. -/
theorem exists_mem_forms {owner : String} {ps : List (Property Schema)} :
    ∀ {taken : List String} {types : List TypeRef} {text : String},
      text ∈ (membersOf owner taken ps types).map (·.type) → ∃ t ∈ types, text ∈ t.forms := by
  induction ps with
  | nil => exact fun h => (nomatch h)
  | cons p ps ih =>
    intro taken types text h
    cases types with
    | nil => cases h
    | cons t types =>
      rw [membersOf, List.map_cons] at h
      rcases List.mem_cons.mp h with rfl | h
      · refine ⟨t, List.mem_cons_self .., ?_⟩
        by_cases hp : p.required = true
        · rw [if_pos hp]
          exact List.mem_cons_self ..
        · rw [if_neg hp]
          exact List.mem_cons_of_mem _ (List.mem_cons_self ..)
      · obtain ⟨t', ht', hform⟩ := ih h
        exact ⟨t', List.mem_cons_of_mem t ht', hform⟩

/-- **A model is made from its sites**: they run one after the other and declare what is declared
while it is made, and every type that the model names is one of theirs. -/
theorem formed (h : Makes definitions name context schema m ms) :
    ∃ types, RunsAll (Site.plan definitions) (modelSites name context schema) types ms ∧
      ∀ text ∈ m.types, ∃ t ∈ types, text ∈ t.forms := by
  cases h with
  | @object title description properties additional types ms hne hall =>
    refine ⟨types, ?_, fun text htext => exists_mem_forms htext⟩
    cases properties with
    | nil => exact absurd rfl hne
    | cons p ps => exact hall
  | empty => exact ⟨[], RunsAll.nil, fun _ h => (nomatch h)⟩
  | @dictionary title description extra t ms hrun =>
    refine ⟨[t], RunsAll.single hrun, fun text htext => ?_⟩
    rw [List.mem_singleton.mp htext]
    exact ⟨t, List.mem_cons_self .., by simp [TypeRef.forms]⟩
  | @list items description constraints t ms hrun =>
    refine ⟨[t], RunsAll.single hrun, fun text htext => ?_⟩
    rw [List.mem_singleton.mp htext]
    exact ⟨t, List.mem_cons_self .., by simp [TypeRef.forms]⟩
  | enum _ => exact ⟨[], RunsAll.nil, fun _ h => (nomatch h)⟩

/-- The shape of a model tells enums from classes, and from all that is not a model. -/
theorem head?_shape (h : Makes definitions name context schema m ms) :
    (m.isEnum = true ∧ m.shape.toList.head? = some 's') ∨
      (m.isEnum = false ∧
        (m.shape.toList.head? = some '{' ∨ m.shape.toList.head? = some '[')) := by
  rw [h.shape_eq]
  cases h with
  | @enum p henum =>
    have hkind : p.kind = .string := by
      have hand := (Bool.and_eq_true_iff.mp henum).1
      exact of_decide_eq_true hand
    refine Or.inl ⟨rfl, ?_⟩
    rw [Schema.shape, Primitive.shape, hkind, String.toList_append, String.toList_append]
    rfl
  | list _ =>
    refine Or.inr ⟨rfl, Or.inr ?_⟩
    rw [Schema.shape, String.toList_append, String.toList_append]
    rfl
  | _ =>
    refine Or.inr ⟨rfl, Or.inl ?_⟩
    rw [Schema.shape, String.toList_append, String.toList_append, String.toList_append]
    rfl

end Makes

/-! ## One step -/

/-- Has the schema no name of its own, though it needs a model? -/
def isNameless : Schema → Bool
  | .object _ _ properties _ => !properties.isEmpty
  | .primitive p => p.isStringEnum
  | .array _ _ _ => false
  | .reference _ => false

/-- All that mapping a site can do: the type that it gives, and the models that it declares. -/
inductive Mapping (definitions : Table Schema) : Site → TypeRef → List Model → Prop
  | reference {name hint context : String} {t : TypeRef} :
      resolveReference definitions name context = .ok t →
      Mapping definitions ⟨.reference name, hint, context⟩ t []
  | array {items : Schema} {description : Option String} {constraints : Constraints}
      {hint context : String} {t : TypeRef} {ms : List Model} :
      (Site.plan definitions ⟨items, hint, context⟩).Runs t ms →
      Mapping definitions ⟨.array items description constraints, hint, context⟩
        (.reference (t.name ++ "[]")) ms
  | any {title description : Option String} {hint context : String} :
      Mapping definitions ⟨.object title description [] none, hint, context⟩
        (.reference anyType) []
  | dictionary {title description : Option String} {extra : Schema} {hint context : String}
      {t : TypeRef} {ms : List Model} :
      (Site.plan definitions ⟨extra, hint ++ "Value", context⟩).Runs t ms →
      Mapping definitions ⟨.object title description [] (some extra), hint, context⟩
        (.reference ("Dictionary<string, " ++ t.name ++ ">")) ms
  | model {schema : Schema} {hint context : String} {m : Model} {ms : List Model} :
      isNameless schema = true → Makes definitions (typeName hint) context schema m ms →
      Mapping definitions ⟨schema, hint, context⟩ ⟨typeName hint, m.isEnum⟩ (m :: ms)
  | primitive {p : Primitive} {hint context : String} :
      ¬ p.isStringEnum = true →
      Mapping definitions ⟨.primitive p, hint, context⟩ (primitiveType p) []

/-- Inversion for sites. -/
theorem mapping_of_runs {definitions : Table Schema} {s : Site} {t : TypeRef} {ms : List Model}
    (h : (s.plan definitions).Runs t ms) : Mapping definitions s t ms := by
  obtain ⟨schema, hint, context⟩ := s
  rw [Site.plan_mk] at h
  cases schema with
  | reference name =>
    rw [mapSchema] at h
    obtain ⟨ht, rfl⟩ := h.ofExcept_inv
    exact Mapping.reference ht
  | array items description constraints =>
    rw [mapSchema] at h
    obtain ⟨item, hitem, rfl⟩ := h.bind_pure_inv
    rw [← Site.plan_mk] at hitem
    exact Mapping.array hitem
  | primitive p =>
    rw [mapSchema] at h
    by_cases henum : p.isStringEnum = true
    · rw [if_pos henum] at h
      obtain ⟨u, hpush, rfl⟩ := h.bind_pure_inv
      rw [hpush.push_inv]
      refine Mapping.model ?_ (Makes.enum henum)
      exact henum
    · rw [if_neg henum] at h
      obtain ⟨rfl, rfl⟩ := h.pure_inv
      exact Mapping.primitive henum
  | object title description properties additional =>
    rw [mapSchema] at h
    cases properties with
    | nil =>
      rw [if_pos List.isEmpty_nil] at h
      cases additional with
      | none =>
        rw [mapDictionary] at h
        obtain ⟨rfl, rfl⟩ := h.pure_inv
        exact Mapping.any
      | some extra =>
        rw [mapDictionary] at h
        obtain ⟨value, hvalue, rfl⟩ := h.bind_pure_inv
        rw [← Site.plan_mk] at hvalue
        exact Mapping.dictionary hvalue
    | cons p ps =>
      -- a class of its own, declared before the models of its properties
      rw [if_neg (by rw [List.isEmpty_cons]; exact Bool.false_ne_true)] at h
      obtain ⟨u, hdeclare, rfl⟩ := h.bind_pure_inv
      obtain ⟨m, rest, hmake, rfl⟩ := hdeclare.declare_inv
      obtain ⟨members, hmembers, rfl⟩ := hmake.bind_pure_inv
      obtain ⟨types, hall, rfl⟩ := runsAll_of_mapProperties hmembers
      exact Mapping.model rfl (Makes.object (List.cons_ne_nil p ps) hall)

/-- A nameless schema is made into a model from the parts of its site. -/
theorem modelSites_eq_parts {schema : Schema} {hint context : String}
    (h : isNameless schema = true) :
    modelSites (typeName hint) context schema = Site.parts ⟨schema, hint, context⟩ := by
  cases schema with
  | reference _ => cases h
  | array _ _ _ => cases h
  | primitive _ => rfl
  | object title description properties additional =>
    cases properties with
    | nil => cases h
    | cons p ps => rfl

/-- **One step.** The parts of a site run one after the other, and the site declares what they
declare, after a model of its own if it needs one. -/
theorem Mapping.parts {definitions : Table Schema} {s : Site} {t : TypeRef} {ms : List Model}
    (h : Mapping definitions s t ms) :
    ∃ types rest, RunsAll (Site.plan definitions) s.parts types rest ∧
      (ms = rest ∨ ∃ m, ms = m :: rest ∧ isNameless s.schema = true ∧
        Makes definitions (typeName s.hint) s.context s.schema m rest) := by
  cases h with
  | reference _ => exact ⟨[], [], RunsAll.nil, Or.inl rfl⟩
  | array hitem => exact ⟨_, _, RunsAll.single hitem, Or.inl rfl⟩
  | any => exact ⟨[], [], RunsAll.nil, Or.inl rfl⟩
  | dictionary hvalue => exact ⟨_, _, RunsAll.single hvalue, Or.inl rfl⟩
  | model hnameless hmake =>
    obtain ⟨types, hall, -⟩ := hmake.formed
    rw [modelSites_eq_parts hnameless] at hall
    exact ⟨types, _, hall, Or.inr ⟨_, rfl, hnameless, hmake⟩⟩
  | primitive _ => exact ⟨[], [], RunsAll.nil, Or.inl rfl⟩

/-! ## Whole runs -/

/-- The site is mapped, and the models that it needs are among these. -/
def MapsInto (definitions : Table Schema) (ms : List Model) (s : Site) : Prop :=
  ∃ t ms', (s.plan definitions).Runs t ms' ∧ ms' ⊆ ms

theorem MapsInto.mono {definitions : Table Schema} {ms ms' : List Model} {s : Site}
    (h : MapsInto definitions ms s) (hsub : ms ⊆ ms') : MapsInto definitions ms' s := by
  obtain ⟨t, own, hrun, hown⟩ := h
  exact ⟨t, own, hrun, List.Subset.trans hown hsub⟩

/-- What is below a site is mapped in its run. -/
theorem MapsInto.within {definitions : Table Schema} {ms : List Model} {root s : Site}
    (h : MapsInto definitions ms root) (hw : root.Within s) : MapsInto definitions ms s := by
  induction hw with
  | refl => exact h
  | @tail above part _ hpart ih =>
    obtain ⟨t, own, hrun, hown⟩ := ih
    obtain ⟨types, rest, hall, hrest⟩ := (mapping_of_runs hrun).parts
    have hpartRuns : MapsInto definitions rest part := hall.of_mem hpart
    rcases hrest with rfl | ⟨m, rfl, -⟩
    · exact hpartRuns.mono hown
    · exact (hpartRuns.mono (List.subset_cons_self m rest)).mono hown

/-- A model is made at a site: the schema there has no name of its own, and the site gives it one.
-/
structure MadeAt (definitions : Table Schema) (s : Site) (m : Model) : Prop where
  isNameless : isNameless s.schema = true
  makes : ∃ rest, Makes definitions (typeName s.hint) s.context s.schema m rest

/-- Every model of a run is made at a site below. -/
theorem exists_madeAt_of_mem {definitions : Table Schema} (root : Site) :
    ∀ {t : TypeRef} {ms : List Model}, (root.plan definitions).Runs t ms → ∀ m ∈ ms,
      ∃ s, root.Within s ∧ MadeAt definitions s m := by
  induction root using Site.induction with
  | h root ih =>
    intro t ms h m hm
    obtain ⟨types, rest, hall, hms⟩ := (mapping_of_runs h).parts
    have hbelow : m ∈ rest → ∃ s, root.Within s ∧ MadeAt definitions s m := by
      intro hm
      obtain ⟨part, hpart, t', ms', hrun, hm⟩ := hall.of_mem_models hm
      obtain ⟨s, hw, hmade⟩ := ih part hpart hrun m hm
      exact ⟨s, Relation.ReflTransGen.head hpart hw, hmade⟩
    rcases hms with rfl | ⟨own, rfl, hnameless, hmake⟩
    · exact hbelow hm
    · rcases List.mem_cons.mp hm with rfl | hm
      · exact ⟨root, Relation.ReflTransGen.refl, hnameless, rest, hmake⟩
      · exact hbelow hm

end ClientGen.CSharp
