import ClientGen.Proofs.Resolve.Parts

/-!
# Shared parameters and responses

A parameter or response that refers to a shared one could as well be written out in its place.

* `Checked.KeptBy` — whatever one computation gives, another gives too. It is kept by sequences and
  traversals, so two runs are compared step by step.
* `SchemaObject.resolve_keptBy`, `ParameterObject.resolveOwn_keptBy` and
  `ResponseObject.resolveOwn_keptBy` — **paths**: what a part of a document means does not depend on
  where it stands.
* `Document.inlined` — the document with the shared entries written out.
* `Document.resolve_inlined` — **transparency**: it means the same specification.
-/

namespace ClientGen

/-! ## Comparing two runs -/

namespace Checked

variable {ε α β γ : Type}

/-- The value of `x`, if it has one, is that of `y` as well. -/
def KeptBy (x y : Checked ε α) : Prop := ∀ a, x.outcome = .ok a → y.outcome = .ok a

theorem KeptBy.refl (x : Checked ε α) : x.KeptBy x := fun _ h => h

/-- Sequences keep values step by step. The second steps are compared only for the value that the
first ones give, so that what is known of it can be used. -/
theorem KeptBy.bind {x y : Checked ε α} {f g : α → Checked ε β} (h : x.KeptBy y)
    (hfg : ∀ a, x.outcome = .ok a → (f a).KeptBy (g a)) : (x >>= f).KeptBy (y >>= g) := by
  intro b hb
  rw [outcome_bind] at hb ⊢
  obtain ⟨a, ha, hb⟩ := bind_eq_ok hb
  rw [h a ha]
  exact hfg a ha b hb

theorem KeptBy.map {x y : Checked ε α} {f : α → β} (h : x.KeptBy y) :
    (f <$> x).KeptBy (f <$> y) := by
  rw [map_eq_pure_bind, map_eq_pure_bind]
  exact h.bind fun _ _ => .refl _

/-- An error has nothing to keep. -/
theorem KeptBy.throw {y : Checked ε α} (e : ε) : (throw e : Checked ε α).KeptBy y :=
  fun _ h => nomatch h

/-- A traversal is kept if the work on each entry is. With this, documents are compared entry by
entry. -/
theorem KeptBy.mapM {f g : α → Checked ε β} {l : List α} (h : ∀ a ∈ l, (f a).KeptBy (g a)) :
    (l.mapM f).KeptBy (l.mapM g) := by
  induction l with
  | nil => exact .refl _
  | cons a l ih =>
    rw [List.mapM_cons, List.mapM_cons]
    refine (h a (List.mem_cons_self ..)).bind fun _ _ => KeptBy.bind ?_ fun _ _ => .refl _
    exact ih fun b hb => h b (List.mem_cons_of_mem a hb)

end Checked

open Checked (KeptBy)

/-! ## Paths matter for messages only -/

/-- The path is named in a warning, and warnings are not compared. The same goes for defaults. -/
theorem PrimitiveKind.resolveEnum_keptBy (kind : PrimitiveKind) (path path' : String)
    (values : List Json.Value) :
    (kind.resolveEnum path values).KeptBy (kind.resolveEnum path' values) := by
  unfold resolveEnum
  by_cases hempty : values.isEmpty = true
  · rw [if_pos hempty, if_pos hempty]
    exact .refl _
  · rw [if_neg hempty, if_neg hempty]
    by_cases hkind : kind = .string
    · rw [if_pos hkind, if_pos hkind]
      exact .refl _
    · rw [if_neg hkind, if_neg hkind]
      exact KeptBy.bind (fun _ h => h) fun _ _ => .refl _

theorem PrimitiveKind.resolveDefault_keptBy (kind : PrimitiveKind) (path path' : String)
    (value : Option Json.Value) :
    (kind.resolveDefault path value).KeptBy (kind.resolveDefault path' value) := by
  cases value with
  | none => exact .refl _
  | some value =>
    rw [resolveDefault, resolveDefault]
    cases kind.literal? value with
    | none => exact KeptBy.bind (fun _ h => h) fun _ _ => .refl _
    | some literal => exact .refl _

theorem PrimitiveKind.resolve_keptBy (kind : PrimitiveKind) (path path' : String)
    {format description : Option String} {validation : Validation} {enum : List Json.Value}
    {default : Option Json.Value} :
    (kind.resolve path format description validation enum default).KeptBy
      (kind.resolve path' format description validation enum default) :=
  (kind.resolveEnum_keptBy path path' enum).bind fun _ _ =>
    (kind.resolveDefault_keptBy path path' default).bind fun _ _ => .refl _

mutual

/-- **A schema means the same wherever it stands.** By induction on the schema object: the path is
handed down to its parts and ends up in errors and warnings only, and an error has nothing to
keep. -/
theorem SchemaObject.resolve_keptBy : ∀ (s : SchemaObject) (path path' : String),
    (s.resolve path).KeptBy (s.resolve path')
  | ⟨head, properties, additional, items⟩, path, path' => by
    have hobject : KeptBy
        (do
          let properties ← SchemaObject.resolveProperties properties head.required path
          let additional ← SchemaObject.resolveAdditional additional properties.isEmpty path
          return Schema.object head.title head.description properties additional)
        (do
          let properties ← SchemaObject.resolveProperties properties head.required path'
          let additional ← SchemaObject.resolveAdditional additional properties.isEmpty path'
          return Schema.object head.title head.description properties additional) :=
      (SchemaObject.resolveProperties_keptBy properties head.required path path').bind fun _ _ =>
        (SchemaObject.resolveAdditional_keptBy additional _ path path').bind fun _ _ => .refl _
    rw [SchemaObject.resolve, SchemaObject.resolve]
    cases head.reference with
    | some reference =>
      dsimp only [resolveReference]
      split
      · exact .refl _
      · exact .throw _
    | none =>
      dsimp only
      split
      · exact hobject
      · exact hobject
      · exact (SchemaObject.resolveItems_keptBy items path path').bind fun _ _ => .refl _
      · split
        · exact (PrimitiveKind.resolve_keptBy _ path path').map
        · exact .throw _
termination_by structural s => s

theorem SchemaObject.resolveProperties_keptBy : ∀ (ps : List (String × SchemaObject))
    (required : List String) (path path' : String),
    (SchemaObject.resolveProperties ps required path).KeptBy
      (SchemaObject.resolveProperties ps required path')
  | [], _, _, _ => .refl _
  | (name, s) :: ps, required, path, path' => by
    rw [SchemaObject.resolveProperties, SchemaObject.resolveProperties]
    exact (SchemaObject.resolve_keptBy s _ _).bind fun _ _ =>
      (SchemaObject.resolveProperties_keptBy ps required path path').bind fun _ _ => .refl _
termination_by structural ps => ps

theorem SchemaObject.resolveAdditional_keptBy : ∀ (additional : Option (Additional SchemaObject))
    (alone : Bool) (path path' : String),
    (SchemaObject.resolveAdditional additional alone path).KeptBy
      (SchemaObject.resolveAdditional additional alone path')
  | none, _, _, _ => .refl _
  | some (.allowed value), _, _, _ => .refl _
  | some (.schema s), _, path, path' => by
    rw [SchemaObject.resolveAdditional, SchemaObject.resolveAdditional]
    exact (SchemaObject.resolve_keptBy s _ _).map
termination_by structural additional => additional

theorem SchemaObject.resolveItems_keptBy : ∀ (items : Option SchemaObject) (path path' : String),
    (SchemaObject.resolveItems items path).KeptBy (SchemaObject.resolveItems items path')
  | none, path, path' => by
    rw [SchemaObject.resolveItems, SchemaObject.resolveItems]
    exact KeptBy.bind (fun _ h => h) fun _ _ => .refl _
  | some s, path, path' => by
    rw [SchemaObject.resolveItems, SchemaObject.resolveItems]
    exact SchemaObject.resolve_keptBy s _ _
termination_by structural items => items

end

/-- A missing field is an error that names the field and the path; one that is there is taken. -/
theorem require_keptBy {α : Type} (field field' : String) (value : Option α) :
    (require field value).KeptBy (require field' value) := by
  cases value with
  | none => exact .throw _
  | some a => exact .refl _

namespace ParameterObject

/-- The type of a parameter that is no body, as an array or as a primitive. Its format of
collections is checked, and refused with the path, which an error may name. -/
theorem resolveValue_keptBy (p : ParameterObject) (path path' : String) :
    (p.resolveValue path).KeptBy (p.resolveValue path') := by
  refine (require_keptBy _ _ p.type).bind fun type _ => ?_
  by_cases harray : type = "array"
  · rw [if_pos harray, if_pos harray]
    refine (require_keptBy _ _ p.items).bind fun items _ => KeptBy.bind ?_ fun _ _ =>
      (items.resolve_keptBy _ _).bind fun _ _ => .refl _
    cases p.collectionFormat with
    | none => exact .refl _
    | some name =>
      rw [resolveCollectionFormat, resolveCollectionFormat]
      cases CollectionFormat.ofName? name with
      | none => exact .throw _
      | some format => exact .refl _
  · rw [if_neg harray, if_neg harray]
    split
    · exact (PrimitiveKind.resolve_keptBy _ path path').map
    · exact .throw _

theorem resolvePayload_keptBy (p : ParameterObject) (path path' : String) (location : Location) :
    (p.resolvePayload path location).KeptBy (p.resolvePayload path' location) := by
  cases location with
  | body =>
    refine KeptBy.map ?_
    rw [resolveBody, resolveBody]
    cases p.schema with
    | none => exact KeptBy.bind (fun _ h => h) fun _ _ => .refl _
    | some s => exact s.resolve_keptBy _ _
  | _ => exact (p.resolveValue_keptBy path path').map

theorem resolveOwn_keptBy (p : ParameterObject) (path path' : String) :
    (p.resolveOwn path).KeptBy (p.resolveOwn path') := by
  refine (require_keptBy _ _ p.name).bind fun name _ =>
    (require_keptBy _ _ p.location).bind fun locationName _ => ?_
  cases Location.ofName? locationName with
  | none => exact .throw _
  | some location => exact (p.resolvePayload_keptBy _ _ location).bind fun _ _ => .refl _

end ParameterObject

namespace ResponseObject

theorem resolveOwn_keptBy (r : ResponseObject) (status : Status) (path path' : String) :
    (r.resolveOwn status path).KeptBy (r.resolveOwn status path') := by
  refine (require_keptBy _ _ r.description).bind fun _ _ => KeptBy.bind ?_ fun _ _ =>
    KeptBy.bind ?_ fun _ _ => .refl _
  · cases r.schema with
    | none => exact .refl _
    | some s => exact (s.resolve_keptBy _ _).map
  · exact KeptBy.mapM fun (name, header) _ => (header.resolve_keptBy _ _).bind fun _ _ => .refl _

end ResponseObject

/-! ## Pools -/

section Pools

variable {α β : Type}

/-- The reference is a given start and the name of the entry. -/
def Names (start : String) (pool : Table α) (reference : String) (entry : α) : Prop :=
  ∃ name, reference = start ++ name ∧ pool.get? name = some entry

/-- A reference that finds an entry is a fixed start, and behind it the name of the entry. -/
theorem names_of_sharedEntry? {start reference : String} {pool : Table α} {entry : α}
    (h : sharedEntry? start pool reference = some entry) : Names start pool reference entry := by
  obtain ⟨name, hname, hentry⟩ := Option.bind_eq_some_iff.mp h
  refine ⟨String.ofList name, ?_, hentry⟩
  rw [← String.toList_inj, String.toList_append, String.toList_ofList]
  exact Text.dropStart?_eq_some_iff.mp hname

/-- Under each name stands what is made of the entry of that name. -/
theorem get?_of_made {made : α → β → Prop} {pool : Table α} {result : Table β}
    (h : Table.Made made pool result) {name : String} {b : β} (hb : result.get? name = some b) :
    ∃ a, pool.get? name = some a ∧ made a b := by
  induction h with
  | nil => cases hb
  | @cons entry c _ _ hmade _ ih =>
    obtain ⟨n, a⟩ := entry
    obtain ⟨n', c⟩ := c
    obtain ⟨rfl, hmade⟩ := hmade
    rw [Table.get?_cons] at hb ⊢
    by_cases hn : name = n'
    · rw [if_pos hn] at hb ⊢
      obtain rfl := Option.some.inj hb
      exact ⟨a, rfl, hmade⟩
    · rw [if_neg hn] at hb ⊢
      exact ih hb

/-- So a reference finds what is made of the entry that it names. -/
theorem sharedEntry?_of_made {made : α → β → Prop} {pool : Table α} {result : Table β}
    (h : Table.Made made pool result) {start reference : String} {b : β}
    (hb : sharedEntry? start result reference = some b) :
    ∃ a, sharedEntry? start pool reference = some a ∧ made a b := by
  obtain ⟨chars, hchars, hb⟩ := Option.bind_eq_some_iff.mp hb
  obtain ⟨a, ha, hmade⟩ := get?_of_made h hb
  exact ⟨a, Option.bind_eq_some_iff.mpr ⟨chars, hchars, ha⟩, hmade⟩

end Pools

/-- What is known of the pools of a document that was resolved: a reference that finds a resolved
entry finds an entry of the document, which is no reference itself and means the resolved one
wherever it stands. -/
structure PoolsOf (doc : Document) (parameters : Table Parameter) (responses : Table Response) :
    Prop where
  parameter : ∀ {reference : String} {shared : Parameter},
    sharedEntry? "#/parameters/" parameters reference = some shared →
    ∃ p, sharedEntry? "#/parameters/" doc.parameters reference = some p ∧ p.reference = none ∧
      ∀ path, (p.resolveOwn path).outcome = .ok shared
  response : ∀ {reference : String} {shared : Response},
    sharedEntry? "#/responses/" responses reference = some shared →
    ∃ r, sharedEntry? "#/responses/" doc.responses reference = some r ∧ r.reference = none ∧
      ∀ status path, (r.resolveOwn status path).outcome = .ok { shared with status }

/-- A shared response is resolved without a status of its own. -/
theorem ResponseObject.resolveOwn_status {r : ResponseObject} {status : Status} {path : String}
    {response : Response} (h : (r.resolveOwn status path).outcome = .ok response)
    (status' : Status) :
    (r.resolveOwn status' path).outcome = .ok { response with status := status' } := by
  simp only [resolveOwn, Checked.outcome_bind] at h ⊢
  obtain ⟨description, hdescription, h⟩ := bind_eq_ok h
  obtain ⟨schema, hschema, h⟩ := bind_eq_ok h
  obtain ⟨headers, hheaders, h⟩ := bind_eq_ok h
  rw [hdescription, hschema, hheaders, ← pure_eq_ok h]
  rfl

/-- The pools of a document that was resolved. An entry was resolved at its own path; that it means
the same at the place of a reference is what `resolveOwn_keptBy` is for. -/
theorem poolsOf {doc : Document} {parameters : Table Parameter} {responses : Table Response}
    (hparameters : (resolveParameterPool doc.parameters).outcome = .ok parameters)
    (hresponses : (resolveResponsePool doc.responses).outcome = .ok responses) :
    PoolsOf doc parameters responses where
  parameter := by
    intro reference shared hshared
    obtain ⟨p, hp, hnone, place, hown⟩ :=
      sharedEntry?_of_made (resolveParameterPool_inv hparameters) hshared
    exact ⟨p, hp, hnone, fun path => p.resolveOwn_keptBy place path shared hown⟩
  response := by
    intro reference shared hshared
    obtain ⟨r, hr, hnone, place, hown⟩ :=
      sharedEntry?_of_made (resolveResponsePool_inv hresponses) hshared
    exact ⟨r, hr, hnone, fun status path =>
      r.resolveOwn_keptBy status place path _ (ResponseObject.resolveOwn_status hown status)⟩

/-! ## Documents with shared entries written out -/

/-- The shared parameter that a parameter refers to, in its place. -/
def ParameterObject.inlined (pool : Table ParameterObject) (p : ParameterObject) :
    ParameterObject :=
  match p.reference with
  | some reference => sharedEntry? "#/parameters/" pool reference |>.getD p
  | none => p

/-- The shared response that a response refers to, in its place. -/
def ResponseObject.inlined (pool : Table ResponseObject) (r : ResponseObject) : ResponseObject :=
  match r.reference with
  | some reference => sharedEntry? "#/responses/" pool reference |>.getD r
  | none => r

/-- An operation with the shared parameters and responses in place. -/
def OperationObject.inlined (doc : Document) (o : OperationObject) : OperationObject :=
  { o with
    parameters := o.parameters.map (·.inlined doc.parameters)
    responses := o.responses.map fun rs => rs.map fun (key, r) => (key, r.inlined doc.responses) }

/-- A path item with the shared parameters and responses in place. -/
def PathItemObject.inlined (doc : Document) (item : PathItemObject) : PathItemObject where
  parameters := item.parameters.map (·.inlined doc.parameters)
  get := item.get.map (·.inlined doc)
  put := item.put.map (·.inlined doc)
  post := item.post.map (·.inlined doc)
  delete := item.delete.map (·.inlined doc)
  options := item.options.map (·.inlined doc)
  head := item.head.map (·.inlined doc)
  patch := item.patch.map (·.inlined doc)

/-- The document in which every reference to a shared parameter or response is replaced by what it
names. The pools themselves stay. -/
def Document.inlined (doc : Document) : Document :=
  { doc with
    paths := doc.paths.map fun items => items.map fun (path, item) => (path, item.inlined doc) }

/-- The parameters of a path item and of its operations. -/
def PathItemObject.parameterUses (item : PathItemObject) : List ParameterObject :=
  item.parameters ++ item.present.flatMap (·.2.parameters)

/-- The responses of the operations of a path item. -/
def PathItemObject.responseUses (item : PathItemObject) : List ResponseObject :=
  item.present.flatMap fun (_, o) => (o.responses.getD []).map (·.2)

/-- The path items of a document. -/
def Document.items (doc : Document) : List PathItemObject := (doc.paths.getD []).map (·.2)

/-- The parameters of all path items and operations. -/
def Document.parameterUses (doc : Document) : List ParameterObject :=
  doc.items.flatMap (·.parameterUses)

/-- The responses of all operations. -/
def Document.responseUses (doc : Document) : List ResponseObject :=
  doc.items.flatMap (·.responseUses)

theorem PathItemObject.operation?_inlined (doc : Document) (item : PathItemObject)
    (method : Method) :
    (item.inlined doc).operation? method = (item.operation? method).map (·.inlined doc) := by
  cases method <;> rfl

/-- An operation is there with the shared entries written out exactly if it was there before, under
the same method. -/
theorem PathItemObject.present_inlined (doc : Document) (item : PathItemObject) :
    (item.inlined doc).present = item.present.map fun (method, o) => (method, o.inlined doc) := by
  rw [present, present, List.map_filterMap]
  refine List.filterMap_congr fun method _ => ?_
  rw [operation?_inlined, Option.map_map, Option.map_map]
  rfl

/-! ### What they mean -/

section Inlined

variable {doc : Document} {ctx : ResolveContext}

/-- A parameter that refers to a shared one and was resolved: it is the entry of the document that
is written in its place, and this entry has the same meaning anywhere. -/
theorem ParameterObject.inlined_of_reference (hpools : PoolsOf doc ctx.parameters ctx.responses)
    {p : ParameterObject} {path reference : String} {a : Parameter}
    (hreference : p.reference = some reference)
    (h : (p.resolve ctx.parameters path).outcome = .ok a) :
    sharedEntry? "#/parameters/" doc.parameters reference = some (p.inlined doc.parameters) ∧
      (p.inlined doc.parameters).reference = none ∧
      ∀ place, ((p.inlined doc.parameters).resolveOwn place).outcome = .ok a := by
  rw [resolve, hreference] at h
  dsimp only at h
  cases hentry : sharedEntry? "#/parameters/" ctx.parameters reference with
  | none =>
    rw [hentry] at h
    cases h
  | some shared =>
    rw [hentry] at h
    obtain rfl := pure_eq_ok h
    obtain ⟨own, hown, hnone, hresolve⟩ := hpools.parameter hentry
    have hinlined : p.inlined doc.parameters = own := by
      rw [inlined, hreference]
      dsimp only
      rw [hown, Option.getD_some]
    rw [hinlined]
    exact ⟨hown, hnone, hresolve⟩

/-- A response that refers to a shared one and was resolved, likewise; its status is that of the
place where it stands. -/
theorem ResponseObject.inlined_of_reference (hpools : PoolsOf doc ctx.parameters ctx.responses)
    {r : ResponseObject} {status : Status} {path reference : String} {a : Response}
    (hreference : r.reference = some reference)
    (h : (r.resolve status ctx.responses path).outcome = .ok a) :
    sharedEntry? "#/responses/" doc.responses reference = some (r.inlined doc.responses) ∧
      (r.inlined doc.responses).reference = none ∧
      ∀ place, ((r.inlined doc.responses).resolveOwn status place).outcome = .ok a := by
  rw [resolve, hreference] at h
  dsimp only at h
  cases hentry : sharedEntry? "#/responses/" ctx.responses reference with
  | none =>
    rw [hentry] at h
    cases h
  | some shared =>
    rw [hentry] at h
    obtain rfl := pure_eq_ok h
    obtain ⟨own, hown, hnone, hresolve⟩ := hpools.response hentry
    have hinlined : r.inlined doc.responses = own := by
      rw [inlined, hreference]
      dsimp only
      rw [hown, Option.getD_some]
    rw [hinlined]
    exact ⟨hown, hnone, hresolve status⟩

/-- **One parameter**: it means the same with the shared one in its place. What was no reference is
not replaced at all. -/
theorem ParameterObject.resolve_keptBy_inlined (hpools : PoolsOf doc ctx.parameters ctx.responses)
    (p : ParameterObject) (path : String) :
    (p.resolve ctx.parameters path).KeptBy
      ((p.inlined doc.parameters).resolve ctx.parameters path) := by
  intro a ha
  cases hreference : p.reference with
  | none =>
    rw [inlined, hreference]
    exact ha
  | some reference =>
    obtain ⟨-, hnone, hresolve⟩ := inlined_of_reference hpools hreference ha
    rw [resolve, hnone]
    exact hresolve path

/-- **One response**, likewise, with the status that it stands under. -/
theorem ResponseObject.resolve_keptBy_inlined (hpools : PoolsOf doc ctx.parameters ctx.responses)
    (r : ResponseObject) (status : Status) (path : String) :
    (r.resolve status ctx.responses path).KeptBy
      ((r.inlined doc.responses).resolve status ctx.responses path) := by
  intro a ha
  cases hreference : r.reference with
  | none =>
    rw [inlined, hreference]
    exact ha
  | some reference =>
    obtain ⟨-, hnone, hresolve⟩ := inlined_of_reference hpools hreference ha
    rw [resolve, hnone]
    exact hresolve path

theorem resolveParameters_inlined (hpools : PoolsOf doc ctx.parameters ctx.responses)
    (path : String) (ps : List ParameterObject) :
    (resolveParameters ctx.parameters path ps).KeptBy
      (resolveParameters ctx.parameters path (ps.map (·.inlined doc.parameters))) := by
  rw [resolveParameters, resolveParameters, List.zipIdx_map, List.mapM_map]
  exact KeptBy.mapM fun entry _ => entry.1.resolve_keptBy_inlined hpools _

theorem resolveResponses_inlined (hpools : PoolsOf doc ctx.parameters ctx.responses) (path : String)
    (rs : Table ResponseObject) :
    (resolveResponses ctx.responses path rs).KeptBy (resolveResponses ctx.responses path
      (rs.map fun (key, r) => (key, r.inlined doc.responses))) := by
  rw [resolveResponses, resolveResponses, List.mapM_map]
  exact KeptBy.mapM fun entry _ =>
    (KeptBy.refl _).bind fun status _ => entry.2.resolve_keptBy_inlined hpools status _

/-- **One operation**: its parameters and its responses are the only places of references. One
without responses is refused in any case. -/
theorem OperationObject.resolve_keptBy_inlined (hpools : PoolsOf doc ctx.parameters ctx.responses)
    (o : OperationObject) (method : Method) (path : String) :
    (o.resolve ctx method path).KeptBy ((o.inlined doc).resolve ctx method path) := by
  refine (resolveParameters_inlined hpools _ o.parameters).bind fun parameters _ => ?_
  cases hresponses : o.responses with
  | none => exact fun _ h => nomatch h
  | some responses =>
    rw [inlined, hresponses]
    exact (resolveResponses_inlined hpools _ responses).bind fun _ _ => .refl _

/-- **One path item**: its own parameters, and then its operations one by one. -/
theorem PathItemObject.resolve_keptBy_inlined (hpools : PoolsOf doc ctx.parameters ctx.responses)
    (item : PathItemObject) (path : String) :
    (item.resolve ctx path).KeptBy ((item.inlined doc).resolve ctx path) := by
  refine (resolveParameters_inlined hpools _ item.parameters).bind fun parameters _ =>
    KeptBy.bind ?_ fun _ _ => .refl _
  have hpresent := item.present_inlined doc
  unfold present at hpresent
  rw [hpresent, List.mapM_map]
  exact KeptBy.mapM fun (method, o) _ => o.resolve_keptBy_inlined hpools method path

end Inlined

/-- **One document**: whatever it means, it means with the shared entries written out. -/
theorem Document.resolve_keptBy_inlined (sourceId : String) (doc : Document) :
    (doc.resolve sourceId).KeptBy (doc.inlined.resolve sourceId) := by
  refine (KeptBy.refl _).bind fun swagger _ => (KeptBy.refl _).bind fun info _ =>
    (KeptBy.refl _).bind fun parameters hparameters =>
    (KeptBy.refl _).bind fun responses hresponses => (KeptBy.refl _).bind fun definitions _ => ?_
  have hpools := poolsOf hparameters hresponses
  -- up to here the two documents are resolved alike; only the paths look into the pools
  cases hpaths : doc.paths with
  | none => exact fun _ h => nomatch h
  | some items =>
    simp only [inlined, hpaths, require, Option.map_some, pure_bind]
    refine KeptBy.bind ?_ fun _ _ => .refl _
    rw [List.mapM_map]
    exact KeptBy.mapM fun (path, item) _ => item.resolve_keptBy_inlined hpools path

/-! ### What stands in the place of references -/

theorem PathItemObject.parameterUses_inlined (doc : Document) (item : PathItemObject) :
    (item.inlined doc).parameterUses = item.parameterUses.map (·.inlined doc.parameters) := by
  rw [parameterUses, parameterUses, present_inlined, List.map_append, List.map_flatMap,
    List.flatMap_map]
  rfl

theorem PathItemObject.responseUses_inlined (doc : Document) (item : PathItemObject) :
    (item.inlined doc).responseUses = item.responseUses.map (·.inlined doc.responses) := by
  rw [responseUses, responseUses, present_inlined, List.map_flatMap, List.flatMap_map]
  refine List.flatMap_congr fun (_, o) _ => ?_
  cases hresponses : o.responses with
  | none => simp [OperationObject.inlined, hresponses]
  | some responses => simp [OperationObject.inlined, hresponses]

theorem Document.items_inlined (doc : Document) :
    doc.inlined.items = doc.items.map (·.inlined doc) := by
  cases hpaths : doc.paths with
  | none => simp [items, inlined, hpaths]
  | some paths => simp [items, inlined, hpaths]

/-- The parameters of the new document are those of the old one, each with the shared one in its
place. It is the list that the references are followed along. -/
theorem Document.parameterUses_inlined (doc : Document) :
    doc.inlined.parameterUses = doc.parameterUses.map (·.inlined doc.parameters) := by
  rw [parameterUses, parameterUses, items_inlined, List.map_flatMap, List.flatMap_map]
  exact List.flatMap_congr fun item _ => item.parameterUses_inlined doc

theorem Document.responseUses_inlined (doc : Document) :
    doc.inlined.responseUses = doc.responseUses.map (·.inlined doc.responses) := by
  rw [responseUses, responseUses, items_inlined, List.map_flatMap, List.flatMap_map]
  exact List.flatMap_congr fun item _ => item.responseUses_inlined doc

/-- Every path item of a document that was resolved was resolved itself, so that no reference in it
was left without an entry. -/
theorem Document.Parts.item_resolved {doc : Document} {spec : Specification} (h : doc.Parts spec)
    {item : PathItemObject} (hitem : item ∈ doc.items) :
    ∃ path made, (item.resolve (doc.context spec) path).outcome = .ok made := by
  obtain ⟨items, hitems, hpaths⟩ := h.paths
  rw [Document.items, hitems, Option.getD_some] at hitem
  obtain ⟨entry, hentry, rfl⟩ := List.mem_map.mp hitem
  rw [Checked.outcome_mapM] at hpaths
  obtain ⟨made, -, hmade⟩ := exists_right_of_forall₂ (mapM_eq_ok hpaths) hentry
  exact ⟨entry.1, made, hmade⟩

/-- All parameters and responses in use were resolved. -/
theorem PathItemObject.resolve_uses {ctx : ResolveContext} {path : String} {item : PathItemObject}
    {made : PathItem} (h : (item.resolve ctx path).outcome = .ok made) :
    (∀ p ∈ item.parameterUses, ∃ place a, (p.resolve ctx.parameters place).outcome = .ok a) ∧
      ∀ r ∈ item.responseUses, ∃ status place a,
        (r.resolve status ctx.responses place).outcome = .ok a := by
  have hparts := resolve_parts h
  have hoperations := hparts.operations
  rw [Checked.outcome_mapM] at hoperations
  refine ⟨fun p hp => ?_, fun r hr => ?_⟩
  · rcases List.mem_append.mp hp with hp | hp
    · obtain ⟨a, -, place, ha⟩ :=
        exists_right_of_forall₂ (resolveParameters_inv hparts.parameters) hp
      exact ⟨place, a, ha⟩
    · obtain ⟨⟨method, o⟩, ho, hp⟩ := List.mem_flatMap.mp hp
      obtain ⟨op, -, hop⟩ := exists_right_of_forall₂ (mapM_eq_ok hoperations) ho
      obtain ⟨a, -, place, ha⟩ := exists_right_of_forall₂
        (resolveParameters_inv (OperationObject.resolve_parts hop).parameters) hp
      exact ⟨place, a, ha⟩
  · obtain ⟨⟨method, o⟩, ho, hr⟩ := List.mem_flatMap.mp hr
    obtain ⟨op, -, hop⟩ := exists_right_of_forall₂ (mapM_eq_ok hoperations) ho
    obtain ⟨responses, hresponses, hmade⟩ := (OperationObject.resolve_parts hop).responses
    dsimp only at hr hresponses
    rw [hresponses, Option.getD_some] at hr
    obtain ⟨entry, hentry, rfl⟩ := List.mem_map.mp hr
    obtain ⟨a, -, status, place, ha⟩ := exists_right_of_forall₂ (resolveResponses_inv hmade) hentry
    exact ⟨status, place, a, ha⟩

/-- What replaces an entry of a document: a reference is replaced by the entry of the pool that it
names, anything else stays; no reference is left. -/
structure Replaced {α : Type} (start : String) (pool : Table α) (reference : α → Option String)
    (entry replacement : α) : Prop where
  named : ∀ text, reference entry = some text → Names start pool text replacement
  own : reference entry = none → replacement = entry
  final : reference replacement = none

theorem Replaced.keep {α : Type} {start : String} {pool : Table α} {reference : α → Option String}
    {entry : α} (h : reference entry = none) : Replaced start pool reference entry entry :=
  ⟨fun _ htext => (nomatch h.symm.trans htext), fun _ => rfl, h⟩

theorem Replaced.by_entry {α : Type} {start text : String} {pool : Table α}
    {reference : α → Option String} {entry replacement : α} (htext : reference entry = some text)
    (hentry : sharedEntry? start pool text = some replacement)
    (hnone : reference replacement = none) :
    Replaced start pool reference entry replacement := by
  refine ⟨fun text' htext' => ?_, fun hown => (nomatch htext.symm.trans hown), hnone⟩
  rw [← Option.some.inj (htext.symm.trans htext')]
  exact names_of_sharedEntry? hentry

/-- A parameter that was resolved is replaced by what its reference names, and by itself if it has
none. That the reference finds an entry is known from the resolution. -/
theorem ParameterObject.replaced {doc : Document} {ctx : ResolveContext}
    (hpools : PoolsOf doc ctx.parameters ctx.responses) {p : ParameterObject} {path : String}
    {a : Parameter} (h : (p.resolve ctx.parameters path).outcome = .ok a) :
    Replaced "#/parameters/" doc.parameters (·.reference) p (p.inlined doc.parameters) := by
  cases hreference : p.reference with
  | none =>
    have hinlined : p.inlined doc.parameters = p := by rw [inlined, hreference]
    rw [hinlined]
    exact .keep hreference
  | some reference =>
    obtain ⟨hentry, hnone, -⟩ := inlined_of_reference hpools hreference h
    exact .by_entry hreference hentry hnone

theorem ResponseObject.replaced {doc : Document} {ctx : ResolveContext}
    (hpools : PoolsOf doc ctx.parameters ctx.responses) {r : ResponseObject} {status : Status}
    {path : String} {a : Response} (h : (r.resolve status ctx.responses path).outcome = .ok a) :
    Replaced "#/responses/" doc.responses (·.reference) r (r.inlined doc.responses) := by
  cases hreference : r.reference with
  | none =>
    have hinlined : r.inlined doc.responses = r := by rw [inlined, hreference]
    rw [hinlined]
    exact .keep hreference
  | some reference =>
    obtain ⟨hentry, hnone, -⟩ := inlined_of_reference hpools hreference h
    exact .by_entry hreference hentry hnone

/-- **Transparency**: in a document that was resolved every reference to a shared parameter or
response names one, and the document with these written out has the same meaning. -/
theorem Document.resolve_inlined {sourceId : String} {doc : Document} {spec : Specification}
    (h : (doc.resolve sourceId).outcome = .ok spec) :
    List.Forall₂ (Replaced "#/parameters/" doc.parameters (·.reference)) doc.parameterUses
        doc.inlined.parameterUses ∧
      List.Forall₂ (Replaced "#/responses/" doc.responses (·.reference)) doc.responseUses
        doc.inlined.responseUses ∧
      (doc.inlined.resolve sourceId).outcome = .ok spec := by
  have hparts := resolve_parts h
  have hpools : PoolsOf doc (doc.context spec).parameters (doc.context spec).responses :=
    poolsOf hparts.parameters hparts.responses
  refine ⟨?_, ?_, doc.resolve_keptBy_inlined sourceId spec h⟩
  · rw [parameterUses_inlined, List.forall₂_map_right_iff, List.forall₂_same]
    intro p hp
    obtain ⟨item, hitem, hp⟩ := List.mem_flatMap.mp hp
    obtain ⟨path, made, hmade⟩ := hparts.item_resolved hitem
    obtain ⟨place, a, ha⟩ := (PathItemObject.resolve_uses hmade).1 p hp
    exact ParameterObject.replaced hpools ha
  · rw [responseUses_inlined, List.forall₂_map_right_iff, List.forall₂_same]
    intro r hr
    obtain ⟨item, hitem, hr⟩ := List.mem_flatMap.mp hr
    obtain ⟨path, made, hmade⟩ := hparts.item_resolved hitem
    obtain ⟨status, place, a, ha⟩ := (PathItemObject.resolve_uses hmade).2 r hr
    exact ResponseObject.replaced hpools ha

/-- A shop that shares a paging parameter and a failure. -/
def pagedShop : Document where
  swagger := some "2.0"
  info := some { title := some "Shop", version := some "1" }
  paths := some [("/items", {
    parameters := [{ reference := some "#/parameters/page" }]
    get := some {
      responses := some [
        ("200", { description := some "The items." }),
        ("default", { reference := some "#/responses/failure" })] } })]
  parameters := [
    ("page", { name := some "page", location := some "query", type := some "integer" })]
  responses := [("failure", { description := some "It failed." })]

/-- The shop has references, and is resolved. -/
theorem resolve_inlined_pagedShop :
    (∃ p ∈ pagedShop.parameterUses, p.reference.isSome) ∧
      (∃ r ∈ pagedShop.responseUses, r.reference.isSome) ∧
      ∃ spec, (pagedShop.resolve "shop.json").outcome = .ok spec ∧
        (pagedShop.inlined.resolve "shop.json").outcome = .ok spec := by
  have hshop : ∃ spec, (pagedShop.resolve "shop.json").outcome = .ok spec := ⟨_, rfl⟩
  obtain ⟨spec, hspec⟩ := hshop
  exact ⟨by decide, by decide, spec, hspec, (Document.resolve_inlined hspec).2.2⟩

end ClientGen
