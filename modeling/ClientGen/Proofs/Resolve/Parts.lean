import ClientGen.Proofs.Outcome
import ClientGen.Resolve.Document

/-!
# The parts of a specification

What is known of a document that was resolved: each part of its specification was made from a part
of the document, and none of the steps on the way has failed.

* `Document.resolve_parts`, `PathItemObject.resolve_parts`, `OperationObject.resolve_parts` —
  inversion for the three levels of a document.
* `resolveParameters_inv`, `resolveResponses_inv` — inversion for their lists, member by member.
* `resolveParameterPool_inv`, `resolveResponsePool_inv` — inversion for the pools.
-/

namespace ClientGen

theorem Checked.outcome_mapM {ε α β : Type} (f : α → Checked ε β) (l : List α) :
    (l.mapM f).outcome = l.mapM fun a => (f a).outcome := by
  induction l with
  | nil => rfl
  | cons a l ih =>
    rw [List.mapM_cons, List.mapM_cons, outcome_bind]
    simp only [outcome_bind, ih, outcome_pure]
    rfl

theorem Checked.forM_eq_ok {ε α : Type} {f : α → Checked ε Unit} {l : List α} {u : Unit}
    (h : (l.forM f).outcome = .ok u) : ∀ a ∈ l, (f a).outcome = .ok () := by
  induction l with
  | nil => simp
  | cons a l ih =>
    rw [List.forM, Checked.outcome_bind] at h
    obtain ⟨_, ha, h⟩ := bind_eq_ok h
    rintro b hb
    rcases List.mem_cons.mp hb with rfl | hb
    · exact ha
    · exact ih h b hb

section Forall₂

variable {α β : Type} {R : α → β → Prop} {l : List α} {l' : List β}

theorem exists_left_of_forall₂ (h : List.Forall₂ R l l') {b : β} (hb : b ∈ l') :
    ∃ a ∈ l, R a b := by
  induction h with
  | nil => cases hb
  | cons hab _ ih =>
    rcases List.mem_cons.mp hb with rfl | hb
    · exact ⟨_, List.mem_cons_self .., hab⟩
    · obtain ⟨a, ha, hab⟩ := ih hb
      exact ⟨a, List.mem_cons_of_mem _ ha, hab⟩

theorem exists_right_of_forall₂ (h : List.Forall₂ R l l') {a : α} (ha : a ∈ l) :
    ∃ b ∈ l', R a b :=
  exists_left_of_forall₂ (List.Forall₂.flip h) ha

end Forall₂

theorem require_eq_ok {α : Type} {field : String} {value : Option α} {a : α}
    (h : (require field value).outcome = .ok a) : value = some a := by
  cases value with
  | none => exact nomatch h
  | some b => exact congrArg some (pure_eq_ok h)

/-! ## Documents, path items, operations -/

/-- What operations need of a document, once it is resolved. -/
def Document.context (doc : Document) (spec : Specification) : ResolveContext :=
  { sourceId := spec.sourceId
    consumes := doc.consumes
    produces := doc.produces
    parameters := spec.parameters
    responses := spec.responses
    securityDefinitions := spec.securityDefinitions
    security := spec.security }

/-- How a specification is made from a document. -/
structure Document.Parts (doc : Document) (spec : Specification) : Prop where
  parameters : (resolveParameterPool doc.parameters).outcome = .ok spec.parameters
  responses : (resolveResponsePool doc.responses).outcome = .ok spec.responses
  paths : ∃ items, doc.paths = some items ∧ (items.mapM fun (entry : String × PathItemObject) =>
    entry.2.resolve (doc.context spec) entry.1).outcome = .ok spec.paths
  definitions : (doc.definitions.mapM fun (entry : String × SchemaObject) => do
    return (entry.1, ← entry.2.resolve ("definitions." ++ entry.1)) :
      Resolve (Table Schema)).outcome = .ok spec.definitions

theorem Document.resolve_inv {sourceId : String} {doc : Document} {spec : Specification}
    (h : (doc.resolve sourceId).outcome = .ok spec) :
    spec.sourceId = sourceId ∧ doc.Parts spec := by
  simp only [Document.resolve, Checked.outcome_bind] at h
  obtain ⟨swagger, -, h⟩ := bind_eq_ok h
  obtain ⟨info, -, h⟩ := bind_eq_ok h
  obtain ⟨parameters, hparameters, h⟩ := bind_eq_ok h
  obtain ⟨responses, hresponses, h⟩ := bind_eq_ok h
  obtain ⟨securityDefinitions, -, h⟩ := bind_eq_ok h
  obtain ⟨items, hitems, h⟩ := bind_eq_ok h
  obtain ⟨paths, hpaths, h⟩ := bind_eq_ok h
  obtain ⟨definitions, hdefinitions, h⟩ := bind_eq_ok h
  obtain ⟨tags, -, h⟩ := bind_eq_ok h
  obtain ⟨externalDocs, -, h⟩ := bind_eq_ok h
  obtain rfl := pure_eq_ok h
  exact ⟨rfl, hparameters, hresponses, ⟨items, require_eq_ok hitems, hpaths⟩, hdefinitions⟩

theorem Document.resolve_parts {sourceId : String} {doc : Document} {spec : Specification}
    (h : (doc.resolve sourceId).outcome = .ok spec) : doc.Parts spec := (Document.resolve_inv h).2

/-- A specification has the identifier of its source. -/
theorem Specification.sourceId_of_parse {sourceId text : String} {spec : Specification}
    (h : (Specification.parse sourceId text).outcome = .ok spec) : spec.sourceId = sourceId := by
  rw [Specification.parse, Checked.outcome_bind] at h
  obtain ⟨doc, -, h⟩ := bind_eq_ok h
  exact (Document.resolve_inv h).1

/-- The operations of a path item with their methods, in the order of methods. -/
def PathItemObject.present (item : PathItemObject) : List (Method × OperationObject) :=
  Method.all.filterMap fun method => (item.operation? method).map ((method, ·))

/-- How the path item of a specification is made from one of a document. -/
structure PathItemObject.Parts (ctx : ResolveContext) (path : String) (item : PathItemObject)
    (made : PathItem) : Prop where
  path_eq : made.path = path
  parameters : (resolveParameters ctx.parameters ("paths." ++ path) item.parameters).outcome =
    .ok made.parameters
  operations : (item.present.mapM fun (entry : Method × OperationObject) =>
    entry.2.resolve ctx entry.1 path).outcome = .ok made.operations

theorem PathItemObject.resolve_inv {ctx : ResolveContext} {path : String} {item : PathItemObject}
    {made : PathItem} (h : (item.resolve ctx path).outcome = .ok made) :
    item.Parts ctx path made ∧
      ∀ op ∈ made.operations, (checkParameters made op).outcome = .ok () := by
  simp only [PathItemObject.resolve, Checked.outcome_bind] at h
  obtain ⟨parameters, hparameters, h⟩ := bind_eq_ok h
  obtain ⟨operations, hoperations, h⟩ := bind_eq_ok h
  obtain ⟨_, hcheck, h⟩ := bind_eq_ok h
  obtain rfl := pure_eq_ok h
  exact ⟨⟨rfl, hparameters, hoperations⟩, Checked.forM_eq_ok hcheck⟩

theorem PathItemObject.resolve_parts {ctx : ResolveContext} {path : String} {item : PathItemObject}
    {made : PathItem} (h : (item.resolve ctx path).outcome = .ok made) :
    item.Parts ctx path made := (PathItemObject.resolve_inv h).1

/-- How an operation of a specification is made from one of a document. -/
structure OperationObject.Parts (ctx : ResolveContext) (method : Method) (path : String)
    (o : OperationObject) (made : Operation) : Prop where
  method_eq : made.method = method
  path_eq : made.path = path
  parameters : (resolveParameters ctx.parameters ("paths." ++ path ++ "." ++ method.lower)
    o.parameters).outcome = .ok made.parameters
  responses : ∃ responses, o.responses = some responses ∧
    (resolveResponses ctx.responses ("paths." ++ path ++ "." ++ method.lower ++ ".responses")
      responses).outcome = .ok made.responses

theorem OperationObject.resolve_parts {ctx : ResolveContext} {method : Method} {path : String}
    {o : OperationObject} {made : Operation} (h : (o.resolve ctx method path).outcome = .ok made) :
    o.Parts ctx method path made := by
  simp only [OperationObject.resolve, Checked.outcome_bind] at h
  obtain ⟨parameters, hparameters, h⟩ := bind_eq_ok h
  obtain ⟨own, hown, h⟩ := bind_eq_ok h
  obtain ⟨responses, hresponses, h⟩ := bind_eq_ok h
  obtain ⟨externalDocs, -, h⟩ := bind_eq_ok h
  have hmade : made.method = method ∧ made.path = path ∧ made.parameters = parameters ∧
      made.responses = responses := by
    split at h
    · obtain rfl := Except.ok.inj h
      exact ⟨rfl, rfl, rfl, rfl⟩
    · obtain rfl := Except.ok.inj h
      exact ⟨rfl, rfl, rfl, rfl⟩
  obtain ⟨hmethod, hpath, rfl, rfl⟩ := hmade
  exact ⟨hmethod, hpath, hparameters, own, require_eq_ok hown, hresponses⟩

/-! ## Lists of parameters and responses -/

/-- Each parameter of a list is resolved, wherever it stands. -/
theorem resolveParameters_inv {pool : Table Parameter} {path : String} {ps : List ParameterObject}
    {made : List Parameter} (h : (resolveParameters pool path ps).outcome = .ok made) :
    List.Forall₂ (fun p a => ∃ place, (p.resolve pool place).outcome = .ok a) ps made := by
  rw [resolveParameters, Checked.outcome_mapM] at h
  rw [← List.zipIdx_map_fst 0 ps, List.forall₂_map_left_iff]
  exact (mapM_eq_ok h).imp fun _ _ hentry => ⟨_, hentry⟩

/-- Each response of a table is resolved with some status. -/
theorem resolveResponses_inv {pool : Table Response} {path : String} {rs : Table ResponseObject}
    {made : List Response} (h : (resolveResponses pool path rs).outcome = .ok made) :
    List.Forall₂ (fun (entry : String × ResponseObject) a =>
      ∃ status place, (entry.2.resolve status pool place).outcome = .ok a) rs made := by
  rw [resolveResponses, Checked.outcome_mapM] at h
  refine (mapM_eq_ok h).imp fun entry a hentry => ?_
  rw [Checked.outcome_bind] at hentry
  obtain ⟨status, -, hresponse⟩ := bind_eq_ok hentry
  exact ⟨status, _, hresponse⟩

/-! ## Pools -/

/-- Inversion for one entry of a pool. -/
theorem poolEntry_eq_ok {α : Type} {isReference : Bool} {e : DocumentError} {name : String}
    {x : Resolve α} {entry : String × α}
    (h : (do
      if isReference then throw e
      return (name, ← x) : Resolve (String × α)).outcome = .ok entry) :
    isReference = false ∧ entry.1 = name ∧ x.outcome = .ok entry.2 := by
  cases isReference with
  | true => exact nomatch h
  | false =>
    rw [if_neg (by decide)] at h
    dsimp only at h
    rw [Checked.outcome_bind] at h
    obtain ⟨a, hx, h⟩ := bind_eq_ok h
    rw [← pure_eq_ok h]
    exact ⟨rfl, rfl, hx⟩

/-- A table that is made from another one entry by entry, under the same names. -/
def Table.Made {α β : Type} (made : α → β → Prop) (pool : Table α) (result : Table β) : Prop :=
  List.Forall₂ (fun entry b => b.1 = entry.1 ∧ made entry.2 b.2) pool result

/-- The shared parameters are made one by one, and none of them is a reference. -/
theorem resolveParameterPool_inv {pool : Table ParameterObject} {made : Table Parameter}
    (h : (resolveParameterPool pool).outcome = .ok made) :
    Table.Made (fun p a => p.reference = none ∧ ∃ place, (p.resolveOwn place).outcome = .ok a)
      pool made := by
  rw [resolveParameterPool, Checked.outcome_mapM] at h
  refine (mapM_eq_ok h).imp fun entry a hentry => ?_
  obtain ⟨hnone, hname, hown⟩ := poolEntry_eq_ok hentry
  rw [Option.isSome_eq_false_iff, Option.isNone_iff_eq_none] at hnone
  rw [ParameterObject.resolve, hnone] at hown
  exact ⟨hname, hnone, _, hown⟩

/-- The shared responses are made one by one, and none of them is a reference. -/
theorem resolveResponsePool_inv {pool : Table ResponseObject} {made : Table Response}
    (h : (resolveResponsePool pool).outcome = .ok made) :
    Table.Made (fun r a => r.reference = none ∧
      ∃ place, (r.resolveOwn .default place).outcome = .ok a) pool made := by
  rw [resolveResponsePool, Checked.outcome_mapM] at h
  refine (mapM_eq_ok h).imp fun entry a hentry => ?_
  obtain ⟨hnone, hname, hown⟩ := poolEntry_eq_ok hentry
  rw [Option.isSome_eq_false_iff, Option.isNone_iff_eq_none] at hnone
  rw [ResponseObject.resolve, hnone] at hown
  exact ⟨hname, hnone, _, hown⟩

end ClientGen
