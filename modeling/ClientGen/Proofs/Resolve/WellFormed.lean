import ClientGen.Proofs.Document.Keyed
import ClientGen.Proofs.Resolve.Node

/-!
# Well-formed specifications

`Specification.WellFormed` says what holds everywhere in a specification: listed values and defaults
belong to their types, path parameters are required, and the operations of a path are in order, one
for each method. `Specification.Keyed` adds that the properties of every object have distinct names.

Parameters and responses stand in the pools, on paths and in operations. Each of them was resolved
in place from an object of the document (`parameter_made`, `response_made`), so one look at the
objects is enough. The main statement is `Specification.wellFormed_of_resolve`.
-/

namespace ClientGen

/-! ## Parameters and responses -/

namespace ParameterObject

theorem resolveValue_nodes {p : ParameterObject} {path : String} {value : SimpleValue}
    (h : (p.resolveValue path).outcome = .ok value) : NodesFrom p.nodes value.schema.nodes := by
  simp only [resolveValue, Checked.outcome_bind] at h
  obtain ⟨type, -, h⟩ := bind_eq_ok h
  split at h
  · simp only [Checked.outcome_bind] at h
    obtain ⟨items, hitems, h⟩ := bind_eq_ok h
    obtain ⟨format, -, h⟩ := bind_eq_ok h
    obtain ⟨t, ht, h⟩ := bind_eq_ok h
    obtain rfl := pure_eq_ok h
    have hsub : items.nodes ⊆ p.nodes := by
      rw [nodes, require_eq_ok hitems]
      exact List.subset_append_right _ _
    exact .cons trivial rfl ((SchemaObject.resolve_nodes items ht).mono hsub)
  · split at h
    · rw [map_eq_pure_bind, Checked.outcome_bind] at h
      obtain ⟨primitive, hprimitive, h⟩ := bind_eq_ok h
      obtain rfl := pure_eq_ok h
      exact .cons (PrimitiveKind.resolve_fits hprimitive) rfl .nil
    · cases h

theorem resolveBody_nodes {p : ParameterObject} {path : String} {t : Schema}
    (h : (p.resolveBody path).outcome = .ok t) : NodesFrom p.nodes t.nodes := by
  unfold resolveBody at h
  split at h
  case h_1 schema hschema =>
    have hsub : schema.nodes ⊆ p.nodes := by
      rw [nodes, hschema]
      exact List.subset_append_left _ _
    exact (SchemaObject.resolve_nodes schema h).mono hsub
  case h_2 =>
    obtain rfl := Except.ok.inj h
    exact .cons ⟨fun hne => absurd rfl hne, nofun⟩ rfl .nil

theorem resolvePayload_inv {p : ParameterObject} {path : String} {location : Location}
    {payload : Payload} (h : (p.resolvePayload path location).outcome = .ok payload) (a : Parameter)
    (ha : a.payload = payload) : a.location = location ∧ NodesFrom p.nodes a.schema.nodes := by
  rw [Parameter.location, Parameter.schema, ha]
  cases location with
  | body =>
    rw [resolvePayload, map_eq_pure_bind, Checked.outcome_bind] at h
    obtain ⟨t, ht, h⟩ := bind_eq_ok h
    rw [← pure_eq_ok h]
    exact ⟨rfl, resolveBody_nodes ht⟩
  | _ =>
    rw [resolvePayload, map_eq_pure_bind, Checked.outcome_bind] at h
    obtain ⟨value, hvalue, h⟩ := bind_eq_ok h
    rw [← pure_eq_ok h]
    exact ⟨rfl, resolveValue_nodes hvalue⟩

/-- A parameter that was resolved in place: it is required if it is in the path, and its nodes are
made from those of the object. -/
theorem resolveOwn_inv {p : ParameterObject} {path : String} {a : Parameter}
    (h : (p.resolveOwn path).outcome = .ok a) :
    (a.location = .path → a.required = true) ∧ NodesFrom p.nodes a.schema.nodes := by
  simp only [resolveOwn, Checked.outcome_bind] at h
  obtain ⟨name, -, h⟩ := bind_eq_ok h
  obtain ⟨locationName, -, h⟩ := bind_eq_ok h
  split at h
  · cases h
  case h_2 location _ =>
    rw [Checked.outcome_bind] at h
    obtain ⟨payload, hpayload, h⟩ := bind_eq_ok h
    obtain rfl := pure_eq_ok h
    obtain ⟨hlocation, hnodes⟩ := resolvePayload_inv hpayload ⟨name, p.description, _, payload⟩ rfl
    refine ⟨fun hpath => ?_, hnodes⟩
    rw [show location = .path from hlocation.symm.trans hpath]
    rfl

end ParameterObject

/-- The schemas of a response. -/
def Response.schemas (r : Response) : List Schema := r.schema.toList ++ r.headers.map (·.2)

/-- The schemas of a table are made from the entries of the same names. -/
theorem nodes_of_mapM {t : Table SchemaObject} {place : String → String} {made : Table Schema}
    (h : (t.mapM fun (entry : String × SchemaObject) => do
      return (entry.1, ← entry.2.resolve (place entry.1)) : Resolve (Table Schema)).outcome =
        .ok made) {e : String × Schema} (he : e ∈ made) :
    NodesFrom (SchemaObject.propertyNodes t) e.2.nodes := by
  rw [Checked.outcome_mapM] at h
  obtain ⟨entry, hentry, hmade⟩ := exists_left_of_forall₂ (mapM_eq_ok h) he
  rw [Checked.outcome_bind] at hmade
  obtain ⟨s, hs, hmade⟩ := bind_eq_ok hmade
  obtain rfl := pure_eq_ok hmade
  refine (SchemaObject.resolve_nodes entry.2 hs).mono fun n hn => ?_
  rw [SchemaObject.propertyNodes_eq]
  exact List.mem_flatMap.mpr ⟨entry, hentry, hn⟩

namespace ResponseObject

/-- The nodes of a response that was resolved in place are made from those of the object. -/
theorem resolveOwn_nodes {r : ResponseObject} {status : Status} {path : String} {a : Response}
    (h : (r.resolveOwn status path).outcome = .ok a) {t : Schema} (ht : t ∈ a.schemas) :
    NodesFrom r.nodes t.nodes := by
  simp only [resolveOwn, Checked.outcome_bind] at h
  obtain ⟨description, -, h⟩ := bind_eq_ok h
  obtain ⟨schema, hschema, h⟩ := bind_eq_ok h
  obtain ⟨headers, hheaders, h⟩ := bind_eq_ok h
  obtain rfl := pure_eq_ok h
  rw [nodes]
  rcases List.mem_append.mp ht with ht | ht
  · refine NodesFrom.mono ?_ (List.subset_append_left _ _)
    cases hraw : r.schema with
    | none =>
      rw [hraw] at hschema
      obtain rfl := pure_eq_ok hschema
      cases ht
    | some s =>
      rw [hraw] at hschema
      change (some <$> s.resolve (path ++ ".schema")).outcome = _ at hschema
      rw [map_eq_pure_bind, Checked.outcome_bind] at hschema
      obtain ⟨t', ht', hschema⟩ := bind_eq_ok hschema
      obtain rfl := pure_eq_ok hschema
      obtain rfl := List.mem_singleton.mp ht
      exact SchemaObject.resolve_nodes s ht'
  · obtain ⟨e, he, rfl⟩ := List.mem_map.mp ht
    exact (nodes_of_mapM hheaders he).mono (List.subset_append_right _ _)

end ResponseObject

/-! ## Specifications -/

/-- The parameters of a path item and of its operations. -/
def PathItem.allParameters (item : PathItem) : List Parameter :=
  item.parameters ++ item.operations.flatMap (·.parameters)

namespace Specification

/-- The shared parameters, those of path items and those of operations. -/
def allParameters (spec : Specification) : List Parameter :=
  spec.parameters.map (·.2) ++ spec.paths.flatMap (·.allParameters)

/-- The shared responses and those of operations. -/
def allResponses (spec : Specification) : List Response :=
  spec.responses.map (·.2) ++ spec.operations.flatMap (·.2.responses)

/-- The schemas of definitions, parameters, responses and headers of responses. -/
def schemas (spec : Specification) : List Schema :=
  spec.definitions.map (·.2) ++ spec.allParameters.map (·.schema) ++
    spec.allResponses.flatMap (·.schemas)

/-- The nodes of all schemas. -/
def nodes (spec : Specification) : List Schema := spec.schemas.flatMap (·.nodes)

/-- What those who read a specification rely on. -/
structure WellFormed (spec : Specification) : Prop where
  /-- only strings have listed values, and a default is of the type of its primitive -/
  fits : ∀ n ∈ spec.nodes, n.Fits
  /-- what stands in a path cannot be left out -/
  required : ∀ p ∈ spec.allParameters, p.location = .path → p.required = true
  /-- an operation knows its path -/
  path_eq : ∀ item ∈ spec.paths, ∀ op ∈ item.operations, op.path = item.path
  /-- at most one operation for each method, in the order of methods -/
  methods : ∀ item ∈ spec.paths, (item.operations.map (·.method)).Nodup ∧
    (item.operations.map (·.method)).Sublist Method.all

/-- Every object has properties of distinct names. -/
def Keyed (spec : Specification) : Prop := ∀ n ∈ spec.nodes, n.propertyNames.Nodup

end Specification

theorem mem_of_shared {α : Type} {start reference : String} {pool : Table α} {entry : α}
    (h : sharedEntry? start pool reference = some entry) : entry ∈ pool.map (·.2) := by
  obtain ⟨name, -, hget⟩ := names_of_sharedEntry? h
  exact List.mem_map_of_mem (Table.mem_of_get? hget)

section Made

variable {doc : Document} {spec : Specification}

/-- A parameter that was resolved is resolved in place: at its own place, or in the pool. -/
theorem ParameterObject.own_of_resolve {ctx : ResolveContext}
    (hpools : PoolsOf doc ctx.parameters ctx.responses) {p : ParameterObject} {path : String}
    {a : Parameter} (h : (p.resolve ctx.parameters path).outcome = .ok a) :
    ∃ own, (own ∈ doc.parameters.map (·.2) ∨ own = p) ∧
      ∃ place, (own.resolveOwn place).outcome = .ok a := by
  cases hreference : p.reference with
  | none =>
    rw [resolve, hreference] at h
    exact ⟨p, .inr rfl, path, h⟩
  | some reference =>
    obtain ⟨hentry, -, hown⟩ := inlined_of_reference hpools hreference h
    exact ⟨_, .inl (mem_of_shared hentry), path, hown path⟩

/-- So is a response. -/
theorem ResponseObject.own_of_resolve {ctx : ResolveContext}
    (hpools : PoolsOf doc ctx.parameters ctx.responses) {r : ResponseObject} {status : Status}
    {path : String} {a : Response} (h : (r.resolve status ctx.responses path).outcome = .ok a) :
    ∃ own, (own ∈ doc.responses.map (·.2) ∨ own = r) ∧
      ∃ place, (own.resolveOwn status place).outcome = .ok a := by
  cases hreference : r.reference with
  | none =>
    rw [resolve, hreference] at h
    exact ⟨r, .inr rfl, path, h⟩
  | some reference =>
    obtain ⟨hentry, -, hown⟩ := inlined_of_reference hpools hreference h
    exact ⟨_, .inl (mem_of_shared hentry), path, hown path⟩

namespace Document.Parts

theorem pools (h : doc.Parts spec) :
    PoolsOf doc (doc.context spec).parameters (doc.context spec).responses :=
  poolsOf h.parameters h.responses

/-- Every path item is made from the one that the document has under its path. -/
theorem item_entry (h : doc.Parts spec) {item : PathItem} (hitem : item ∈ spec.paths) :
    ∃ items, doc.paths = some items ∧ ∃ raw, (item.path, raw) ∈ items ∧
      raw.Parts (doc.context spec) item.path item := by
  obtain ⟨items, hitems, hpaths⟩ := h.paths
  rw [Checked.outcome_mapM] at hpaths
  obtain ⟨entry, hentry, hmade⟩ := exists_left_of_forall₂ (mapM_eq_ok hpaths) hitem
  have hparts := PathItemObject.resolve_parts hmade
  refine ⟨items, hitems, entry.2, ?_, ?_⟩
  · rw [hparts.path_eq]
    exact hentry
  · rw [hparts.path_eq]
    exact hparts

theorem item_made (h : doc.Parts spec) {item : PathItem} (hitem : item ∈ spec.paths) :
    ∃ raw ∈ doc.items, ∃ path, raw.Parts (doc.context spec) path item := by
  obtain ⟨items, hitems, raw, hraw, hparts⟩ := h.item_entry hitem
  refine ⟨raw, ?_, item.path, hparts⟩
  rw [Document.items, hitems, Option.getD_some]
  exact List.mem_map_of_mem (f := (·.2)) hraw

end Document.Parts

/-- The operations of a path item are made one by one. -/
theorem PathItemObject.Parts.operations_made {ctx : ResolveContext} {path : String}
    {raw : PathItemObject} {item : PathItem} (h : raw.Parts ctx path item) :
    List.Forall₂ (fun (entry : Method × OperationObject) op => entry.2.Parts ctx entry.1 path op)
      raw.present item.operations := by
  have hoperations := h.operations
  rw [Checked.outcome_mapM] at hoperations
  exact (mapM_eq_ok hoperations).imp fun _ _ => OperationObject.resolve_parts

/-- The methods of the operations are those that the document has operations for. -/
theorem PathItemObject.Parts.methods_eq {ctx : ResolveContext} {path : String}
    {raw : PathItemObject} {item : PathItem} (h : raw.Parts ctx path item) :
    item.operations.map (·.method) = Method.all.filter fun m => (raw.operation? m).isSome := by
  have hmethods : raw.present.map (·.1) = item.operations.map (·.method) := by
    refine List.forall₂_eq_eq_eq ▸ List.forall₂_map_left_iff.mpr (List.forall₂_map_right_iff.mpr ?_)
    exact h.operations_made.imp fun _ _ hop => hop.method_eq.symm
  rw [← hmethods, present, List.map_filterMap, ← List.filterMap_eq_filter]
  refine List.filterMap_congr fun m _ => ?_
  cases hm : raw.operation? m with
  | none => simp [Option.guard, hm]
  | some o => simp [Option.guard, hm]

/-- A parameter in use was resolved in place, at its own place or in the pool. -/
theorem Document.Parts.parameter_made (h : doc.Parts spec) {a : Parameter}
    (ha : a ∈ spec.allParameters) :
    ∃ p ∈ doc.allParameters, ∃ place, (p.resolveOwn place).outcome = .ok a := by
  rcases List.mem_append.mp ha with ha | ha
  · obtain ⟨e, he, rfl⟩ := List.mem_map.mp ha
    obtain ⟨entry, hentry, -, -, place, hown⟩ :=
      exists_left_of_forall₂ (resolveParameterPool_inv h.parameters) he
    exact ⟨entry.2, List.mem_append_left _ (List.mem_map_of_mem hentry), place, hown⟩
  · obtain ⟨item, hitem, ha⟩ := List.mem_flatMap.mp ha
    obtain ⟨raw, hraw, path, hparts⟩ := h.item_made hitem
    have huse : ∃ p ∈ raw.parameterUses, ∃ place,
        (p.resolve (doc.context spec).parameters place).outcome = .ok a := by
      rcases List.mem_append.mp ha with ha | ha
      · obtain ⟨p, hp, place, hresolve⟩ :=
          exists_left_of_forall₂ (resolveParameters_inv hparts.parameters) ha
        exact ⟨p, List.mem_append_left _ hp, place, hresolve⟩
      · obtain ⟨op, hop, ha⟩ := List.mem_flatMap.mp ha
        obtain ⟨entry, hentry, hop⟩ := exists_left_of_forall₂ hparts.operations_made hop
        obtain ⟨p, hp, place, hresolve⟩ :=
          exists_left_of_forall₂ (resolveParameters_inv hop.parameters) ha
        have hp : p ∈ raw.present.flatMap (·.2.parameters) :=
          List.mem_flatMap.mpr ⟨entry, hentry, hp⟩
        exact ⟨p, List.mem_append_right _ hp, place, hresolve⟩
    obtain ⟨p, hp, place, hresolve⟩ := huse
    -- a reference stands for an entry of the pool, which was resolved in place there
    obtain ⟨own, hown, hmade⟩ := p.own_of_resolve h.pools hresolve
    refine ⟨own, List.mem_append.mpr (hown.imp_right ?_), hmade⟩
    rintro rfl
    exact List.mem_flatMap.mpr ⟨raw, hraw, hp⟩

/-- So was a response in use. -/
theorem Document.Parts.response_made (h : doc.Parts spec) {a : Response}
    (ha : a ∈ spec.allResponses) :
    ∃ r ∈ doc.allResponses, ∃ status place, (r.resolveOwn status place).outcome = .ok a := by
  rcases List.mem_append.mp ha with ha | ha
  · obtain ⟨e, he, rfl⟩ := List.mem_map.mp ha
    obtain ⟨entry, hentry, -, -, place, hown⟩ :=
      exists_left_of_forall₂ (resolveResponsePool_inv h.responses) he
    exact ⟨entry.2, List.mem_append_left _ (List.mem_map_of_mem hentry), .default, place, hown⟩
  · obtain ⟨⟨item, op⟩, hop, ha⟩ := List.mem_flatMap.mp ha
    obtain ⟨_, hitem, hop⟩ := List.mem_flatMap.mp hop
    obtain ⟨_, hop', heq⟩ := List.mem_map.mp hop
    obtain ⟨rfl, rfl⟩ := Prod.mk.inj heq
    obtain ⟨raw, hraw, path, hparts⟩ := h.item_made hitem
    obtain ⟨entry, hentry, hop⟩ := exists_left_of_forall₂ hparts.operations_made hop'
    obtain ⟨responses, hresponses, hmade⟩ := hop.responses
    obtain ⟨e, he, status, place, hresolve⟩ :=
      exists_left_of_forall₂ (resolveResponses_inv hmade) ha
    obtain ⟨own, hown, hmade⟩ := e.2.own_of_resolve h.pools hresolve
    refine ⟨own, List.mem_append.mpr (hown.imp_right ?_), status, hmade⟩
    rintro rfl
    refine List.mem_flatMap.mpr ⟨raw, hraw, List.mem_flatMap.mpr ⟨entry, hentry, ?_⟩⟩
    dsimp only
    rw [hresponses]
    exact List.mem_map_of_mem he

/-- The nodes of a specification are made from those of the document. -/
theorem Document.Parts.nodes_made (h : doc.Parts spec) : NodesFrom doc.nodes spec.nodes := by
  have hschemas : ∀ t ∈ spec.schemas, NodesFrom doc.nodes t.nodes := by
    intro t ht
    rw [Document.nodes]
    rcases List.mem_append.mp ht with ht | ht
    · refine NodesFrom.mono ?_ (List.subset_append_left _ _)
      rcases List.mem_append.mp ht with ht | ht
      · obtain ⟨e, he, rfl⟩ := List.mem_map.mp ht
        exact (nodes_of_mapM h.definitions he).mono (List.subset_append_left _ _)
      · obtain ⟨a, ha, rfl⟩ := List.mem_map.mp ht
        obtain ⟨p, hp, place, hown⟩ := h.parameter_made ha
        refine (ParameterObject.resolveOwn_inv hown).2.mono fun n hn => ?_
        exact List.mem_append_right _ (List.mem_flatMap.mpr ⟨p, hp, hn⟩)
    · obtain ⟨a, ha, ht⟩ := List.mem_flatMap.mp ht
      obtain ⟨r, hr, status, place, hown⟩ := h.response_made ha
      refine (ResponseObject.resolveOwn_nodes hown ht).mono fun n hn => ?_
      exact List.mem_append_right _ (List.mem_flatMap.mpr ⟨r, hr, hn⟩)
  refine ⟨fun n hn => ?_, fun hraw n hn => ?_⟩
  all_goals obtain ⟨t, ht, hn⟩ := List.mem_flatMap.mp hn
  · exact (hschemas t ht).fits n hn
  · exact (hschemas t ht).keyed hraw n hn

/-- A specification that was made from a document is well-formed. -/
theorem Document.Parts.wellFormed (h : doc.Parts spec) : spec.WellFormed where
  fits := h.nodes_made.fits
  required p hp := by
    obtain ⟨own, -, place, hown⟩ := h.parameter_made hp
    exact (ParameterObject.resolveOwn_inv hown).1
  path_eq item hitem op hop := by
    obtain ⟨raw, -, path, hparts⟩ := h.item_made hitem
    obtain ⟨entry, -, hop⟩ := exists_left_of_forall₂ hparts.operations_made hop
    exact hop.path_eq.trans hparts.path_eq.symm
  methods item hitem := by
    obtain ⟨raw, -, path, hparts⟩ := h.item_made hitem
    rw [hparts.methods_eq]
    have hall : Method.all.Nodup := by decide
    exact ⟨hall.sublist List.filter_sublist, List.filter_sublist⟩

end Made

/-- **Well-formedness.** Whatever document is resolved, its schemas, parameters and operations are
as those who read them rely on, and if the properties of its schemas are tables, then they have
distinct names in the specification. A document that is read from a text has such tables. -/
theorem Specification.wellFormed_of_resolve (sourceId : String) :
    (∀ (doc : Document) (spec : Specification), (doc.resolve sourceId).outcome = .ok spec →
      spec.WellFormed ∧ (doc.Keyed → spec.Keyed)) ∧
    ∀ (text : String) (spec : Specification),
      (Specification.parse sourceId text).outcome = .ok spec → spec.WellFormed ∧ spec.Keyed := by
  have hdocument (doc : Document) (spec : Specification)
      (h : (doc.resolve sourceId).outcome = .ok spec) :
      spec.WellFormed ∧ (doc.Keyed → spec.Keyed) :=
    have hparts := Document.resolve_parts h
    ⟨hparts.wellFormed, hparts.nodes_made.keyed⟩
  refine ⟨hdocument, fun text spec h => ?_⟩
  rw [Specification.parse, Checked.outcome_bind] at h
  obtain ⟨doc, hread, h⟩ := bind_eq_ok h
  obtain ⟨hwell, hkeyed⟩ := hdocument doc spec h
  exact ⟨hwell, hkeyed (Document.keyed_of_ofJson hread)⟩

/-- Ratings with what does not fit: listed values and a text as the default of a number, and a path
parameter that is not required. -/
def ratings : Document where
  swagger := some "2.0"
  info := some { title := some "Ratings", version := some "1" }
  paths := some [("/ratings/\x7bid\x7d", {
    parameters := [{
      name := some "id", location := some "path", type := some "integer", required := some false
      enum := [.number (.whole 1)] }]
    get := some { responses := some [("200", {
      description := some "The rating."
      schema := some { SchemaObject.empty with head.reference := some "#/definitions/Rating" } })] }
    put := some { responses := some [("204", { description := some "Stored." })] } })]
  definitions := [("Rating", { SchemaObject.empty with properties := [
    ("stars", { SchemaObject.empty with
      head.type := some "integer", head.default := some (.text "five") }),
    ("note", { SchemaObject.empty with
      head.type := some "string", head.enum := [.text "good", .text "bad"]
      head.default := some (.text "good") })] })]

/-- A document that defines notes with a property of the same name twice. -/
def notesText : String :=
  "\x7b\"swagger\":\"2.0\",\"info\":\x7b\"title\":\"N\",\"version\":\"1\"\x7d," ++
  "\"paths\":\x7b\x7d,\"definitions\":\x7b\"Note\":\x7b\"properties\":" ++
  "\x7b\"a\":\x7b\x7d,\"a\":\x7b\x7d\x7d\x7d\x7d\x7d"

/-- The ratings are resolved and so are the notes, and everything fits. -/
theorem Specification.wellFormed_of_resolve_ratings :
    (ratings.Keyed ∧ ∃ spec, (ratings.resolve "ratings.json").outcome = .ok spec ∧
      spec.nodes.length = 5 ∧ spec.allParameters.length = 1 ∧ spec.WellFormed ∧ spec.Keyed) ∧
    ∃ spec, (Specification.parse "notes.json" notesText).outcome = .ok spec ∧
      spec.nodes.length = 2 ∧ spec.WellFormed ∧ spec.Keyed := by
  have hkeyed : ratings.Keyed := by
    unfold Document.Keyed
    decide
  have hratings : ∃ spec, (ratings.resolve "ratings.json").outcome = .ok spec ∧
      spec.nodes.length = 5 ∧ spec.allParameters.length = 1 := ⟨_, rfl, rfl, rfl⟩
  have hnotes : (Specification.parse "notes.json" notesText).outcome.toOption.map
      (fun spec => spec.nodes.length) = some 2 := by
    decide +kernel
  obtain ⟨ratingsSpec, hratings, hsize⟩ := hratings
  obtain ⟨notesSpec, hnotes, hlength⟩ := Option.map_eq_some_iff.mp hnotes
  have hnotes := eq_ok_of_toOption hnotes
  obtain ⟨hwell, hspecKeyed⟩ :=
    (Specification.wellFormed_of_resolve "ratings.json").1 ratings ratingsSpec hratings
  exact ⟨⟨hkeyed, ratingsSpec, hratings, hsize.1, hsize.2, hwell, hspecKeyed hkeyed⟩,
    notesSpec, hnotes, hlength,
    (Specification.wellFormed_of_resolve "notes.json").2 notesText notesSpec hnotes⟩

end ClientGen
