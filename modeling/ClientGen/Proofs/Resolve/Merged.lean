import ClientGen.Proofs.Resolve.WellFormed

/-!
# Merged parameters

An operation takes the parameters of its path and its own. Its own come last, and one of them stands
for the path's parameter of the same name *and* location. In the end the names alone must differ.

* `firstRepeated?_eq_none_iff` — the check finds a name that is there twice, if there is one.
* `PathItemObject.mergedParameters` — the merge as the document has it, before anything is resolved.
  `StandsFor.merged` says that merging and resolving can be exchanged.
* `Document.parameters_merged` — **merging is exact**, and a document that merges two parameters of
  one name is refused.
-/

namespace ClientGen

/-! ## Names that must differ -/

theorem firstRepeated?_eq_none_iff {seen names : List String} :
    firstRepeated? seen names = none ↔ names.Nodup ∧ ∀ name ∈ names, name ∉ seen := by
  fun_induction firstRepeated? seen names with
  | case1 seen => simp
  | case2 seen name names hname => simp [hname]
  | case3 seen name names hname ih =>
    rw [ih]
    simp only [List.nodup_cons, List.mem_cons, not_or, forall_eq_or_imp]
    grind

/-- The check is made for every operation of a path item. -/
theorem PathItemObject.names_nodup {ctx : ResolveContext} {path : String} {item : PathItemObject}
    {made : PathItem} (h : (item.resolve ctx path).outcome = .ok made) {op : Operation}
    (hop : op ∈ made.operations) : ((made.effectiveParameters op).map (·.name)).Nodup := by
  have hcheck := (PathItemObject.resolve_inv h).2 op hop
  rw [checkParameters] at hcheck
  split at hcheck
  · next hnone => exact (firstRepeated?_eq_none_iff.mp hnone).1
  · cases hcheck

/-! ## The merge as the document has it -/

/-- The parameters of a path item and one of its operations, shared ones in place: those of the path
for which the operation has none of the same name and location, then those of the operation. -/
def PathItemObject.mergedParameters (pool : Table ParameterObject) (item : PathItemObject)
    (o : OperationObject) : List ParameterObject :=
  let own := o.parameters.map (·.inlined pool)
  (item.parameters.map (·.inlined pool)).filter
    (fun p => ∀ q ∈ own, ¬ (q.name = p.name ∧ q.location = p.location)) ++ own

/-- A parameter object has the name and the location of a parameter. -/
structure ParameterObject.StandsFor (p : ParameterObject) (a : Parameter) : Prop where
  name : p.name = some a.name
  location : p.location = some a.location.name

theorem Location.name_of_ofName? {name : String} {location : Location}
    (h : Location.ofName? name = some location) : location.name = name := by
  revert h
  fun_cases Location.ofName? name <;> rintro ⟨⟩ <;> rfl

theorem Location.ofName?_name (location : Location) :
    Location.ofName? location.name = some location := by
  cases location <;> rfl

theorem Location.name_injective : Function.Injective Location.name := by
  intro a b h
  apply Option.some.inj
  rw [← Location.ofName?_name a, h, Location.ofName?_name]

theorem PathItem.effectiveParameters_eq (item : PathItem) (op : Operation) :
    item.effectiveParameters op = item.parameters.filter
      (fun p => ∀ q ∈ op.parameters, ¬ (q.name = p.name ∧ q.location = p.location)) ++
        op.parameters := by
  rw [PathItem.effectiveParameters]
  congr 1
  refine List.filter_congr fun p _ => ?_
  rw [Bool.eq_iff_iff]
  simp [Operation.overrides]

namespace ParameterObject

theorem standsFor_of_resolveOwn {p : ParameterObject} {path : String} {a : Parameter}
    (h : (p.resolveOwn path).outcome = .ok a) : p.StandsFor a := by
  simp only [resolveOwn, Checked.outcome_bind] at h
  obtain ⟨name, hname, h⟩ := bind_eq_ok h
  obtain ⟨locationName, hlocationName, h⟩ := bind_eq_ok h
  split at h
  · cases h
  · next location hlocation =>
    rw [Checked.outcome_bind] at h
    obtain ⟨payload, hpayload, h⟩ := bind_eq_ok h
    obtain rfl := pure_eq_ok h
    refine ⟨require_eq_ok hname, ?_⟩
    rw [require_eq_ok hlocationName, (resolvePayload_inv hpayload ⟨name, _, _, payload⟩ rfl).1,
      Location.name_of_ofName? hlocation]

/-- What a parameter means has the name and location of the object, or of the shared object that it
refers to. -/
theorem standsFor_of_resolve {doc : Document} {ctx : ResolveContext}
    (hpools : PoolsOf doc ctx.parameters ctx.responses) {p : ParameterObject} {path : String}
    {a : Parameter} (h : (p.resolve ctx.parameters path).outcome = .ok a) :
    (p.inlined doc.parameters).StandsFor a := by
  cases hreference : p.reference with
  | none =>
    rw [resolve, hreference] at h
    rw [inlined, hreference]
    exact standsFor_of_resolveOwn h
  | some reference =>
    obtain ⟨-, -, hown⟩ := inlined_of_reference hpools hreference h
    exact standsFor_of_resolveOwn (hown path)

theorem standsFor_of_resolveParameters {doc : Document} {ctx : ResolveContext}
    (hpools : PoolsOf doc ctx.parameters ctx.responses) {ps : List ParameterObject} {path : String}
    {as : List Parameter} (h : (resolveParameters ctx.parameters path ps).outcome = .ok as) :
    List.Forall₂ StandsFor (ps.map (·.inlined doc.parameters)) as := by
  rw [List.forall₂_map_left_iff]
  refine (resolveParameters_inv h).imp ?_
  rintro p a ⟨place, hp⟩
  exact standsFor_of_resolve hpools hp

namespace StandsFor

variable {p q : ParameterObject} {a b : Parameter}

theorem same_iff (hp : p.StandsFor a) (hq : q.StandsFor b) :
    (q.name = p.name ∧ q.location = p.location) ↔ (b.name = a.name ∧ b.location = a.location) := by
  rw [hp.name, hq.name, hp.location, hq.location, Option.some_inj, Option.some_inj,
    Location.name_injective.eq_iff]

/-- Objects override each other as the parameters do that they stand for. -/
theorem free_iff {own : List ParameterObject} {made : List Parameter}
    (hown : List.Forall₂ StandsFor own made) (hp : p.StandsFor a) :
    (∀ q ∈ own, ¬ (q.name = p.name ∧ q.location = p.location)) ↔
      ∀ b ∈ made, ¬ (b.name = a.name ∧ b.location = a.location) := by
  constructor
  · intro h b hb
    obtain ⟨q, hq, hqb⟩ := exists_left_of_forall₂ hown hb
    exact mt (hp.same_iff hqb).mpr (h q hq)
  · intro h q hq
    obtain ⟨b, hb, hqb⟩ := exists_right_of_forall₂ hown hq
    exact mt (hp.same_iff hqb).mp (h b hb)

/-- Merging and resolving can be exchanged. -/
theorem merged {pool : Table ParameterObject} {item : PathItemObject} {o : OperationObject}
    {made : PathItem} {op : Operation}
    (hitem : List.Forall₂ StandsFor (item.parameters.map (·.inlined pool)) made.parameters)
    (hop : List.Forall₂ StandsFor (o.parameters.map (·.inlined pool)) op.parameters) :
    List.Forall₂ StandsFor (item.mergedParameters pool o) (made.effectiveParameters op) := by
  rw [PathItem.effectiveParameters_eq]
  refine List.rel_append (List.rel_filter ?_ hitem) hop
  intro p a hp
  simpa using hp.free_iff hop

/-- A name that the objects have twice is a name that the parameters have twice. -/
theorem nodup {ps : List ParameterObject} {as : List Parameter}
    (h : List.Forall₂ StandsFor ps as) (hnodup : (as.map (·.name)).Nodup) :
    (ps.map (·.name)).Nodup := by
  have hnames : ps.map (·.name) = (as.map (·.name)).map some := by
    rw [List.map_map, ← List.forall₂_eq_eq_eq, List.forall₂_map_left_iff,
      List.forall₂_map_right_iff]
    exact h.imp fun _ _ hp => hp.name
  rw [hnames]
  exact hnodup.map (Option.some_injective _)

end StandsFor

end ParameterObject

/-! ## Documents -/

namespace Document.Parts

variable {doc : Document} {spec : Specification}

/-- Path items are resolved one by one. -/
theorem items_made (h : doc.Parts spec) : ∃ items, doc.paths = some items ∧
    List.Forall₂ (fun entry made =>
      (entry.2.resolve (doc.context spec) entry.1).outcome = .ok made) items spec.paths := by
  obtain ⟨items, hitems, hpaths⟩ := h.paths
  rw [Checked.outcome_mapM] at hpaths
  exact ⟨items, hitems, mapM_eq_ok hpaths⟩

/-- So are the operations of a path item, and the parameters that they merge. -/
theorem operations_merged (h : doc.Parts spec) {path : String} {item : PathItemObject}
    {made : PathItem} (hmade : item.Parts (doc.context spec) path made) :
    List.Forall₂ (fun entry op => op.method = entry.1 ∧
      List.Forall₂ ParameterObject.StandsFor (item.mergedParameters doc.parameters entry.2)
        (made.effectiveParameters op)) item.present made.operations := by
  refine hmade.operations_made.imp fun entry op hop => ⟨hop.method_eq, ?_⟩
  apply ParameterObject.StandsFor.merged
  · exact ParameterObject.standsFor_of_resolveParameters h.pools hmade.parameters
  · exact ParameterObject.standsFor_of_resolveParameters h.pools hop.parameters

end Document.Parts

/-- **Merging is exact.** The parameters that an operation takes have different names: those of the
path for which it has none of the same name and location, then its own, as in the document. Where
two of them would have one name, wherever they travel and whether or not they are shared, the
document is refused. -/
theorem Document.parameters_merged (sourceId : String) (doc : Document) :
    (∀ spec, (doc.resolve sourceId).outcome = .ok spec →
      ∀ made ∈ spec.paths, ∀ op ∈ made.operations,
        ((made.effectiveParameters op).map (·.name)).Nodup ∧
        made.effectiveParameters op = made.parameters.filter
          (fun p => ∀ q ∈ op.parameters, ¬ (q.name = p.name ∧ q.location = p.location)) ++
            op.parameters ∧
        ∃ items item o, doc.paths = some items ∧ (made.path, item) ∈ items ∧
          (op.method, o) ∈ item.present ∧ List.Forall₂ ParameterObject.StandsFor
            (item.mergedParameters doc.parameters o) (made.effectiveParameters op)) ∧
    ∀ item ∈ doc.items, ∀ entry ∈ item.present,
      ¬ ((item.mergedParameters doc.parameters entry.2).map (·.name)).Nodup →
      ∀ spec, (doc.resolve sourceId).outcome ≠ .ok spec := by
  constructor
  · intro spec hspec made hmade op hop
    have hparts := Document.resolve_parts hspec
    obtain ⟨items, hitems, hall⟩ := hparts.items_made
    obtain ⟨⟨path, item⟩, hitem, hresolve⟩ := exists_left_of_forall₂ hall hmade
    have hmadeParts := PathItemObject.resolve_parts hresolve
    obtain ⟨⟨method, o⟩, ho, hmethod, hmerged⟩ :=
      exists_left_of_forall₂ (hparts.operations_merged hmadeParts) hop
    refine ⟨PathItemObject.names_nodup hresolve hop, made.effectiveParameters_eq op, items, item, o,
      hitems, ?_, ?_, hmerged⟩
    · rw [hmadeParts.path_eq]
      exact hitem
    · rw [hmethod]
      exact ho
  · intro item hitem entry hentry htwice spec hspec
    have hparts := Document.resolve_parts hspec
    obtain ⟨items, hitems, hall⟩ := hparts.items_made
    rw [Document.items, hitems] at hitem
    obtain ⟨pathEntry, hpathEntry, rfl⟩ := List.mem_map.mp hitem
    obtain ⟨made, -, hresolve⟩ := exists_right_of_forall₂ hall hpathEntry
    have hmadeParts := PathItemObject.resolve_parts hresolve
    obtain ⟨op, hop, -, hmerged⟩ :=
      exists_right_of_forall₂ (hparts.operations_merged hmadeParts) hentry
    exact htwice (ParameterObject.StandsFor.nodup hmerged
      (PathItemObject.names_nodup hresolve hop))

/-- A path with a shared limit in the query, and an operation on it with a limit of its own. -/
def limited (location : String) : PathItemObject where
  parameters := [{ reference := some "#/parameters/Limit" },
    { name := some "id", location := some "path", type := some "string" }]
  get := some {
    parameters := [{ name := some "limit", location := some location, type := some "string" }]
    responses := some [("204", { description := some "Nothing." })] }

/-- A document with that path. -/
def limits (location : String) : Document where
  swagger := some "2.0"
  info := some { title := some "Limits", version := some "1" }
  parameters := [("Limit",
    { name := some "limit", location := some "query", type := some "integer" })]
  paths := some [("/items/\x7bid\x7d", limited location)]

/-- A limit in the query overrides the shared one, which is gone. A limit in the header does not,
and then there are two of one name. -/
theorem Document.parameters_merged_limits :
    (∃ spec, ((limits "query").resolve "a.json").outcome = .ok spec ∧
      ∃ made ∈ spec.paths, ∃ op ∈ made.operations, made.parameters.map (·.name) = ["limit", "id"] ∧
        (made.effectiveParameters op).map (·.name) = ["id", "limit"] ∧
        made.effectiveParameters op = made.parameters.filter
          (fun p => ∀ q ∈ op.parameters, ¬ (q.name = p.name ∧ q.location = p.location)) ++
            op.parameters) ∧
    (∃ entry ∈ (limited "header").present,
      ¬ (((limited "header").mergedParameters (limits "header").parameters entry.2).map
        (·.name)).Nodup) ∧
    ∀ spec, ((limits "header").resolve "a.json").outcome ≠ .ok spec := by
  have hrun : ∃ spec, ((limits "query").resolve "a.json").outcome = .ok spec ∧
      ∃ made ∈ spec.paths, ∃ op ∈ made.operations, made.parameters.map (·.name) = ["limit", "id"] ∧
        (made.effectiveParameters op).map (·.name) = ["id", "limit"] :=
    ⟨_, rfl, _, List.mem_cons_self, _, List.mem_cons_self, rfl, rfl⟩
  have htwice : ∃ entry ∈ (limited "header").present,
      ¬ (((limited "header").mergedParameters (limits "header").parameters entry.2).map
        (·.name)).Nodup := ⟨_, List.mem_cons_self, by decide⟩
  refine ⟨?_, htwice, ?_⟩
  · obtain ⟨spec, hspec, made, hmade, op, hop, hpath, heffective⟩ := hrun
    obtain ⟨-, hmerged, -⟩ :=
      (Document.parameters_merged "a.json" (limits "query")).1 spec hspec made hmade op hop
    exact ⟨spec, hspec, made, hmade, op, hop, hpath, heffective, hmerged⟩
  · obtain ⟨entry, hentry, htwice⟩ := htwice
    exact (Document.parameters_merged "a.json" (limits "header")).2 (limited "header")
      List.mem_cons_self entry hentry htwice

end ClientGen
