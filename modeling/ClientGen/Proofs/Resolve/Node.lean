import ClientGen.Proofs.Resolve.Shared

/-!
# The nodes of schemas

A schema is a tree. `Schema.nodes` lists its nodes, as `SchemaObject.nodes` does before resolution.
Two things are asked of a node: a primitive `Fits` when its listed values and its default belong to
its type, and the names of the properties of an object are distinct.

`SchemaObject.resolve_nodes`: whatever a schema object means, all nodes of it fit, and the names of
properties are distinct where they were before.
-/

namespace ClientGen

/-! ## Nodes -/

mutual

/-- The schema and the schemas inside it. -/
def Schema.nodes : Schema → List Schema
  | .reference name => [.reference name]
  | .object title description properties additional =>
    .object title description properties additional ::
      (Schema.propertyNodes properties ++ Schema.additionalNodes additional)
  | .array items description constraints => .array items description constraints :: items.nodes
  | .primitive p => [.primitive p]
termination_by structural s => s

/-- The nodes of properties. -/
def Schema.propertyNodes : List (Property Schema) → List Schema
  | [] => []
  | ⟨_, schema, _⟩ :: properties => schema.nodes ++ Schema.propertyNodes properties
termination_by structural ps => ps

/-- The nodes of the schema of other members. -/
def Schema.additionalNodes : Option Schema → List Schema
  | none => []
  | some schema => schema.nodes
termination_by structural a => a

end

mutual

/-- The schema object and the schema objects inside it. -/
def SchemaObject.nodes : SchemaObject → List SchemaObject
  | ⟨head, properties, additional, items⟩ =>
    ⟨head, properties, additional, items⟩ ::
      (SchemaObject.propertyNodes properties ++ SchemaObject.additionalNodes additional ++
        SchemaObject.itemNodes items)
termination_by structural s => s

/-- The nodes of schema objects with names, such as properties. -/
def SchemaObject.propertyNodes : List (String × SchemaObject) → List SchemaObject
  | [] => []
  | (_, schema) :: properties => schema.nodes ++ SchemaObject.propertyNodes properties
termination_by structural ps => ps

/-- The nodes of `additionalProperties`. -/
def SchemaObject.additionalNodes : Option (Additional SchemaObject) → List SchemaObject
  | none => []
  | some (.allowed _) => []
  | some (.schema schema) => schema.nodes
termination_by structural a => a

/-- The nodes of a schema object that may be absent, such as the items of an array. -/
def SchemaObject.itemNodes : Option SchemaObject → List SchemaObject
  | none => []
  | some schema => schema.nodes
termination_by structural i => i

end

theorem SchemaObject.propertyNodes_eq (properties : List (String × SchemaObject)) :
    SchemaObject.propertyNodes properties = properties.flatMap (·.2.nodes) := by
  induction properties with
  | nil => rfl
  | cons e properties ih => rw [propertyNodes, ih, List.flatMap_cons]

/-- The names of the properties of a node. -/
def SchemaObject.propertyNames (s : SchemaObject) : List String := s.properties.map (·.1)

/-- The nodes of the schemas in a parameter. -/
def ParameterObject.nodes (p : ParameterObject) : List SchemaObject :=
  SchemaObject.itemNodes p.schema ++ SchemaObject.itemNodes p.items

/-- The nodes of the schemas in a response. -/
def ResponseObject.nodes (r : ResponseObject) : List SchemaObject :=
  SchemaObject.itemNodes r.schema ++ SchemaObject.propertyNodes r.headers

namespace Document

/-- The shared parameters, those of path items and those of operations. -/
def allParameters (doc : Document) : List ParameterObject :=
  doc.parameters.map (·.2) ++ doc.parameterUses

/-- The shared responses and those of operations. -/
def allResponses (doc : Document) : List ResponseObject :=
  doc.responses.map (·.2) ++ doc.responseUses

/-- The nodes of all schema objects. -/
def nodes (doc : Document) : List SchemaObject :=
  SchemaObject.propertyNodes doc.definitions ++ doc.allParameters.flatMap (·.nodes) ++
    doc.allResponses.flatMap (·.nodes)

/-- The properties of every schema object are a table, with a name for each entry. -/
def Keyed (doc : Document) : Prop := ∀ n ∈ doc.nodes, n.propertyNames.Nodup

end Document

/-- The names of the properties of a node. -/
def Schema.propertyNames : Schema → List String
  | .object _ _ properties _ => properties.map (·.name)
  | _ => []

/-- The type that a default is of. -/
def Literal.kind : Literal → PrimitiveKind
  | .string _ => .string
  | .integer _ => .integer
  | .number _ => .number
  | .boolean _ => .boolean

/-- Only strings have listed values, and the default is of the type of the primitive. -/
def Primitive.Fits (p : Primitive) : Prop :=
  (p.enum ≠ [] → p.kind = .string) ∧ ∀ literal ∈ p.default, literal.kind = p.kind

/-- If the node is a primitive, it fits. -/
def Schema.Fits : Schema → Prop
  | .primitive p => p.Fits
  | _ => True

/-! ## Primitives -/

namespace PrimitiveKind

/-- A value is taken for a literal only if it is of the type that is asked for, so that a default
cannot bring another type in. -/
theorem kind_of_literal? {kind : PrimitiveKind} {value : Json.Value} {literal : Literal}
    (h : kind.literal? value = some literal) : literal.kind = kind := by
  unfold literal? at h
  split at h
  · cases h
    rfl
  · obtain ⟨n, -, rfl⟩ := Option.map_eq_some_iff.mp h
    rfl
  · cases h
    rfl
  · cases h
    rfl
  · cases h

/-- Listed values are kept for strings, and dropped with a warning for every other type. So where
some are left, the type is a string. -/
theorem resolveEnum_fits {kind : PrimitiveKind} {path : String} {values : List Json.Value}
    {enum : List String} (h : (kind.resolveEnum path values).outcome = .ok enum)
    (henum : enum ≠ []) : kind = .string := by
  unfold resolveEnum at h
  split at h
  · exact absurd (pure_eq_ok h).symm henum
  · split at h
    case isTrue hkind => exact hkind
    case isFalse => exact absurd (Except.ok.inj h).symm henum

/-- A default that is kept is of the type of its primitive; one that is not is dropped with a
warning. -/
theorem resolveDefault_fits {kind : PrimitiveKind} {path : String} {value : Option Json.Value}
    {default : Option Literal} (h : (kind.resolveDefault path value).outcome = .ok default) :
    ∀ literal ∈ default, literal.kind = kind := by
  unfold resolveDefault at h
  split at h
  · obtain rfl := pure_eq_ok h
    exact nofun
  · split at h
    case h_1 literal hliteral =>
      obtain rfl := pure_eq_ok h
      rintro _ ⟨⟩
      exact kind_of_literal? hliteral
    case h_2 =>
      obtain rfl := Except.ok.inj h
      exact nofun

/-- A primitive fits, whatever keywords it is made from. -/
theorem resolve_fits {kind : PrimitiveKind} {path : String} {format description : Option String}
    {validation : Validation} {enum : List Json.Value} {default : Option Json.Value} {p : Primitive}
    (h : (kind.resolve path format description validation enum default).outcome = .ok p) :
    p.Fits := by
  simp only [resolve, Checked.outcome_bind] at h
  obtain ⟨values, hvalues, h⟩ := bind_eq_ok h
  obtain ⟨literal, hliteral, h⟩ := bind_eq_ok h
  obtain rfl := pure_eq_ok h
  exact ⟨resolveEnum_fits hvalues, resolveDefault_fits hliteral⟩

end PrimitiveKind

/-! ## From schema objects to schemas -/

/-- Nodes that were made from the nodes of schema objects. -/
structure NodesFrom (raw : List SchemaObject) (made : List Schema) : Prop where
  fits : ∀ n ∈ made, n.Fits
  /-- names of properties are distinct if they were so before -/
  keyed : (∀ n ∈ raw, n.propertyNames.Nodup) → ∀ n ∈ made, n.propertyNames.Nodup

namespace NodesFrom

variable {raw raw' : List SchemaObject} {made made' : List Schema}

theorem nil : NodesFrom raw [] := ⟨nofun, nofun⟩

/-- Nodes are listed part after part, and the parts of a schema are made from the parts of its
object: that is the step of the induction below. -/
theorem append (h : NodesFrom raw made) (h' : NodesFrom raw' made') :
    NodesFrom (raw ++ raw') (made ++ made') where
  fits := List.forall_mem_append.mpr ⟨h.fits, h'.fits⟩
  keyed hraw := by
    obtain ⟨hraw, hraw'⟩ := List.forall_mem_append.mp hraw
    exact List.forall_mem_append.mpr ⟨h.keyed hraw, h'.keyed hraw'⟩

/-- Some parts are not looked at, such as the items of an object, so that there can be more nodes
before than those that anything is made from. -/
theorem mono (h : NodesFrom raw made) (hsub : raw ⊆ raw') : NodesFrom raw' made :=
  ⟨h.fits, fun hraw => h.keyed fun n hn => hraw n (hsub hn)⟩

/-- A node without properties asks nothing of the nodes before. -/
theorem cons {n : Schema} (hfits : n.Fits) (hnames : n.propertyNames = [])
    (h : NodesFrom raw made) : NodesFrom raw (n :: made) where
  fits := List.forall_mem_cons.mpr ⟨hfits, h.fits⟩
  keyed hraw := List.forall_mem_cons.mpr ⟨hnames ▸ List.nodup_nil, h.keyed hraw⟩

/-- The schema of any value stands where none was given. It is made from nothing. -/
theorem any : NodesFrom raw Schema.any.nodes := .cons trivial rfl .nil

end NodesFrom

/-- What a schema object can mean. -/
inductive SchemaObject.Means (path : String) : SchemaObject → Schema → Prop
  | reference {s : SchemaObject} (name : String) : Means path s (.reference name)
  | object {head : SchemaHead} {properties : List (String × SchemaObject)}
      {additional : Option (Additional SchemaObject)} {items : Option SchemaObject}
      {ps : List (Property Schema)} {a : Option Schema} :
      (resolveProperties properties head.required path).outcome = .ok ps →
      (resolveAdditional additional ps.isEmpty path).outcome = .ok a →
      Means path ⟨head, properties, additional, items⟩ (.object head.title head.description ps a)
  | array {head : SchemaHead} {properties : List (String × SchemaObject)}
      {additional : Option (Additional SchemaObject)} {items : Option SchemaObject} {i : Schema} :
      (resolveItems items path).outcome = .ok i →
      Means path ⟨head, properties, additional, items⟩
        (.array i head.description head.validation.resolve)
  | primitive {s : SchemaObject} {p : Primitive} : p.Fits → Means path s (.primitive p)

/-- Inversion for schemas: a schema object that is resolved means one of four things. The facts
about nodes are read off this, and not off the classification by types. -/
theorem SchemaObject.resolve_means {s : SchemaObject} {path : String} {t : Schema}
    (h : (s.resolve path).outcome = .ok t) : s.Means path t := by
  obtain ⟨head, properties, additional, items⟩ := s
  have hobject (h : (do
      let properties ← SchemaObject.resolveProperties properties head.required path
      let additional ← SchemaObject.resolveAdditional additional properties.isEmpty path
      return Schema.object head.title head.description properties additional :
        Resolve Schema).outcome = .ok t) : Means path ⟨head, properties, additional, items⟩ t := by
    simp only [Checked.outcome_bind] at h
    obtain ⟨ps, hps, h⟩ := bind_eq_ok h
    obtain ⟨a, ha, h⟩ := bind_eq_ok h
    obtain rfl := pure_eq_ok h
    exact .object hps ha
  rw [SchemaObject.resolve] at h
  split at h
  case h_1 reference _ =>
    unfold resolveReference at h
    split at h
    · obtain rfl := pure_eq_ok h
      exact .reference _
    · cases h
  case h_2 =>
    dsimp only at h
    split at h
    · exact hobject h
    · exact hobject h
    · rw [Checked.outcome_bind] at h
      obtain ⟨i, hi, h⟩ := bind_eq_ok h
      obtain rfl := pure_eq_ok h
      exact .array hi
    · split at h
      · rw [map_eq_pure_bind, Checked.outcome_bind] at h
        obtain ⟨p, hp, h⟩ := bind_eq_ok h
        obtain rfl := pure_eq_ok h
        exact .primitive (PrimitiveKind.resolve_fits hp)
      · cases h

mutual

/-- **Every node.** The nodes of a schema are made from those of its schema object. -/
theorem SchemaObject.resolve_nodes : ∀ (s : SchemaObject) {path : String} {t : Schema},
    (s.resolve path).outcome = .ok t → NodesFrom s.nodes t.nodes
  | ⟨head, properties, additional, items⟩, path, t, h => by
    rw [SchemaObject.nodes]
    cases SchemaObject.resolve_means h with
    | reference name =>
      rw [Schema.nodes]
      exact .cons trivial rfl .nil
    | @object _ _ _ _ ps a hps ha =>
      obtain ⟨hnames, hproperties⟩ := SchemaObject.resolveProperties_nodes properties hps
      have hinside := hproperties.append (SchemaObject.resolveAdditional_nodes additional ha)
      rw [Schema.nodes]
      -- the items of an object are not looked at, so nothing is made from their nodes
      refine ⟨List.forall_mem_cons.mpr ⟨trivial, hinside.fits⟩, fun hraw => ?_⟩
      obtain ⟨hown, hraw⟩ := List.forall_mem_cons.mp hraw
      refine List.forall_mem_cons.mpr ⟨?_, hinside.keyed (List.forall_mem_append.mp hraw).1⟩
      rw [Schema.propertyNames, hnames]
      exact hown
    | array hi =>
      rw [Schema.nodes]
      refine .cons trivial rfl ((SchemaObject.resolveItems_nodes items hi).mono fun n hn => ?_)
      exact List.mem_cons_of_mem _ (List.mem_append_right _ hn)
    | primitive hp =>
      rw [Schema.nodes]
      exact .cons hp rfl .nil
termination_by structural s => s

/-- The names of properties are taken over as they are and in their order. So they are a table after
resolution if they were one before. -/
theorem SchemaObject.resolveProperties_nodes : ∀ (ps : List (String × SchemaObject))
    {required : List String} {path : String} {qs : List (Property Schema)},
    (SchemaObject.resolveProperties ps required path).outcome = .ok qs →
    qs.map (·.name) = ps.map (·.1) ∧
      NodesFrom (SchemaObject.propertyNodes ps) (Schema.propertyNodes qs)
  | [], _, _, qs, h => by
    rw [SchemaObject.resolveProperties] at h
    obtain rfl := pure_eq_ok h
    exact ⟨rfl, .nil⟩
  | (name, s) :: ps, required, path, qs, h => by
    simp only [SchemaObject.resolveProperties, Checked.outcome_bind] at h
    obtain ⟨t, ht, h⟩ := bind_eq_ok h
    obtain ⟨qs, hqs, h⟩ := bind_eq_ok h
    obtain rfl := pure_eq_ok h
    obtain ⟨hnames, hnodes⟩ := SchemaObject.resolveProperties_nodes ps hqs
    rw [List.map_cons, List.map_cons, hnames, SchemaObject.propertyNodes, Schema.propertyNodes]
    exact ⟨rfl, (SchemaObject.resolve_nodes s ht).append hnodes⟩
termination_by structural ps => ps

theorem SchemaObject.resolveAdditional_nodes : ∀ (additional : Option (Additional SchemaObject))
    {alone : Bool} {path : String} {a : Option Schema},
    (SchemaObject.resolveAdditional additional alone path).outcome = .ok a →
    NodesFrom (SchemaObject.additionalNodes additional) (Schema.additionalNodes a)
  | none, _, _, a, h => by
    rw [SchemaObject.resolveAdditional] at h
    obtain rfl := pure_eq_ok h
    exact .nil
  | some (.allowed value), alone, _, a, h => by
    rw [SchemaObject.resolveAdditional] at h
    obtain rfl := pure_eq_ok h
    split
    · exact .any
    · exact .nil
  | some (.schema s), _, path, a, h => by
    rw [SchemaObject.resolveAdditional, map_eq_pure_bind, Checked.outcome_bind] at h
    obtain ⟨t, ht, h⟩ := bind_eq_ok h
    obtain rfl := pure_eq_ok h
    rw [SchemaObject.additionalNodes, Schema.additionalNodes]
    exact SchemaObject.resolve_nodes s ht
termination_by structural additional => additional

/-- Items that are absent are any value, with a warning, and add a node that was not there. -/
theorem SchemaObject.resolveItems_nodes : ∀ (items : Option SchemaObject) {path : String}
    {t : Schema}, (SchemaObject.resolveItems items path).outcome = .ok t →
    NodesFrom (SchemaObject.itemNodes items) t.nodes
  | none, path, t, h => by
    rw [SchemaObject.resolveItems] at h
    obtain rfl := Except.ok.inj h
    exact .any
  | some s, path, t, h => by
    rw [SchemaObject.resolveItems] at h
    rw [SchemaObject.itemNodes]
    exact SchemaObject.resolve_nodes s h
termination_by structural items => items

end

end ClientGen
