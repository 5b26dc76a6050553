import ClientGen.Proofs.Resolve.Parts

/-!
# The first fault of a schema object

Not every schema object inside another one is looked at when the outer one is resolved. Beside a
reference nothing is, an array is about its items, an object about its properties and then its other
members, and anything else has no parts.

* `SchemaObject.Live` — the nodes that are looked at, each with its place. `SchemaObject.liveNodes`
  lists them in the order of the document (`mem_liveNodes_iff`).
* `SchemaHead.Sound` — what is asked of a node, and `SchemaHead.fault?` the error if it is not met.
* `SchemaObject.resolve_fails` — **one equation**: the error of resolution is the first fault of the
  list. `SchemaObject.resolve_firstFault` says what that means.
-/

namespace ClientGen

/-! ## Nodes that are looked at -/

/-- Is it about an object? Neither a reference nor another type is there. -/
def SchemaHead.isObject (head : SchemaHead) : Bool :=
  head.reference.isNone && (head.type.isNone || head.type == some "object")

/-- Is it about an array? -/
def SchemaHead.isArray (head : SchemaHead) : Bool :=
  head.reference.isNone && head.type == some "array"

theorem SchemaHead.isArray_eq_false {head : SchemaHead} (h : head.isObject = true) :
    head.isArray = false := by
  simp only [SchemaHead.isObject, Bool.and_eq_true, Bool.or_eq_true, beq_iff_eq,
    Option.isNone_iff_eq_none] at h
  obtain ⟨-, h | h⟩ := h <;> simp [SchemaHead.isArray, h]

/-- A node that is looked at when the root is resolved at a path, and its place. -/
inductive SchemaObject.Live (root : SchemaObject) (path : String) : String → SchemaObject → Prop
  | root : Live root path path root
  | items {place : String} {n m : SchemaObject} : Live root path place n →
      n.head.isArray = true → n.items = some m → Live root path (place ++ ".items") m
  | property {place name : String} {n m : SchemaObject} : Live root path place n →
      n.head.isObject = true → (name, m) ∈ n.properties →
      Live root path (place ++ ".properties." ++ name) m
  | additional {place : String} {n m : SchemaObject} : Live root path place n →
      n.head.isObject = true → n.additional = some (.schema m) →
      Live root path (place ++ ".additionalProperties") m

mutual

/-- The nodes that are looked at, with their places, in the order of the document: a node before its
parts, properties in their order, and other members after them. -/
def SchemaObject.liveNodes : SchemaObject → (path : String) → List (String × SchemaObject)
  | ⟨head, properties, additional, items⟩, path =>
    (path, ⟨head, properties, additional, items⟩) ::
      if head.isObject then
        SchemaObject.liveProperties properties path ++ SchemaObject.liveAdditional additional path
      else if head.isArray then SchemaObject.liveItems items path
      else []
termination_by structural s => s

/-- The nodes of the properties of an object at `path`. -/
def SchemaObject.liveProperties : List (String × SchemaObject) → (path : String) →
    List (String × SchemaObject)
  | [], _ => []
  | (name, schema) :: properties, path =>
    schema.liveNodes (path ++ ".properties." ++ name) ++ SchemaObject.liveProperties properties path
termination_by structural ps => ps

/-- The nodes of the other members of an object at `path`. -/
def SchemaObject.liveAdditional : Option (Additional SchemaObject) → (path : String) →
    List (String × SchemaObject)
  | some (.schema schema), path => schema.liveNodes (path ++ ".additionalProperties")
  | some (.allowed _), _ => []
  | none, _ => []
termination_by structural a => a

/-- The nodes of the items of an array at `path`. -/
def SchemaObject.liveItems : Option SchemaObject → (path : String) → List (String × SchemaObject)
  | none, _ => []
  | some schema, path => schema.liveNodes (path ++ ".items")
termination_by structural i => i

end

/-- Induction over schema objects: what passes from the parts to the whole holds of all of them. -/
theorem SchemaObject.induction {P : SchemaObject → Prop}
    (h : ∀ s : SchemaObject, (∀ p ∈ s.properties, P p.2) →
      (∀ m, s.additional = some (.schema m) → P m) → (∀ m, s.items = some m → P m) → P s)
    (s : SchemaObject) : P s := by
  obtain ⟨head, properties, additional, items⟩ := s
  apply h
  · rintro ⟨name, m⟩ hp
    have hlt : 1 + sizeOf name + sizeOf m < sizeOf properties := List.sizeOf_lt_of_mem hp
    exact SchemaObject.induction h m
  · rintro m rfl
    exact SchemaObject.induction h m
  · rintro m rfl
    exact SchemaObject.induction h m
termination_by sizeOf s

namespace SchemaObject

variable {s n : SchemaObject} {path place : String}

theorem liveProperties_eq (properties : List (String × SchemaObject)) (path : String) :
    liveProperties properties path =
      properties.flatMap fun p => p.2.liveNodes (path ++ ".properties." ++ p.1) := by
  induction properties with
  | nil => rfl
  | cons p properties ih => rw [liveProperties, ih, List.flatMap_cons]

theorem mem_liveAdditional {entry : String × SchemaObject}
    {additional : Option (Additional SchemaObject)} :
    entry ∈ liveAdditional additional path ↔ ∃ m, additional = some (.schema m) ∧
      entry ∈ m.liveNodes (path ++ ".additionalProperties") := by
  rcases additional with _ | _ | m <;> simp [liveAdditional]

theorem mem_liveItems {entry : String × SchemaObject} {items : Option SchemaObject} :
    entry ∈ liveItems items path ↔
      ∃ m, items = some m ∧ entry ∈ m.liveNodes (path ++ ".items") := by
  cases items <;> simp [liveItems]

/-- A node is the root, or a node of one of the parts. -/
theorem mem_liveNodes {entry : String × SchemaObject} :
    entry ∈ s.liveNodes path ↔ entry = (path, s) ∨
      (s.head.isObject = true ∧
        ∃ p ∈ s.properties, entry ∈ p.2.liveNodes (path ++ ".properties." ++ p.1)) ∨
      (s.head.isObject = true ∧ ∃ m, s.additional = some (.schema m) ∧
        entry ∈ m.liveNodes (path ++ ".additionalProperties")) ∨
      (s.head.isArray = true ∧ ∃ m, s.items = some m ∧ entry ∈ m.liveNodes (path ++ ".items")) := by
  obtain ⟨head, properties, additional, items⟩ := s
  rw [liveNodes, List.mem_cons]
  by_cases hobject : head.isObject = true
  · simp [hobject, SchemaHead.isArray_eq_false hobject, liveProperties_eq, mem_liveAdditional]
  · by_cases harray : head.isArray = true <;> simp [hobject, harray, mem_liveItems]

/-- Nodes of a node are nodes. -/
theorem Live.trans (h : s.Live path place n) {place' : String} {n' : SchemaObject}
    (h' : n.Live place place' n') : s.Live path place' n' := by
  induction h' with
  | root => exact h
  | items _ harray hm ih => exact .items ih harray hm
  | property _ hobject hm ih => exact .property ih hobject hm
  | additional _ hobject hm ih => exact .additional ih hobject hm

theorem live_of_mem (s : SchemaObject) :
    ∀ {path place : String} {n : SchemaObject}, (place, n) ∈ s.liveNodes path →
      s.Live path place n := by
  induction s using SchemaObject.induction with
  | h s properties additional items =>
    intro path place n hn
    rcases mem_liveNodes.mp hn with
      h | ⟨hobject, p, hp, hn⟩ | ⟨hobject, m, hm, hn⟩ | ⟨harray, m, hm, hn⟩
    · cases h
      exact .root
    · exact (Live.property .root hobject hp).trans (properties p hp hn)
    · exact (Live.additional .root hobject hm).trans (additional m hm hn)
    · exact (Live.items .root harray hm).trans (items m hm hn)

/-- The list is closed under nodes of nodes. -/
theorem liveNodes_subset (s : SchemaObject) :
    ∀ {path place : String} {n : SchemaObject}, (place, n) ∈ s.liveNodes path →
      n.liveNodes place ⊆ s.liveNodes path := by
  induction s using SchemaObject.induction with
  | h s properties additional items =>
    intro path place n hn entry hentry
    rcases mem_liveNodes.mp hn with
      h | ⟨hobject, p, hp, hn⟩ | ⟨hobject, m, hm, hn⟩ | ⟨harray, m, hm, hn⟩
    · cases h
      exact hentry
    · exact mem_liveNodes.mpr (.inr (.inl ⟨hobject, p, hp, properties p hp hn hentry⟩))
    · exact mem_liveNodes.mpr (.inr (.inr (.inl ⟨hobject, m, hm, additional m hm hn hentry⟩)))
    · exact mem_liveNodes.mpr (.inr (.inr (.inr ⟨harray, m, hm, items m hm hn hentry⟩)))

theorem mem_liveNodes_self (s : SchemaObject) (path : String) : (path, s) ∈ s.liveNodes path :=
  mem_liveNodes.mpr (.inl rfl)

/-- The list has the nodes that are looked at, and no others. -/
theorem mem_liveNodes_iff : (place, n) ∈ s.liveNodes path ↔ s.Live path place n := by
  refine ⟨live_of_mem s, fun h => ?_⟩
  induction h with
  | root => exact mem_liveNodes_self s path
  | @items place n m _ harray hm ih =>
    apply liveNodes_subset s ih
    exact mem_liveNodes.mpr (.inr (.inr (.inr ⟨harray, m, hm, mem_liveNodes_self _ _⟩)))
  | @property place name n m _ hobject hm ih =>
    apply liveNodes_subset s ih
    exact mem_liveNodes.mpr (.inr (.inl ⟨hobject, (name, m), hm, mem_liveNodes_self _ _⟩))
  | @additional place n m _ hobject hm ih =>
    apply liveNodes_subset s ih
    exact mem_liveNodes.mpr (.inr (.inr (.inl ⟨hobject, m, hm, mem_liveNodes_self _ _⟩)))

end SchemaObject

/-! ## Faults of a node -/

/-- The types that a schema object can have. -/
def SchemaHead.knownTypes : List String :=
  ["object", "array", "string", "integer", "number", "boolean", "file"]

/-- A node that says what it is: it names a definition, or it refers to nothing and has no type or a
known one. -/
def SchemaHead.Sound (head : SchemaHead) : Prop :=
  match head.reference with
  | some reference => ∃ name, name ≠ "" ∧ reference = "#/definitions/" ++ name
  | none => ∀ type ∈ head.type, type ∈ SchemaHead.knownTypes

/-- The error about a node at `place` that does not say what it is. -/
def SchemaHead.fault? (head : SchemaHead) (place : String) : Option DocumentError :=
  match head.reference with
  | some reference =>
    if (Name.definition? reference).isSome then none
    else some (.invalidField (place ++ ".$ref") (.notDefinition reference))
  | none =>
    match head.type with
    | some type =>
      if type ∈ SchemaHead.knownTypes then none
      else some (.invalidField (place ++ ".type") (.unknownType type))
    | none => none

theorem SchemaHead.mem_knownTypes_iff {type : String} : type ∈ SchemaHead.knownTypes ↔
    type = "object" ∨ type = "array" ∨ (PrimitiveKind.ofName? type).isSome := by
  fun_cases PrimitiveKind.ofName? type <;> simp_all [SchemaHead.knownTypes]

theorem Name.isSome_definition?_iff {reference : String} : (Name.definition? reference).isSome ↔
    ∃ name, name ≠ "" ∧ reference = "#/definitions/" ++ name := by
  constructor
  · intro h
    rw [Name.definition?] at h
    split at h
    · next c name hdrop =>
      refine ⟨String.ofList (c :: name), by simp [String.ext_iff], String.toList_inj.mp ?_⟩
      simp [Text.dropStart?_eq_some_iff.mp hdrop]
    · cases h
  · rintro ⟨name, hne, rfl⟩
    have hdrop : Text.dropStart? "#/definitions/".toList ("#/definitions/" ++ name).toList =
        some name.toList := Text.dropStart?_eq_some_iff.mpr String.toList_append
    rw [Name.definition?, hdrop]
    cases hname : name.toList with
    | nil => exact absurd (String.toList_eq_nil_iff.mp hname) hne
    | cons c cs => rfl

namespace SchemaHead

variable {head : SchemaHead} {place : String} {e : DocumentError}

theorem fault?_eq_none_iff : head.fault? place = none ↔ head.Sound := by
  rw [fault?, Sound]
  cases head.reference with
  | some reference => simp [← Name.isSome_definition?_iff, Option.ne_none_iff_isSome]
  | none => cases head.type <;> simp

/-- A fault is about the reference, or else about the type. -/
theorem eq_of_fault? (h : head.fault? place = some e) :
    ∃ reason, e = .invalidField
      (place ++ if head.reference.isSome then ".$ref" else ".type") reason := by
  rw [fault?] at h
  cases hreference : head.reference <;> grind

end SchemaHead

/-! ## Resolution fails with the first fault -/

/-- The work ends with the error, or with a value where there is none. -/
inductive Fails {ε α : Type} : Except ε α → Option ε → Prop
  | ok (a : α) : Fails (.ok a) none
  | error (e : ε) : Fails (.error e) (some e)

namespace Fails

variable {ε α β : Type} {x : Except ε α} {f : α → Except ε β} {fault fault' : Option ε}

/-- A sequence fails with the first error. -/
theorem bind (hx : Fails x fault) (hf : ∀ a, Fails (f a) fault') :
    Fails (x >>= f) (fault.or fault') := by
  cases hx with
  | ok a => exact hf a
  | error e => exact .error e

/-- What is done to the value at the end does not matter. -/
theorem bind_ok (hx : Fails x fault) (g : α → β) : Fails (x >>= fun a => .ok (g a)) fault := by
  cases hx with
  | ok a => exact .ok (g a)
  | error e => exact .error e

theorem exists_ok_iff (hx : Fails x fault) : (∃ a, x = .ok a) ↔ fault = none := by
  cases hx <;> simp

theorem eq_error {e : ε} (hx : Fails x (some e)) : x = .error e := by
  cases hx
  rfl

end Fails

/-- The first fault of the nodes. -/
def firstFault? (nodes : List (String × SchemaObject)) : Option DocumentError :=
  nodes.findSome? fun n => n.2.head.fault? n.1

theorem firstFault?_cons (place : String) (n : SchemaObject)
    (nodes : List (String × SchemaObject)) :
    firstFault? ((place, n) :: nodes) = (n.head.fault? place).or (firstFault? nodes) := by
  cases h : n.head.fault? place <;> simp [firstFault?, h]

theorem resolveReference_fails (path reference : String) :
    Fails (resolveReference path reference).outcome
      (if (Name.definition? reference).isSome then none
      else some (.invalidField (path ++ ".$ref") (.notDefinition reference))) := by
  rw [resolveReference]
  cases Name.definition? reference with
  | some name => exact .ok _
  | none => exact .error _

/-- Listed values and defaults that do not fit are dropped, so a primitive is never refused. -/
theorem PrimitiveKind.resolve_fails (kind : PrimitiveKind) (path : String)
    (format description : Option String) (validation : Validation) (enum : List Json.Value)
    (default : Option Json.Value) :
    Fails (kind.resolve path format description validation enum default).outcome none := by
  have henum : Fails (kind.resolveEnum path enum).outcome none := by
    rw [PrimitiveKind.resolveEnum]
    split_ifs <;> exact .ok _
  have hdefault : Fails (kind.resolveDefault path default).outcome none := by
    cases default with
    | none => exact .ok _
    | some value =>
      rw [PrimitiveKind.resolveDefault]
      split <;> exact .ok _
  rw [PrimitiveKind.resolve, Checked.outcome_bind]
  refine henum.bind fun _ => ?_
  rw [Checked.outcome_bind]
  exact hdefault.bind_ok _

/-- What has neither parts nor a reference is refused if its type is not known. -/
theorem SchemaHead.leaf_fails (head : SchemaHead) (path type : String) :
    Fails (match PrimitiveKind.ofName? type with
      | some kind => Schema.primitive <$>
          kind.resolve path head.format head.description head.validation head.enum head.default
      | none => throw (.invalidField (path ++ ".type") (.unknownType type)) :
        Resolve Schema).outcome
      (if (PrimitiveKind.ofName? type).isSome then none
      else some (.invalidField (path ++ ".type") (.unknownType type))) := by
  cases PrimitiveKind.ofName? type with
  | some kind =>
    dsimp only
    rw [← bind_pure_comp, Checked.outcome_bind]
    exact (kind.resolve_fails ..).bind_ok _
  | none => exact .error _

namespace SchemaObject

theorem resolveProperties_fails {properties : List (String × SchemaObject)}
    (h : ∀ p ∈ properties, ∀ path,
      Fails (p.2.resolve path).outcome (firstFault? (p.2.liveNodes path)))
    (required : List String) (path : String) :
    Fails (resolveProperties properties required path).outcome
      (firstFault? (liveProperties properties path)) := by
  induction properties with
  | nil => exact .ok []
  | cons p properties ih =>
    rw [resolveProperties, liveProperties, firstFault?, List.findSome?_append, Checked.outcome_bind]
    refine (h p List.mem_cons_self _).bind fun schema => ?_
    rw [Checked.outcome_bind]
    exact (ih fun q hq => h q (List.mem_cons_of_mem p hq)).bind_ok _

theorem resolveAdditional_fails {additional : Option (Additional SchemaObject)}
    (h : ∀ m, additional = some (.schema m) → ∀ path,
      Fails (m.resolve path).outcome (firstFault? (m.liveNodes path)))
    (alone : Bool) (path : String) :
    Fails (resolveAdditional additional alone path).outcome
      (firstFault? (liveAdditional additional path)) := by
  rcases additional with _ | value | m
  · exact .ok _
  · exact .ok _
  · rw [resolveAdditional, ← bind_pure_comp, Checked.outcome_bind]
    exact (h m rfl _).bind_ok some

theorem resolveItems_fails {items : Option SchemaObject}
    (h : ∀ m, items = some m → ∀ path,
      Fails (m.resolve path).outcome (firstFault? (m.liveNodes path))) (path : String) :
    Fails (resolveItems items path).outcome (firstFault? (liveItems items path)) := by
  cases items with
  | none => exact .ok _
  | some m => exact h m rfl _

/-- Properties come before other members. -/
theorem object_fails (head : SchemaHead) {properties : List (String × SchemaObject)}
    {additional : Option (Additional SchemaObject)}
    (hproperties : ∀ p ∈ properties, ∀ path,
      Fails (p.2.resolve path).outcome (firstFault? (p.2.liveNodes path)))
    (hadditional : ∀ m, additional = some (.schema m) → ∀ path,
      Fails (m.resolve path).outcome (firstFault? (m.liveNodes path))) (path : String) :
    Fails (do
      let made ← resolveProperties properties head.required path
      let others ← resolveAdditional additional made.isEmpty path
      return Schema.object head.title head.description made others).outcome
      (firstFault? (liveProperties properties path ++ liveAdditional additional path)) := by
  rw [firstFault?, List.findSome?_append, Checked.outcome_bind]
  refine (resolveProperties_fails hproperties head.required path).bind fun made => ?_
  rw [Checked.outcome_bind]
  exact (resolveAdditional_fails hadditional made.isEmpty path).bind_ok _

/-- **Resolution fails with the first fault**, and with nothing else. -/
theorem resolve_fails (s : SchemaObject) :
    ∀ path, Fails (s.resolve path).outcome (firstFault? (s.liveNodes path)) := by
  induction s using SchemaObject.induction with
  | h s hproperties hadditional hitems =>
    intro path
    obtain ⟨head, properties, additional, items⟩ := s
    have hobject := object_fails head hproperties hadditional path
    rw [resolve, liveNodes, firstFault?_cons, SchemaHead.fault?, SchemaHead.isObject,
      SchemaHead.isArray]
    cases head.reference with
    | some reference =>
      simpa [firstFault?] using resolveReference_fails path reference
    | none =>
      dsimp only
      split
      · next htype => simpa [htype] using hobject
      · next htype => simpa [htype, SchemaHead.knownTypes] using hobject
      · next htype =>
        rw [Checked.outcome_bind]
        simpa [htype, SchemaHead.knownTypes] using (resolveItems_fails hitems path).bind_ok _
      · next type hobjectType harrayType htype =>
        replace hobjectType : type ≠ "object" := hobjectType
        replace harrayType : type ≠ "array" := harrayType
        simp only [htype, SchemaHead.mem_knownTypes_iff, hobjectType, harrayType, false_or,
          firstFault?, Option.isNone_none, Option.isNone_some, Option.some_beq_some, Bool.false_or,
          Bool.true_and, beq_iff_eq, ↓reduceIte, List.findSome?_nil, Option.or_none]
        exact head.leaf_fails path type

/-- A schema object can be resolved exactly if every node that is looked at says what it is.
Otherwise the error points at the first one that does not, in the order of the document. -/
theorem resolve_firstFault (s : SchemaObject) (path : String) :
    ((∃ t, (s.resolve path).outcome = .ok t) ↔ ∀ place n, s.Live path place n → n.head.Sound) ∧
    (¬ (∀ place n, s.Live path place n → n.head.Sound) →
      ∃ before place n after, s.liveNodes path = before ++ (place, n) :: after ∧
        (∀ entry ∈ before, entry.2.head.Sound) ∧ ¬ n.head.Sound ∧
        ∃ reason, (s.resolve path).outcome = .error (.invalidField
          (place ++ if n.head.reference.isSome then ".$ref" else ".type") reason)) ∧
    ∀ place n, (place, n) ∈ s.liveNodes path ↔ s.Live path place n := by
  have hsound : (∀ place n, s.Live path place n → n.head.Sound) ↔
      firstFault? (s.liveNodes path) = none := by
    simp [firstFault?, SchemaHead.fault?_eq_none_iff, mem_liveNodes_iff]
  rw [hsound]
  have hfails := s.resolve_fails path
  refine ⟨?_, fun hfault => ?_, fun place n => mem_liveNodes_iff⟩
  · exact hfails.exists_ok_iff
  · obtain ⟨e, he⟩ := Option.ne_none_iff_exists'.mp hfault
    rw [he] at hfails
    obtain ⟨before, ⟨place, n⟩, after, hnodes, hn, hbefore⟩ := List.findSome?_eq_some_iff.mp he
    refine ⟨before, place, n, after, hnodes, fun entry hentry => ?_, fun h => ?_, ?_⟩
    · exact SchemaHead.fault?_eq_none_iff.mp (hbefore entry hentry)
    · rw [SchemaHead.fault?_eq_none_iff.mpr h] at hn
      cases hn
    · obtain ⟨reason, rfl⟩ := SchemaHead.eq_of_fault? hn
      exact ⟨reason, hfails.eq_error⟩

/-- An order whose tags have a type that is not known, and whose other members refer to nothing that
could be a definition. The type beside the customer's reference is not looked at. -/
def taggedOrder : SchemaObject :=
  ⟨{}, [("customer", ⟨{ reference := "#/definitions/Customer", type := "person" }, [], none, none⟩),
    ("tags", ⟨{ type := "array" }, [], none, some ⟨{ type := "date" }, [], none, none⟩⟩)],
    some (.schema ⟨{ reference := "Note" }, [], none, none⟩), none⟩

theorem resolve_firstFault_taggedOrder :
    (¬ ∀ place n, taggedOrder.Live "definitions.Order" place n → n.head.Sound) ∧
    (taggedOrder.resolve "definitions.Order").outcome =
      .error (.invalidField "definitions.Order.properties.tags.items.type" (.unknownType "date")) ∧
    ∃ before place n after,
      taggedOrder.liveNodes "definitions.Order" = before ++ (place, n) :: after ∧
        (∀ entry ∈ before, entry.2.head.Sound) ∧ ¬ n.head.Sound ∧
        ∃ reason, (taggedOrder.resolve "definitions.Order").outcome = .error (.invalidField
          (place ++ if n.head.reference.isSome then ".$ref" else ".type") reason) := by
  have hbad : ¬ ∀ place n, taggedOrder.Live "definitions.Order" place n → n.head.Sound := by
    intro h
    have htags : taggedOrder.Live "definitions.Order"
        ("definitions.Order" ++ ".properties." ++ "tags")
        ⟨{ type := "array" }, [], none, some ⟨{ type := "date" }, [], none, none⟩⟩ :=
      .property .root rfl (by simp [taggedOrder])
    simpa [SchemaHead.Sound, SchemaHead.knownTypes] using h _ _ (htags.items rfl rfl)
  exact ⟨hbad, rfl, (resolve_firstFault taggedOrder "definitions.Order").2.1 hbad⟩

end SchemaObject

end ClientGen
