import ClientGen.Proofs.Document.RoundTrip
import ClientGen.Proofs.Resolve.Node

/-!
# Documents have tables

A table that was read has distinct names, so the properties of every schema object in a document
that was read have distinct names (`Document.keyed_of_ofJson`), and so have its paths and the
responses of each operation (`Document.keyedPaths_of_ofJson`). The parts of a record are either
absent or were read (`Slot.Kept.ensures`), which takes what readers ensure from part to part.
-/

namespace ClientGen

namespace Json

variable {α β : Type}

/-- Whatever the reader reads has the property. -/
def Reader.Ensures (r : Reader α) (post : α → Prop) : Prop :=
  ∀ {room : ℕ} {node : Node} {a : α}, r room node = .ok a → post a

theorem Reader.Ensures.table {r : Reader α} {post : α → Prop} (h : r.Ensures post) :
    (Reader.table r).Ensures fun t => t.names.Nodup ∧ ∀ e ∈ t, post e.2 := by
  intro room node t ht
  obtain ⟨hnames, inner, -, hentries⟩ := Reader.table_entries ht
  refine ⟨hnames, fun e he => ?_⟩
  obtain ⟨node, hread⟩ := hentries e he
  exact h hread

namespace Slot.Kept

variable {room : ℕ} {a : α}

/-- A part that is kept is absent or was read. -/
theorem ensures {s : Slot α} (h : s.Kept room a) (post : s.Part → Prop) (habsent : post s.absent)
    (hread : s.read.Ensures post) : post (s.get a) := by
  cases hm : s.memberOf a with
  | none => exact s.eq_absent hm ▸ habsent
  | some m => exact hread (h m hm).1

variable {r : Reader β} {write : β → Value} {hr : r.Faithful write} {post : β → Prop}
  {name : String}

theorem optional {get : α → Option β} {set : α → Option β → α}
    (h : (Slot.optional name hr get set).Kept room a) (hread : r.Ensures post) :
    ∀ b ∈ get a, post b := by
  refine ensures h (fun (o : Option β) => ∀ b ∈ o, post b) nofun fun {room node o} ho => ?_
  rintro b rfl
  exact hread (Reader.optional_eq_some ho).2

theorem list {get : α → List β} {set : α → List β → α}
    (h : (Slot.list name hr get set).Kept room a) (hread : r.Ensures post) :
    ∀ b ∈ get a, post b := by
  refine ensures h (fun (l : List β) => ∀ b ∈ l, post b) nofun fun {room node l} hl => ?_
  intro b hb
  obtain ⟨inner, items, -, -, hitems⟩ := Reader.list_eq_ok hl
  obtain ⟨item, -, hitem⟩ := exists_of_mem_mapM hitems hb
  exact hread hitem

theorem table {get : α → Table β} {set : α → Table β → α}
    (h : (Slot.table name hr get set).Kept room a) (hread : r.Ensures post) :
    (get a).names.Nodup ∧ ∀ e ∈ get a, post e.2 :=
  ensures h (fun (t : Table β) => t.names.Nodup ∧ ∀ e ∈ t, post e.2) ⟨List.nodup_nil, nofun⟩
    hread.table

end Slot.Kept

end Json

/-- The names of the properties of every node are distinct. -/
def SchemaObject.Keyed (s : SchemaObject) : Prop := ∀ n ∈ s.nodes, n.propertyNames.Nodup

namespace SchemaObject

theorem forall_propertyNodes {P : SchemaObject → Prop} {t : Table SchemaObject}
    (h : ∀ e ∈ t, ∀ n ∈ e.2.nodes, P n) : ∀ n ∈ propertyNodes t, P n := by
  intro n hn
  rw [propertyNodes_eq] at hn
  obtain ⟨e, he, hn⟩ := List.mem_flatMap.mp hn
  exact h e he n hn

theorem forall_itemNodes {P : SchemaObject → Prop} {schema : Option SchemaObject}
    (h : ∀ s ∈ schema, ∀ n ∈ s.nodes, P n) : ∀ n ∈ itemNodes schema, P n := by
  cases schema with
  | none => exact nofun
  | some s => exact h s rfl

theorem keyed_mk {head : SchemaHead} {properties : Table SchemaObject}
    {additional : Option (Additional SchemaObject)} {items : Option SchemaObject}
    (hnames : properties.names.Nodup) (hproperties : ∀ e ∈ properties, e.2.Keyed)
    (hadditional : ∀ a ∈ additional, ∀ s, a = .schema s → s.Keyed) (hitems : ∀ s ∈ items, s.Keyed) :
    Keyed ⟨head, properties, additional, items⟩ := by
  rw [Keyed, nodes, List.forall_mem_cons, List.forall_mem_append, List.forall_mem_append]
  refine ⟨hnames, ⟨forall_propertyNodes hproperties, ?_⟩, forall_itemNodes hitems⟩
  rcases additional with _ | _ | s
  · exact nofun
  · exact nofun
  · exact hadditional _ rfl s rfl

theorem additional_keyed {schema : Json.Reader SchemaObject} (h : schema.Ensures Keyed) :
    (Additional.read schema).Ensures fun a => ∀ s, a = .schema s → s.Keyed := by
  intro room node a ha s hs
  subst hs
  obtain ⟨b, -, hb⟩ | ⟨s', hs', hb⟩ := Additional.read_eq_ok ha
  · cases hb
  · cases hb
    exact h hs'

theorem readWithin_keyed (levels : ℕ) : (readWithin levels).Ensures Keyed := by
  induction levels with
  | zero => exact nofun
  | succ levels ih =>
    intro room node s h
    -- of all parts only the properties, the additional ones and the items hold schemas
    obtain ⟨inner, -, hkept, -⟩ := (layout (readWithin_faithful levels)).kept h
    simp only [firstSlots, lastSlots, List.cons_append, List.nil_append,
      List.forall_mem_cons] at hkept
    obtain ⟨-, -, -, -, -, -, hproperties, -, hadditional, hitems, -⟩ := hkept
    obtain ⟨head, properties, additional, items⟩ := s
    obtain ⟨hnames, hentries⟩ := hproperties.table ih
    exact keyed_mk hnames hentries (hadditional.optional (additional_keyed ih)) (hitems.optional ih)

theorem read_keyed : read.Ensures Keyed := readWithin_keyed _

end SchemaObject

/-- The names of the properties of every node in a parameter are distinct. -/
def ParameterObject.Keyed (p : ParameterObject) : Prop := ∀ n ∈ p.nodes, n.propertyNames.Nodup

/-- The names of the properties of every node in a response are distinct. -/
def ResponseObject.Keyed (r : ResponseObject) : Prop := ∀ n ∈ r.nodes, n.propertyNames.Nodup

theorem ParameterObject.read_keyed : ParameterObject.read.Ensures Keyed := by
  intro room node p h
  obtain ⟨inner, -, hkept, -⟩ := layout.kept h
  simp only [slots, List.append_nil, List.forall_mem_cons] at hkept
  obtain ⟨-, -, -, -, -, hschema, -, -, hitems, -⟩ := hkept
  exact List.forall_mem_append.mpr
    ⟨SchemaObject.forall_itemNodes (hschema.optional SchemaObject.read_keyed),
      SchemaObject.forall_itemNodes (hitems.optional SchemaObject.read_keyed)⟩

theorem ResponseObject.read_keyed : ResponseObject.read.Ensures Keyed := by
  intro room node r h
  obtain ⟨inner, -, hkept⟩ := describe.readRecord_kept h
  simp only [slots, List.forall_mem_cons] at hkept
  obtain ⟨-, -, hschema, hheaders, -⟩ := hkept
  exact List.forall_mem_append.mpr
    ⟨SchemaObject.forall_itemNodes (hschema.optional SchemaObject.read_keyed),
      SchemaObject.forall_propertyNodes (hheaders.table SchemaObject.read_keyed).2⟩

theorem forall_mem_getD {α : Type} {P : α → Prop} {o : Option (List α)}
    (h : ∀ l ∈ o, ∀ a ∈ l, P a) : ∀ a ∈ o.getD [], P a := by
  cases o with
  | none => exact nofun
  | some l => exact h l rfl

/-- The parameters and responses of an operation. -/
theorem OperationObject.read_keyed : OperationObject.read.Ensures fun o =>
    (∀ p ∈ o.parameters, p.Keyed) ∧ ∀ e ∈ o.responses.getD [], e.2.Keyed := by
  intro room node o h
  obtain ⟨inner, -, hkept⟩ := describe.readRecord_kept h
  simp only [slots, List.forall_mem_cons] at hkept
  obtain ⟨-, -, -, -, -, -, hparameters, hresponses, -⟩ := hkept
  refine ⟨hparameters.list ParameterObject.read_keyed, ?_⟩
  exact forall_mem_getD fun t ht => (hresponses.optional ResponseObject.read_keyed.table t ht).2

/-- What is read for every operation is read for the operations of a path. -/
theorem PathItemObject.read_operation {post : OperationObject → Prop}
    (h : OperationObject.read.Ensures post) :
    (Json.readRecord PathItemObject.fields {}).Ensures fun item =>
      ∀ m, ∀ o ∈ item.operation? m, post o := by
  intro room node item hitem
  obtain ⟨inner, -, hkept⟩ := describe.readRecord_kept hitem
  simp only [slots, List.forall_mem_cons] at hkept
  obtain ⟨-, hget, hput, hpost, hdelete, hoptions, hhead, hpatch, -⟩ := hkept
  intro m
  cases m with
  | get => exact hget.optional h
  | put => exact hput.optional h
  | post => exact hpost.optional h
  | delete => exact hdelete.optional h
  | options => exact hoptions.optional h
  | head => exact hhead.optional h
  | patch => exact hpatch.optional h

/-- The parameters and responses in use on a path. -/
theorem PathItemObject.read_keyed : (Json.readRecord PathItemObject.fields {}).Ensures fun item =>
    (∀ p ∈ item.parameterUses, p.Keyed) ∧ ∀ r ∈ item.responseUses, r.Keyed := by
  intro room node item h
  have hoperation := PathItemObject.read_operation OperationObject.read_keyed h
  obtain ⟨inner, -, hkept⟩ := describe.readRecord_kept h
  simp only [slots, List.forall_mem_cons] at hkept
  obtain ⟨hparameters, -⟩ := hkept
  have hpresent : ∀ entry ∈ item.present,
      (∀ p ∈ entry.2.parameters, p.Keyed) ∧ ∀ e ∈ entry.2.responses.getD [], e.2.Keyed := by
    intro entry hentry
    obtain ⟨m, -, hm⟩ := List.mem_filterMap.mp hentry
    obtain ⟨o, ho, rfl⟩ := Option.map_eq_some_iff.mp hm
    exact hoperation m o ho
  refine ⟨List.forall_mem_append.mpr ⟨hparameters.list ParameterObject.read_keyed, ?_⟩, ?_⟩
  · intro p hp
    obtain ⟨entry, hentry, hp⟩ := List.mem_flatMap.mp hp
    exact (hpresent entry hentry).1 p hp
  · intro r hr
    obtain ⟨entry, hentry, hr⟩ := List.mem_flatMap.mp hr
    obtain ⟨e, he, rfl⟩ := List.mem_map.mp hr
    exact (hpresent entry hentry).2 e he

theorem Document.read_keyed : Document.read.Ensures Document.Keyed := by
  intro room node doc h
  obtain ⟨inner, -, hkept⟩ := describe.readRecord_kept h
  simp only [slots, List.forall_mem_cons] at hkept
  obtain ⟨-, -, -, -, -, -, -, hpaths, hdefinitions, hparameters, hresponses, -⟩ := hkept
  have hitems : ∀ item ∈ doc.items,
      (∀ p ∈ item.parameterUses, p.Keyed) ∧ ∀ r ∈ item.responseUses, r.Keyed :=
    List.forall_mem_map.mpr
      (forall_mem_getD fun t ht => (hpaths.optional PathItemObject.read_keyed.table t ht).2)
  have hparameter : ∀ p ∈ doc.allParameters, p.Keyed := by
    refine List.forall_mem_append.mpr
      ⟨List.forall_mem_map.mpr (hparameters.table ParameterObject.read_keyed).2, fun p hp => ?_⟩
    obtain ⟨item, hitem, hp⟩ := List.mem_flatMap.mp hp
    exact (hitems item hitem).1 p hp
  have hresponse : ∀ r ∈ doc.allResponses, r.Keyed := by
    refine List.forall_mem_append.mpr
      ⟨List.forall_mem_map.mpr (hresponses.table ResponseObject.read_keyed).2, fun r hr => ?_⟩
    obtain ⟨item, hitem, hr⟩ := List.mem_flatMap.mp hr
    exact (hitems item hitem).2 r hr
  refine List.forall_mem_append.mpr ⟨List.forall_mem_append.mpr
    ⟨SchemaObject.forall_propertyNodes (hdefinitions.table SchemaObject.read_keyed).2, ?_⟩, ?_⟩
  · exact List.forall_mem_flatMap.mpr hparameter
  · exact List.forall_mem_flatMap.mpr hresponse

/-- Every document that was read has tables of properties. -/
theorem Document.keyed_of_ofJson {text : String} {doc : Document}
    (h : Document.ofJson text = .ok doc) : doc.Keyed :=
  Document.read_keyed (Json.decode_eq_ok (Document.ofJson_inv h).1)

/-! ## Paths and statuses -/

/-- The responses of an operation have distinct keys. -/
theorem OperationObject.read_responses : OperationObject.read.Ensures fun o =>
    ∀ responses ∈ o.responses, responses.names.Nodup := by
  intro room node o h
  obtain ⟨inner, -, hkept⟩ := describe.readRecord_kept h
  simp only [slots, List.forall_mem_cons] at hkept
  obtain ⟨-, -, -, -, -, -, -, hresponses, -⟩ := hkept
  intro responses hmem
  exact (hresponses.optional ResponseObject.read_keyed.table responses hmem).1

/-- The paths of a document are distinct, and so are the keys of the responses of each operation. -/
def Document.KeyedPaths (doc : Document) : Prop :=
  ∀ items ∈ doc.paths, items.names.Nodup ∧ ∀ e ∈ items, ∀ m, ∀ o ∈ e.2.operation? m,
    ∀ responses ∈ o.responses, responses.names.Nodup

theorem Document.read_keyedPaths : Document.read.Ensures Document.KeyedPaths := by
  intro room node doc h
  obtain ⟨inner, -, hkept⟩ := describe.readRecord_kept h
  simp only [slots, List.forall_mem_cons] at hkept
  obtain ⟨-, -, -, -, -, -, -, hpaths, -⟩ := hkept
  exact hpaths.optional
    (Json.Reader.Ensures.table (PathItemObject.read_operation OperationObject.read_responses))

theorem Document.keyedPaths_of_ofJson {text : String} {doc : Document}
    (h : Document.ofJson text = .ok doc) : doc.KeyedPaths :=
  Document.read_keyedPaths (Json.decode_eq_ok (Document.ofJson_inv h).1)

end ClientGen
