import ClientGen.Proofs.Document.Record
import ClientGen.Resolve.Document

/-!
# Documents that are written and read back

Every object of a document is a record: `slots` says for each part of it how it is read and as which
member it is written, and `faithful` follows. Schemas refer to themselves, so their slots are given
for any reader of schemas that is faithful, and their faithfulness is an induction over the levels
that a schema may have. The main statement is `Document.ofJson_toJson`.
-/

namespace ClientGen

open Json (Describe Keyword OpenLayout Reader Slot Value copyParts openMembers
  readOpenRecord_faithful readRecord_faithful)
open Json.Reader (bool_faithful list_faithful table_faithful text_faithful value_faithful)

/-! ## Records without schemas -/

/-- The parts of a contact. -/
def Contact.slots : List (Slot Contact) :=
  [.optional "name" text_faithful (·.name) fun c v => { c with name := v },
   .optional "url" text_faithful (·.url) fun c v => { c with url := v },
   .optional "email" text_faithful (·.email) fun c v => { c with email := v }]

/-- The parts of a contact have names of their own, do not get in each other's way, and are absent
from an empty contact. A reader that goes from part to part needs nothing else of a record. -/
theorem Contact.describe : Describe Contact.slots {} := by
  constructor <;> simp [slots]

/-- A contact is read back from what it is written as. Reader and writer list the same parts in
the same order, which is checked by evaluation, and all of a contact is in its parts. The records
below go the same two steps. -/
theorem Contact.faithful : (Json.readRecord Contact.fields {}).Faithful Contact.toValue :=
  readRecord_faithful describe rfl (fun _ => rfl) (by simp [copyParts, slots])

/-- The parts of a licence. -/
def License.slots : List (Slot License) :=
  [.optional "name" text_faithful (·.name) fun l v => { l with name := v },
   .optional "url" text_faithful (·.url) fun l v => { l with url := v }]

theorem License.describe : Describe License.slots {} := by
  constructor <;> simp [slots]

theorem License.faithful : (Json.readRecord License.fields {}).Faithful License.toValue :=
  readRecord_faithful describe rfl (fun _ => rfl) (by simp [copyParts, slots])

/-- The parts of the information about a document. -/
def InfoObject.slots : List (Slot InfoObject) :=
  [.optional "title" text_faithful (·.title) fun i v => { i with title := v },
   .optional "version" text_faithful (·.version) fun i v => { i with version := v },
   .optional "description" text_faithful (·.description) fun i v => { i with description := v },
   .optional "termsOfService" text_faithful (·.termsOfService)
     fun i v => { i with termsOfService := v },
   .optional "contact" Contact.faithful (·.contact) fun i v => { i with contact := v },
   .optional "license" License.faithful (·.license) fun i v => { i with license := v }]

theorem InfoObject.describe : Describe InfoObject.slots {} := by
  constructor <;> simp [slots]

/-- The information holds a contact and a licence, and is read back because these are. -/
theorem InfoObject.faithful : (Json.readRecord InfoObject.fields {}).Faithful InfoObject.toValue :=
  readRecord_faithful describe rfl (fun _ => rfl) (by simp [copyParts, slots])

/-- The parts of a link to documentation. -/
def ExternalDocsObject.slots : List (Slot ExternalDocsObject) :=
  [.optional "url" text_faithful (·.url) fun d v => { d with url := v },
   .optional "description" text_faithful (·.description) fun d v => { d with description := v }]

theorem ExternalDocsObject.describe : Describe ExternalDocsObject.slots {} := by
  constructor <;> simp [slots]

/-- A link is a part of tags, of operations and of documents, so that all of these rest on it. -/
theorem ExternalDocsObject.faithful :
    ExternalDocsObject.read.Faithful ExternalDocsObject.toValue :=
  readRecord_faithful describe rfl (fun _ => rfl) (by simp [copyParts, slots])

/-- The parts of a tag. -/
def TagObject.slots : List (Slot TagObject) :=
  [.optional "name" text_faithful (·.name) fun t v => { t with name := v },
   .optional "description" text_faithful (·.description) fun t v => { t with description := v },
   .optional "externalDocs" ExternalDocsObject.faithful (·.externalDocs)
     fun t v => { t with externalDocs := v }]

theorem TagObject.describe : Describe TagObject.slots {} := by
  constructor <;> simp [slots]

theorem TagObject.faithful : (Json.readRecord TagObject.fields {}).Faithful TagObject.toValue :=
  readRecord_faithful describe rfl (fun _ => rfl) (by simp [copyParts, slots])

/-- The parts of a security scheme. -/
def SecuritySchemeObject.slots : List (Slot SecuritySchemeObject) :=
  [.optional "type" text_faithful (·.type) fun s v => { s with type := v },
   .optional "description" text_faithful (·.description) fun s v => { s with description := v },
   .optional "name" text_faithful (·.name) fun s v => { s with name := v },
   .optional "in" text_faithful (·.location) fun s v => { s with location := v },
   .optional "flow" text_faithful (·.flow) fun s v => { s with flow := v },
   .optional "authorizationUrl" text_faithful (·.authorizationUrl)
     fun s v => { s with authorizationUrl := v },
   .optional "tokenUrl" text_faithful (·.tokenUrl) fun s v => { s with tokenUrl := v },
   .table "scopes" text_faithful (·.scopes) fun s v => { s with scopes := v }]

theorem SecuritySchemeObject.describe : Describe SecuritySchemeObject.slots {} := by
  constructor <;> simp [slots]

/-- The scopes are a table, which is left out where it is empty; a scheme without scopes is read
back all the same, as an absent table is an empty one. -/
theorem SecuritySchemeObject.faithful :
    (Json.readRecord SecuritySchemeObject.fields {}).Faithful SecuritySchemeObject.toValue :=
  readRecord_faithful describe rfl (fun _ => rfl) (by simp [copyParts, slots])

/-- A list of texts that may be absent as a whole. An empty one is written, since an operation that
consumes nothing is not one that takes over what the document says. -/
theorem textsValue_faithful : (Reader.list .text).Faithful textsValue := list_faithful text_faithful

/-- Requirements are lists of tables of lists. They may be absent as well, and an empty list of
them is kept apart from that. -/
theorem requirementsValue_faithful : readRequirements.Faithful requirementsValue :=
  list_faithful (table_faithful textsValue_faithful)

/-! ## Validation keywords -/

/-- A keyword is read back if its value is written as a value that it is taken from again. -/
theorem keyword_faithful {β : Type} {of? : Value → Option β} {write : β → Value}
    (hnull : ∀ b, write b ≠ .null)
    (h : ∀ {room : ℕ} {v : Value} {b : β}, v.Fits room → of? v = some b →
      (write b).Fits room ∧ Value.ofNode room (write b).node = .ok (write b) ∧
        of? (write b) = some b) :
    (Reader.keyword of?).Faithful write := by
  have hread {room : ℕ} {node : Json.Node} {b : β} (hb : Reader.keyword of? room node = .ok b) :
      (write b).Fits room ∧ Value.ofNode room (write b).node = .ok (write b) ∧
        of? (write b) = some b := by
    obtain ⟨v, hv, hb⟩ := bind_eq_ok hb
    refine h (Value.ofNode_eq_ok hv).2 ?_
    split at hb
    case h_1 b' hb' => exact pure_eq_ok hb ▸ hb'
    case h_2 => cases hb
  refine ⟨fun hb => ?_, fun _ _ => hnull _, fun hb => (hread hb).1⟩
  obtain ⟨-, hnode, hof⟩ := hread hb
  rw [Reader.keyword_of_ofNode hnode, hof]

theorem textKeyword_faithful : (Reader.keyword textKeyword?).Faithful Value.text :=
  keyword_faithful (fun _ => nofun) fun _ _ =>
    ⟨by rw [Value.Fits]; trivial, by rw [Value.node, Value.ofNode], rfl⟩

theorem boolKeyword_faithful : (Reader.keyword boolKeyword?).Faithful Value.bool :=
  keyword_faithful (fun _ => nofun) fun _ _ =>
    ⟨by rw [Value.Fits]; trivial, by rw [Value.node, Value.ofNode], rfl⟩

/-- A number that can be written is canonical as a double. Only canonical doubles are read back from
their digits, so that this is what limits are kept by. -/
theorem canonical_toDouble {n : Json.Number} (h : n.Sound) : n.toDouble.Canonical := by
  cases n with
  | whole n =>
    rw [Json.Number.toDouble]
    cases hx : Double.ofInt? n with
    | none => exact Double.canonical_zero false
    | some x => exact Double.canonical_of_ofDecimal? hx
  | real x => exact h

/-- A limit is kept as a double: `5` is written as `5.0`, which is another text, but it is read as
the same limit. -/
theorem doubleKeyword_faithful : (Reader.keyword doubleKeyword?).Faithful doubleValue := by
  refine keyword_faithful (fun _ => nofun) fun {room v x} hfits hx => ?_
  cases v with
  | number n =>
    obtain rfl := Option.some.inj hx
    rw [Value.Fits] at hfits
    have hsound : Json.Number.Sound (.real n.toDouble) := canonical_toDouble hfits
    obtain ⟨hfits, hnode⟩ := Value.ofNode_number hsound room
    exact ⟨hfits, hnode, rfl⟩
  | _ => cases hx

/-- A length is kept as a natural number. It was a whole number that is not negative, and nothing
else is taken for one, so that the number that is written is taken again. -/
theorem naturalKeyword_faithful : (Reader.keyword naturalKeyword?).Faithful naturalValue := by
  refine keyword_faithful (fun _ => nofun) fun {room v k} hfits hk => ?_
  cases v with
  | number n =>
    cases n with
    | whole n =>
      rw [Value.Fits] at hfits
      have hn : 0 ≤ n ∧ n.toNat = k := by
        rw [naturalKeyword?, Json.Number.toNat?] at hk
        split at hk
        case isTrue hn => exact ⟨hn, Option.some.inj hk⟩
        case isFalse => cases hk
      have hk : (k : ℤ) = n := by omega
      have hsound : Json.Number.Sound (.whole k) := hk ▸ hfits
      obtain ⟨hfits, hnode⟩ := Value.ofNode_number hsound room
      refine ⟨hfits, hnode, ?_⟩
      rw [naturalValue, naturalKeyword?, Json.Number.toNat?, if_pos (Int.natCast_nonneg k),
        Int.toNat_natCast]
    | real x => cases hk
  | _ => cases hk

/-- The validation keywords as parts. -/
def Validation.slots : List (Slot Validation) :=
  [.optional "maximum" doubleKeyword_faithful (·.maximum) fun k v => { k with maximum := v },
   .optional "exclusiveMaximum" boolKeyword_faithful (·.exclusiveMaximum)
     fun k v => { k with exclusiveMaximum := v },
   .optional "minimum" doubleKeyword_faithful (·.minimum) fun k v => { k with minimum := v },
   .optional "exclusiveMinimum" boolKeyword_faithful (·.exclusiveMinimum)
     fun k v => { k with exclusiveMinimum := v },
   .optional "maxLength" naturalKeyword_faithful (·.maxLength) fun k v => { k with maxLength := v },
   .optional "minLength" naturalKeyword_faithful (·.minLength) fun k v => { k with minLength := v },
   .optional "pattern" textKeyword_faithful (·.pattern) fun k v => { k with pattern := v },
   .optional "maxItems" naturalKeyword_faithful (·.maxItems) fun k v => { k with maxItems := v },
   .optional "minItems" naturalKeyword_faithful (·.minItems) fun k v => { k with minItems := v },
   .optional "uniqueItems" boolKeyword_faithful (·.uniqueItems)
     fun k v => { k with uniqueItems := v },
   .optional "multipleOf" doubleKeyword_faithful (·.multipleOf)
     fun k v => { k with multipleOf := v }]

theorem Validation.describe : Describe Validation.slots {} := by
  constructor <;> simp [slots]

theorem Validation.whole (k : Validation) : copyParts Validation.slots k {} = k := by
  simp [copyParts, slots]

/-- Keywords are taken out of a buffer at the end of an object, and not read as fields are. A
keyword takes what the field of its slot would take, so that the slots describe the keywords too. -/
theorem Validation.keywords_like :
    Validation.keywords.Forall₂ Keyword.Like (Validation.slots.map Slot.field) := by
  simp only [keywords, slots, List.map_cons, List.map_nil]
  repeat refine .cons (Keyword.optional_like ..) ?_
  exact .nil

/-! ## Schemas -/

/-- The parts inside a schema are values already when its members are written, as writing goes by
recursion. The two lemmas say that this is how slots write them. -/
theorem member_map {β : Type} (name : String) (write : β → Value) (b : Option β) :
    member name id (b.map write) = member name write b := by
  cases b <;> rfl

theorem tableMember_map {β : Type} (name : String) (write : β → Value) (t : Table β) :
    tableMember name id (t.map fun e => (e.1, write e.2)) = tableMember name write t := by
  simp [tableMember, tableValue, Function.comp_def]

/-- `additionalProperties` as a value. -/
def Additional.toValue : Additional SchemaObject → Value
  | .allowed b => .bool b
  | .schema s => s.toValue

/-- Inversion for `additionalProperties`. -/
theorem Additional.read_eq_ok {schema : Reader SchemaObject} {room : ℕ} {node : Json.Node}
    {a : Additional SchemaObject}
    (h : Additional.read schema room node = .ok a) :
    (∃ b, node = .bool b ∧ a = .allowed b) ∨ ∃ s, schema room node = .ok s ∧ a = .schema s := by
  obtain ⟨v, -, h⟩ := bind_eq_ok h
  split at h
  case h_1 b _ => exact .inl ⟨b, rfl, (pure_eq_ok h).symm⟩
  case h_2 =>
    split at h
    case h_1 s hs => exact .inr ⟨s, hs, (pure_eq_ok h).symm⟩
    case h_2 => cases h

/-- `additionalProperties` are tried as a truth value first, so that a schema is read only from what
is none. -/
theorem Additional.read_schema {schema : Reader SchemaObject} {room : ℕ} {node : Json.Node}
    {v : Value} {s : SchemaObject}
    (hv : Value.ofNode room node = .ok v) (hnode : ∀ b, node ≠ .bool b)
    (hs : schema room node = .ok s) : Additional.read schema room node = .ok (.schema s) := by
  rw [Additional.read, hv, hs]
  · rfl
  · exact hnode

namespace SchemaObject

theorem propertyValues_eq (properties : List (String × SchemaObject)) :
    propertyValues properties = properties.map fun e => (e.1, e.2.toValue) := by
  induction properties with
  | nil => rfl
  | cons e properties ih => rw [propertyValues, ih, List.map_cons]

theorem additionalValue_eq (additional : Option (Additional SchemaObject)) :
    additionalValue additional = additional.map Additional.toValue := by
  rcases additional with _ | _ | _ <;> rfl

theorem itemsValue_eq (items : Option SchemaObject) : itemsValue items = items.map toValue := by
  cases items <;> rfl

variable {schema : Reader SchemaObject}

/-- A schema is never written as a truth value, for which `additionalProperties` would be taken. -/
theorem node_ne_bool (s : SchemaObject) (b : Bool) : s.toValue.node ≠ .bool b := by
  obtain ⟨head, properties, additional, items⟩ := s
  rw [toValue, objectOf, Value.node]
  intro h
  cases h

/-- `additionalProperties` are a truth value or a schema, and what is written tells which it was. -/
theorem additional_faithful (h : schema.Faithful toValue) :
    (Additional.read schema).Faithful Additional.toValue := by
  refine ⟨fun {room node a} ha => ?_, fun {room node a} ha hnode => ?_, fun {room node a} ha => ?_⟩
  all_goals rcases Additional.read_eq_ok ha with ⟨b, rfl, rfl⟩ | ⟨s, hs, rfl⟩
  · exact ha
  · obtain ⟨v, hv⟩ := Value.exists_ofNode (h.fits hs)
    exact Additional.read_schema hv (node_ne_bool s) (h.again hs)
  · exact nofun
  · exact h.ne_null hs hnode
  · rw [Additional.toValue, Value.Fits]
    trivial
  · exact h.fits hs

/-- The parts of a schema before its validation keywords, given a reader of the schemas inside
it. -/
def firstSlots (h : schema.Faithful toValue) : List (Slot SchemaObject) :=
  [.optional "$ref" text_faithful (·.head.reference) fun s v => { s with head.reference := v },
   .optional "type" text_faithful (·.head.type) fun s v => { s with head.type := v },
   .optional "format" text_faithful (·.head.format) fun s v => { s with head.format := v },
   .optional "title" text_faithful (·.head.title) fun s v => { s with head.title := v },
   .optional "description" text_faithful (·.head.description)
     fun s v => { s with head.description := v },
   .optional "default" value_faithful (·.head.default) fun s v => { s with head.default := v },
   .table "properties" h (·.properties) fun s v => { s with properties := v },
   .list "required" text_faithful (·.head.required) fun s v => { s with head.required := v },
   .optional "additionalProperties" (additional_faithful h) (·.additional)
     fun s v => { s with additional := v },
   .optional "items" h (·.items) fun s v => { s with items := v },
   .optional "collectionFormat" text_faithful (·.head.collectionFormat)
     fun s v => { s with head.collectionFormat := v },
   .list "enum" value_faithful (·.head.enum) fun s v => { s with head.enum := v }]

/-- The parts of a schema after its validation keywords. -/
def lastSlots : List (Slot SchemaObject) :=
  [.optional "discriminator" text_faithful (·.head.discriminator)
     fun s v => { s with head.discriminator := v },
   .optional "readOnly" bool_faithful (·.head.readOnly) fun s v => { s with head.readOnly := v },
   .optional "example" value_faithful (·.head.sample) fun s v => { s with head.sample := v }]

theorem describe (h : schema.Faithful toValue) :
    Describe (firstSlots h ++ lastSlots) .empty := by
  constructor <;> simp [firstSlots, lastSlots, empty]
  -- schemas are recursive, so a schema is the record of its parts only once it is taken apart
  rintro ⟨⟩
  rfl

/-- A schema is an open record: the validation keywords stand between its other parts and are read
last. The reader of the schemas inside is any one that is faithful, as it is the reader of one level
less in the induction below. -/
theorem layout (h : schema.Faithful toValue) :
    OpenLayout (firstSlots h) lastSlots .empty Validation.keywords Validation.slots {}
      (fun s k => { s with head.validation := k }) (·.head.validation) where
  describe := describe h
  describe_group := Validation.describe
  like := Validation.keywords_like
  apart := by simp [Validation.slots, firstSlots, lastSlots]
  get_join := by simp [firstSlots, lastSlots]
  part_join _ _ := rfl
  whole := by
    rintro ⟨⟩
    simp [copyParts, firstSlots, lastSlots, empty]
  whole_group := Validation.whole

theorem members_eq (h : schema.Faithful toValue) (s : SchemaObject) :
    s.head.members (propertyValues s.properties) (additionalValue s.additional)
      (itemsValue s.items) =
        openMembers (firstSlots h) lastSlots Validation.slots (·.head.validation) s := by
  rw [SchemaHead.members, propertyValues_eq, additionalValue_eq, itemsValue_eq, member_map,
    member_map, tableMember_map]
  rfl

/-- Schemas are written by recursion, and records slot by slot. The two agree for any faithful
reader of the schemas inside, whichever levels it has. -/
theorem toValue_eq (h : schema.Faithful toValue) :
    toValue = fun s =>
      objectOf (openMembers (firstSlots h) lastSlots Validation.slots (·.head.validation) s) := by
  funext ⟨head, properties, additional, items⟩
  rw [toValue, ← members_eq h]

/-- Schemas are read back, however many levels they may have. -/
theorem readWithin_faithful (levels : ℕ) : (readWithin levels).Faithful toValue := by
  induction levels with
  | zero => exact ⟨nofun, nofun, nofun⟩
  | succ levels ih =>
    rw [toValue_eq ih]
    exact readOpenRecord_faithful (layout ih) rfl fun _ => rfl

/-- The reader of schemas has as many levels as there is room for objects, which differs from place
to place. It is faithful since each number of levels is. -/
theorem faithful : read.Faithful toValue where
  again := (readWithin_faithful _).again
  ne_null := (readWithin_faithful _).ne_null
  fits := (readWithin_faithful _).fits

end SchemaObject

/-! ## Parameters, responses, operations, documents -/

/-- The parts of a parameter. -/
def ParameterObject.slots : List (Slot ParameterObject) :=
  [.optional "$ref" text_faithful (·.reference) fun p v => { p with reference := v },
   .optional "name" text_faithful (·.name) fun p v => { p with name := v },
   .optional "in" text_faithful (·.location) fun p v => { p with location := v },
   .optional "description" text_faithful (·.description) fun p v => { p with description := v },
   .optional "required" bool_faithful (·.required) fun p v => { p with required := v },
   .optional "schema" SchemaObject.faithful (·.schema) fun p v => { p with schema := v },
   .optional "type" text_faithful (·.type) fun p v => { p with type := v },
   .optional "format" text_faithful (·.format) fun p v => { p with format := v },
   .optional "items" SchemaObject.faithful (·.items) fun p v => { p with items := v },
   .optional "collectionFormat" text_faithful (·.collectionFormat)
     fun p v => { p with collectionFormat := v },
   .optional "default" value_faithful (·.default) fun p v => { p with default := v },
   .list "enum" value_faithful (·.enum) fun p v => { p with enum := v },
   .optional "allowEmptyValue" bool_faithful (·.allowEmptyValue)
     fun p v => { p with allowEmptyValue := v }]

/-- A parameter is an open record as well, with its keywords after all other parts. -/
theorem ParameterObject.layout :
    OpenLayout ParameterObject.slots [] {} Validation.keywords Validation.slots {}
      (fun p k => { p with validation := k }) (·.validation) where
  describe := by constructor <;> simp [slots]
  describe_group := Validation.describe
  like := Validation.keywords_like
  apart := by simp [Validation.slots, slots]
  get_join := by simp [slots]
  part_join _ _ := rfl
  whole := by simp [copyParts, slots]
  whole_group := Validation.whole

theorem ParameterObject.faithful : ParameterObject.read.Faithful ParameterObject.toValue :=
  readOpenRecord_faithful layout rfl fun _ => rfl

/-- The parts of a response. -/
def ResponseObject.slots : List (Slot ResponseObject) :=
  [.optional "$ref" text_faithful (·.reference) fun r v => { r with reference := v },
   .optional "description" text_faithful (·.description) fun r v => { r with description := v },
   .optional "schema" SchemaObject.faithful (·.schema) fun r v => { r with schema := v },
   .table "headers" SchemaObject.faithful (·.headers) fun r v => { r with headers := v },
   .table "examples" value_faithful (·.examples) fun r v => { r with examples := v }]

theorem ResponseObject.describe : Describe ResponseObject.slots {} := by
  constructor <;> simp [slots]

theorem ResponseObject.faithful : ResponseObject.read.Faithful ResponseObject.toValue :=
  readRecord_faithful describe rfl (fun _ => rfl) (by simp [copyParts, slots])

/-- The parts of an operation. -/
def OperationObject.slots : List (Slot OperationObject) :=
  [.optional "operationId" text_faithful (·.operationId) fun o v => { o with operationId := v },
   .optional "summary" text_faithful (·.summary) fun o v => { o with summary := v },
   .optional "description" text_faithful (·.description) fun o v => { o with description := v },
   .list "tags" text_faithful (·.tags) fun o v => { o with tags := v },
   .optional "consumes" textsValue_faithful (·.consumes) fun o v => { o with consumes := v },
   .optional "produces" textsValue_faithful (·.produces) fun o v => { o with produces := v },
   .list "parameters" ParameterObject.faithful (·.parameters)
     fun o v => { o with parameters := v },
   .optional "responses" (table_faithful ResponseObject.faithful) (·.responses)
     fun o v => { o with responses := v },
   .list "schemes" text_faithful (·.schemes) fun o v => { o with schemes := v },
   .optional "deprecated" bool_faithful (·.deprecated) fun o v => { o with deprecated := v },
   .optional "security" requirementsValue_faithful (·.security) fun o v => { o with security := v },
   .optional "externalDocs" ExternalDocsObject.faithful (·.externalDocs)
     fun o v => { o with externalDocs := v }]

theorem OperationObject.describe : Describe OperationObject.slots {} := by
  constructor <;> simp [slots]

theorem OperationObject.faithful : OperationObject.read.Faithful OperationObject.toValue :=
  readRecord_faithful describe rfl (fun _ => rfl) (by simp [copyParts, slots])

/-- The parts of a path item. -/
def PathItemObject.slots : List (Slot PathItemObject) :=
  [.list "parameters" ParameterObject.faithful (·.parameters) fun i v => { i with parameters := v },
   .optional "get" OperationObject.faithful (·.get) fun i v => { i with get := v },
   .optional "put" OperationObject.faithful (·.put) fun i v => { i with put := v },
   .optional "post" OperationObject.faithful (·.post) fun i v => { i with post := v },
   .optional "delete" OperationObject.faithful (·.delete) fun i v => { i with delete := v },
   .optional "options" OperationObject.faithful (·.options) fun i v => { i with options := v },
   .optional "head" OperationObject.faithful (·.head) fun i v => { i with head := v },
   .optional "patch" OperationObject.faithful (·.patch) fun i v => { i with patch := v }]

theorem PathItemObject.describe : Describe PathItemObject.slots {} := by
  constructor <;> simp [slots]

theorem PathItemObject.faithful :
    (Json.readRecord PathItemObject.fields {}).Faithful PathItemObject.toValue :=
  readRecord_faithful describe rfl (fun _ => rfl) (by simp [copyParts, slots])

/-- The parts of a document. -/
def Document.slots : List (Slot Document) :=
  [.optional "swagger" text_faithful (·.swagger) fun d v => { d with swagger := v },
   .optional "info" InfoObject.faithful (·.info) fun d v => { d with info := v },
   .optional "host" text_faithful (·.host) fun d v => { d with host := v },
   .optional "basePath" text_faithful (·.basePath) fun d v => { d with basePath := v },
   .list "schemes" text_faithful (·.schemes) fun d v => { d with schemes := v },
   .list "consumes" text_faithful (·.consumes) fun d v => { d with consumes := v },
   .list "produces" text_faithful (·.produces) fun d v => { d with produces := v },
   .optional "paths" (table_faithful PathItemObject.faithful) (·.paths)
     fun d v => { d with paths := v },
   .table "definitions" SchemaObject.faithful (·.definitions)
     fun d v => { d with definitions := v },
   .table "parameters" ParameterObject.faithful (·.parameters)
     fun d v => { d with parameters := v },
   .table "responses" ResponseObject.faithful (·.responses) fun d v => { d with responses := v },
   .table "securityDefinitions" SecuritySchemeObject.faithful (·.securityDefinitions)
     fun d v => { d with securityDefinitions := v },
   .optional "security" requirementsValue_faithful (·.security) fun d v => { d with security := v },
   .list "tags" TagObject.faithful (·.tags) fun d v => { d with tags := v },
   .optional "externalDocs" ExternalDocsObject.faithful (·.externalDocs)
     fun d v => { d with externalDocs := v }]

theorem Document.describe : Describe Document.slots {} := by
  constructor <;> simp [slots]

/-- **Every part of a document is read back**, as all the records in it are. -/
theorem Document.faithful : Document.read.Faithful Document.toValue :=
  readRecord_faithful describe rfl (fun _ => rfl) (by simp [copyParts, slots])

/-! ## Texts -/

/-- Inversion for reading a document. -/
theorem Document.ofJson_inv {text : String} {doc : Document}
    (h : Document.ofJson text = .ok doc) :
    Json.decode Document.read text = .ok doc ∧ doc.checkVersion = .ok () := by
  obtain ⟨doc', hread, h⟩ := bind_eq_ok h
  obtain ⟨⟨⟩, hversion, h⟩ := bind_eq_ok h
  obtain rfl := pure_eq_ok h
  exact ⟨mapError_eq_ok hread, hversion⟩

/-- **Round trip.** A document that was read is written as a text that is read as the same document,
and so written as the same text again. -/
theorem Document.ofJson_toJson {text : String} {doc : Document}
    (h : Document.ofJson text = .ok doc) :
    Document.ofJson doc.toJson = .ok doc ∧
      (Document.ofJson doc.toJson).map Document.toJson = .ok doc.toJson := by
  obtain ⟨hread, hversion⟩ := Document.ofJson_inv h
  have hdecode : Json.decode Document.read doc.toJson = .ok doc :=
    Json.decode_compact Document.faithful hread
  have hagain : Document.ofJson doc.toJson = .ok doc := by
    rw [Document.ofJson, hdecode]
    change (doc.checkVersion >>= fun _ => pure doc) = _
    rw [hversion]
    rfl
  exact ⟨hagain, by rw [hagain]; rfl⟩

/-- A document with its members in no order, a record as an array and a free value whose members are
not sorted. -/
def tagsText : String :=
  "\x7b\"externalDocs\":[\"u\",null],\"definitions\":\x7b\"Tag\":\x7b\"maximum\":5e-1," ++
  "\"example\":\x7b\"b\":1,\"a\":[]\x7d\x7d\x7d,\"swagger\":\"2.0\"\x7d"

/-- The document as it is written. -/
def tagsWritten : String :=
  "\x7b\"swagger\":\"2.0\",\"definitions\":\x7b\"Tag\":\x7b\"maximum\":0.5," ++
  "\"example\":\x7b\"a\":[],\"b\":1\x7d\x7d\x7d,\"externalDocs\":\x7b\"url\":\"u\"\x7d\x7d"

/-- The document is read from either text. -/
theorem Document.ofJson_toJson_tags :
    ∃ doc, Document.ofJson tagsText = .ok doc ∧ doc.toJson = tagsWritten ∧
      Document.ofJson tagsWritten = .ok doc := by
  have hwritten : (Document.ofJson tagsText).toOption.map Document.toJson = some tagsWritten := by
    decide +kernel
  obtain ⟨doc, hdoc, hjson⟩ := Option.map_eq_some_iff.mp hwritten
  have hread := eq_ok_of_toOption hdoc
  exact ⟨doc, hread, hjson, hjson ▸ (Document.ofJson_toJson hread).1⟩

end ClientGen
