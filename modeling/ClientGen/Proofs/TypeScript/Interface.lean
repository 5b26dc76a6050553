import ClientGen.Proofs.Name.Identifier
import ClientGen.Proofs.Resolve.Merged
import ClientGen.Proofs.Text.Literal
import ClientGen.Proofs.TypeScript.Scope

/-!
# Keys of interfaces

A field of an interface has a key, which the language reads as a name: a bare identifier as it is,
and a literal as the string it stands for. What is sent is that name, so it has to be the name in
the document.

* **Keys** (`readKey?_fieldName`): the key of a name is read as the name, bare or quoted. A bare
  key has no quote in front, so it is not taken for a literal.
* **Fields** (`keyNames_of_declare`): an interface has a field for each property of its definition,
  or for each parameter of its operation.
* **Names** (`nodup_wireNames`): these have distinct names, since properties come from a table and
  parameters are refused otherwise.

`interface_keysDenote` is the main statement.
-/

namespace ClientGen.TypeScript

open Text (readLiteral?)

/-! ## Keys -/

/-- An identifier in ASCII: letters, digits, `_` and `$`, with no digit in front. -/
def isIdentifierName (s : List Char) : Bool :=
  !s.isEmpty && !s.head?.any Char.isDigit && s.all fun c => c.isAlphanum || c = '_' || c = '$'

/-- The name that a key stands for. -/
def readKey? (key : String) : Option String :=
  if key.toList.head? = some '"' then readLiteral? literalRules key
  else if isIdentifierName key.toList then some key
  else none

/-- What a bare key starts with is no digit and no quote. -/
theorem of_isKeyStart {c : Char} (h : isKeyStart c = true) : c.isDigit = false ∧ c ≠ '"' := by
  simp only [isKeyStart, Bool.or_eq_true, decide_eq_true_eq] at h
  rcases h with (halpha | rfl) | rfl
  · have hlookup := Name.of_isIdentifierChar
      (p := fun c => !c.isAlpha || decide (c.isDigit = false ∧ c ≠ '"')) (by decide)
      (show Name.isIdentifierChar c = true by simp [Name.isIdentifierChar, Char.isAlphanum, halpha])
    simpa [halpha] using hlookup
  · decide
  · decide

theorem isIdentifierName_of_isBareKey {s : List Char} (h : isBareKey s = true) :
    isIdentifierName s = true ∧ s.head? ≠ some '"' := by
  cases s with
  | nil => cases h
  | cons c s =>
    obtain ⟨hstart, hs⟩ := Bool.and_eq_true_iff.mp h
    obtain ⟨hdigit, hquote⟩ := of_isKeyStart hstart
    have hc : c.isAlphanum = true ∨ c = '_' ∨ c = '$' := by
      simp only [isKeyStart, Bool.or_eq_true, decide_eq_true_eq, or_assoc] at hstart
      exact hstart.imp_left fun halpha => by simp [Char.isAlphanum, halpha]
    refine ⟨?_, by simpa using hquote⟩
    simp only [isKeyChar, List.all_eq_true, Bool.or_eq_true, decide_eq_true_eq] at hs
    simpa [isIdentifierName, hdigit, or_assoc] using ⟨hc, by simpa [or_assoc] using hs⟩

/-- **The key of a name is read as the name.** -/
theorem readKey?_fieldName (name : String) : readKey? (fieldName name) = some name := by
  rw [fieldName]
  split
  · next hbare =>
    obtain ⟨hident, hquote⟩ := isIdentifierName_of_isBareKey hbare
    rw [readKey?, if_neg hquote, if_pos hident]
  · have hquote : (stringLiteral name).toList.head? = some '"' := by
      simp [stringLiteral, Json.quote, Json.quoteChars]
    rw [readKey?, if_pos hquote, readLiteral?_stringLiteral]

/-! ## Fields -/

/-- The names in the document that the fields of a declaration stand for: those of the properties
of an object, or of the parameters of an operation. -/
def Declaration.wireNames : Declaration → List String
  | .definition _ schema => schema.propertyNames
  | .companion _ _ => []
  | .request _ _ parameters => parameters.map (·.name)

/-- What the keys of fields are read as. -/
def keyNames (fields : List FieldDecl) : List (Option String) :=
  fields.map fun field => readKey? field.name

variable {scope : Scope} {d : Declaration} {name context : String} {description : Option String}
  {fields : List FieldDecl} {index : Option TypeExpr}

theorem Scope.name_propertyField {p : Property Schema} {field : FieldDecl}
    (h : scope.propertyField name context p = .ok field) : field.name = fieldName p.name := by
  obtain ⟨type, -, h⟩ := bind_eq_ok h
  obtain rfl := pure_eq_ok h
  rfl

theorem Scope.name_parameterField {p : Parameter} {field : FieldDecl}
    (h : scope.parameterField context p = .ok field) : field.name = fieldName p.name := by
  obtain ⟨type, -, h⟩ := bind_eq_ok h
  obtain rfl := pure_eq_ok h
  rfl

/-- Fields that have the keys of names are read as these names, in their order. -/
theorem keyNames_of_mapM {α : Type} {f : α → Except EmitError FieldDecl} {nameOf : α → String}
    {l : List α} (h : l.mapM f = .ok fields)
    (hf : ∀ {a field}, f a = .ok field → field.name = fieldName (nameOf a)) :
    keyNames fields = (l.map nameOf).map some := by
  rw [List.map_map]
  refine map_eq_of_mapM h fun {a field} hfield => ?_
  rw [hf hfield, readKey?_fieldName, Function.comp_apply]

/-- **An interface has the fields of its declaration**, whichever scope it is declared in. -/
theorem keyNames_of_declare (h : scope.declare d = .ok (.interface name description fields index)) :
    keyNames fields = d.wireNames.map some := by
  cases Scope.declares_of_declare h with
  | request hfields => exact keyNames_of_mapM hfields Scope.name_parameterField
  | object hfields _ => exact keyNames_of_mapM hfields Scope.name_propertyField

/-! ## Names -/

variable {doc : Document} {spec : Specification}

/-- The parameters that an operation takes have distinct names. -/
theorem nodup_parameterNames (h : doc.Parts spec) {item : PathItem} {op : Operation}
    (hop : (item, op) ∈ spec.operations) : ((item.effectiveParameters op).map (·.name)).Nodup := by
  obtain ⟨made, hmade, hpair⟩ := List.mem_flatMap.mp hop
  obtain ⟨o, ho, hpair⟩ := List.mem_map.mp hpair
  obtain ⟨rfl, rfl⟩ := Prod.mk.inj hpair
  obtain ⟨items, -, hall⟩ := h.items_made
  obtain ⟨entry, -, hresolve⟩ := exists_left_of_forall₂ hall hmade
  exact PathItemObject.names_nodup hresolve ho

/-- The properties of a definition have distinct names. -/
theorem nodup_propertyNames (hkeyed : spec.Keyed) {raw : String} {schema : Schema}
    (hmem : (raw, schema) ∈ spec.definitions) : schema.propertyNames.Nodup := by
  refine hkeyed schema (List.mem_flatMap.mpr ⟨schema, ?_, ?_⟩)
  · exact List.mem_append_left _ (List.mem_append_left _ (List.mem_map_of_mem hmem))
  · cases schema <;> simp [Schema.nodes]

/-- **What a specification wants to declare has fields of distinct names.** -/
theorem nodup_wireNames (h : doc.Parts spec) (hkeyed : spec.Keyed) (hd : d ∈ planned spec) :
    d.wireNames.Nodup := by
  rcases List.mem_append.mp hd with hd | hd
  · obtain ⟨⟨raw, schema⟩, hmem, hd⟩ := List.mem_flatMap.mp hd
    simp only [planDefinition] at hd
    split at hd
    · cases hd
    · rcases List.mem_cons.mp hd with rfl | hd
      · exact nodup_propertyNames hkeyed hmem
      · split at hd
        · obtain ⟨_, -, p, -, -, rfl⟩ := mem_companions.mp hd
          exact List.nodup_nil
        · cases hd
  · obtain ⟨⟨item, op⟩, hop, hd⟩ := List.mem_filterMap.mp hd
    simp only at hd
    split at hd
    · cases hd
    · cases hd
      exact nodup_parameterNames h hop

/-! ## Interfaces -/

/-- The keys of every interface that is declared for a definition or the parameters of an operation
are read as the names in the document, in their order, and these are distinct. -/
def KeysDenote (spec : Specification) : Prop :=
  ∀ (scope : Scope), ∀ d ∈ planned spec, ∀ name description fields index,
    scope.declare d = .ok (.interface name description fields index) →
      name = d.name ∧ keyNames fields = d.wireNames.map some ∧ (keyNames fields).Nodup

theorem keysDenote_of_parts (h : doc.Parts spec) (hkeyed : spec.Keyed) : KeysDenote spec := by
  intro scope d hd name description fields index hdeclare
  have hkeys := keyNames_of_declare hdeclare
  refine ⟨Scope.name_declare hdeclare, hkeys, ?_⟩
  rw [hkeys]
  exact (nodup_wireNames h hkeyed hd).map (Option.some_injective _)

/-- **Keys denote the names that are sent.** Whatever document is resolved, if the properties of its
schemas are tables, the keys of its interfaces are read as the names in the document, and no
interface has two keys that are read alike. A document that is read from a text has such tables. -/
theorem interface_keysDenote (sourceId : String) :
    (∀ (doc : Document) (spec : Specification), (doc.resolve sourceId).outcome = .ok spec →
      doc.Keyed → KeysDenote spec) ∧
    ∀ (text : String) (spec : Specification),
      (Specification.parse sourceId text).outcome = .ok spec → KeysDenote spec := by
  have hdocument (doc : Document) (spec : Specification)
      (h : (doc.resolve sourceId).outcome = .ok spec) (hkeyed : doc.Keyed) : KeysDenote spec :=
    have hparts := Document.resolve_parts h
    keysDenote_of_parts hparts (hparts.nodes_made.keyed hkeyed)
  refine ⟨hdocument, fun text spec h => ?_⟩
  rw [Specification.parse, Checked.outcome_bind] at h
  obtain ⟨doc, hread, h⟩ := bind_eq_ok h
  exact hdocument doc spec h (Document.keyed_of_ofJson hread)

/-- Labels by names that are no identifiers, and an operation that takes a header and a label. -/
def labels : Document where
  swagger := some "2.0"
  info := some { title := some "Labels", version := some "1" }
  paths := some [("/labels/\x7bid\x7d", {
    parameters := [{ name := some "id", location := some "path", type := some "string" }]
    get := some {
      parameters := [{ name := some "X-Tag", location := some "header", type := some "string" }]
      responses := some [("204", { description := some "Nothing." })] } })]
  definitions := [("Label", { SchemaObject.empty with properties := [
    ("$id", SchemaObject.empty), ("2nd", SchemaObject.empty),
    ("say \"a\"\n", SchemaObject.empty)] })]

/-- The keys of the interfaces of a specification. -/
def interfaceKeys (spec : Specification) : List (List String) :=
  (planned spec).filterMap fun d =>
    match Scope.declare ⟨spec.definitions, moduleName spec, []⟩ d with
    | .ok (.interface _ _ fields _) => some (fields.map (·.name))
    | _ => none

/-- Keys are quoted where they have to be. The notes have a property of one name twice, and one key
for it. -/
theorem interface_keysDenote_labels :
    (labels.Keyed ∧ ∃ spec, (labels.resolve "labels.json").outcome = .ok spec ∧
      interfaceKeys spec = [["$id", "\"2nd\"", "\"say \\\"a\\\"\\n\""], ["id", "\"X-Tag\""]] ∧
      KeysDenote spec) ∧
    ∃ spec, (Specification.parse "notes.json" notesText).outcome = .ok spec ∧
      interfaceKeys spec = [["a"]] ∧ KeysDenote spec := by
  have hkeyed : labels.Keyed := by
    unfold Document.Keyed
    decide
  have hlabels : (labels.resolve "labels.json").outcome.toOption.map interfaceKeys =
      some [["$id", "\"2nd\"", "\"say \\\"a\\\"\\n\""], ["id", "\"X-Tag\""]] := by decide +kernel
  have hnotes : (Specification.parse "notes.json" notesText).outcome.toOption.map interfaceKeys =
      some [["a"]] := by decide +kernel
  obtain ⟨labelsSpec, hlabels, hkeys⟩ := Option.map_eq_some_iff.mp hlabels
  obtain ⟨notesSpec, hnotes, hnoteKeys⟩ := Option.map_eq_some_iff.mp hnotes
  have hlabels := eq_ok_of_toOption hlabels
  have hnotes := eq_ok_of_toOption hnotes
  exact ⟨⟨hkeyed, labelsSpec, hlabels, hkeys,
      (interface_keysDenote "labels.json").1 labels labelsSpec hlabels hkeyed⟩,
    notesSpec, hnotes, hnoteKeys,
    (interface_keysDenote "notes.json").2 notesText notesSpec hnotes⟩

end ClientGen.TypeScript
