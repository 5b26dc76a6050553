import ClientGen.Proofs.Emission.Uniqueness
import ClientGen.Proofs.Name.Normalize

/-!
# Legal names of types

A type name is an identifier that is no reserved word, or a reserved word after an `@`, or it is the
type of any value (`isLegalName_typeName_iff`). The type of any value is a reserved word, and a type
must not be declared under it.

Definitions that go by that name are not declared. Titles and the places of nameless schemas are not
looked at, and what they name is declared whatever its name (`not_namesLegal_object`).
`AvoidsAny` says of a specification that they do not go by that name: it is what legal names take,
and all that they take (`names_legal`).
-/

namespace ClientGen.CSharp

open Name (isIdentifier)

/-! ## Names -/

/-- A name that a type may be declared under: an identifier that is no reserved word, or a reserved
word after an `@`. -/
def IsLegalName (name : String) : Prop :=
  (isIdentifier name.toList = true ∧ name ∉ keywords) ∨ ∃ word ∈ keywords, name = "@" ++ word

instance : DecidablePred IsLegalName := fun _ => inferInstanceAs (Decidable (_ ∨ _))

theorem not_isLegalName_anyType : ¬ IsLegalName anyType := by
  decide +kernel

/-- **Type names are legal**, the type of any value apart. -/
theorem isLegalName_typeName_iff (raw : String) :
    IsLegalName (typeName raw) ↔ typeName raw ≠ anyType := by
  refine ⟨fun h hany => not_isLegalName_anyType (hany ▸ h), fun h => ?_⟩
  rw [typeName_eq] at h ⊢
  by_cases hany : normalize raw = anyType
  · rw [if_pos hany] at h
    exact absurd rfl h
  · rw [if_neg hany, escapeKeyword]
    by_cases hk : normalize raw ∈ keywords
    · rw [if_pos hk]
      exact Or.inr ⟨_, hk, rfl⟩
    · rw [if_neg hk]
      exact Or.inl ⟨Name.isIdentifier_normalize (by decide) raw, hk⟩

-- names are compared, never computed, in what follows
attribute [local irreducible] typeName

/-! ## Specifications -/

/-- Nothing that a specification is to declare goes by the name of any value: not its client, which
is named by its title, and not the models of its nameless schemas, which are named by their sites.
-/
structure AvoidsAny (spec : Specification) : Prop where
  title : Name.isAny anyType spec.info.title = false
  sites : ∀ s, Mapped spec s → isNameless s.schema = true → Name.isAny anyType s.hint = false

theorem isAny_eq_false_iff (raw : String) :
    Name.isAny anyType raw = false ↔ IsLegalName (typeName raw) := by
  rw [isLegalName_typeName_iff, ← Bool.not_eq_true, isAny_iff]

/-- The name of a model is a type name, and a legal one if its specification avoids the name of any
value. -/
theorem name_of_origin {spec : Specification} {m : Model} (h : Origin spec m) :
    (∃ raw, m.name = typeName raw) ∧ (AvoidsAny spec → IsLegalName m.name) := by
  cases h with
  | @definition raw schema rest hmem hany hmake =>
    refine ⟨⟨raw, hmake.name_eq⟩, fun _ => ?_⟩
    rw [hmake.name_eq, isLegalName_typeName_iff]
    exact hany
  | @site s hmapped hmade =>
    obtain ⟨hnameless, rest, hmake⟩ := hmade
    refine ⟨⟨s.hint, hmake.name_eq⟩, fun havoids => ?_⟩
    rw [hmake.name_eq, ← isAny_eq_false_iff]
    exact havoids.sites s hmapped hnameless

/-- A nameless schema has its model among the planned ones. -/
theorem exists_planned_of_mapped {spec : Specification} {client : Client} {models : List Model}
    (hp : Planned spec client models) {s : Site} (hs : Mapped spec s)
    (hnameless : isNameless s.schema = true) : ∃ m ∈ models, m.name = typeName s.hint := by
  obtain ⟨t, ms, hrun, hsub⟩ := hp.mapped s hs
  obtain ⟨schema, hint, context⟩ := s
  have hmapping := mapping_of_runs hrun
  cases hmapping with
  | model _ hmake => exact ⟨_, hsub List.mem_cons_self, hmake.name_eq⟩
  | primitive henum => exact absurd hnameless henum
  | reference _ => cases hnameless
  | array _ => cases hnameless
  | any => cases hnameless
  | dictionary _ => cases hnameless

/-! ## Documents -/

/-- The names that a part declares: that of its client, and those of its models. -/
def Part.names (part : Part) : List String := part.client.name :: part.declared

/-- All names that a document declares are legal. -/
def NamesLegal (b : Batch Registry Part) : Prop :=
  ∀ entry ∈ b.emitted, ∀ name ∈ entry.2.names, IsLegalName name

instance (b : Batch Registry Part) : Decidable (NamesLegal b) :=
  inferInstanceAs (Decidable (∀ entry ∈ b.emitted, ∀ name ∈ entry.2.names, IsLegalName name))

/-- The names of a part are type names, and legal if its specification avoids the name of any value.
-/
theorem names_of_runs {options : EmitOptions} {spec : Specification} {part : Part}
    {ms : List Model} (hrun : (planSpec spec options).Runs part.client ms)
    (hsub : part.models ⊆ ms) {name : String} (hname : name ∈ part.names) :
    (∃ raw, name = typeName raw) ∧ (AvoidsAny spec → IsLegalName name) := by
  rcases List.mem_cons.mp hname with rfl | hname
  · rw [name_of_planSpec hrun, clientName]
    exact ⟨⟨_, rfl⟩, fun havoids => (isAny_eq_false_iff _).mp havoids.title⟩
  · obtain ⟨m, hm, rfl⟩ := List.mem_map.mp hname
    exact name_of_origin (origin_of_runs hrun m (hsub hm))

/-- A document has all the names that its specifications plan, so that none of them goes by the name
of any value if all names are legal. -/
theorem avoidsAny_of_legal {options : EmitOptions} {specs : List Specification}
    (h : NamesLegal (batch options specs .empty)) :
    ∀ entry ∈ (batch options specs .empty).emitted, AvoidsAny entry.1 := by
  intro entry hentry
  obtain ⟨ms, hrun, -⟩ := runs_of_mem_emitted entry hentry
  refine ⟨?_, fun s hs hnameless => ?_⟩
  · rw [isAny_eq_false_iff, ← clientName, ← name_of_planSpec hrun]
    exact h entry hentry _ List.mem_cons_self
  · obtain ⟨m, hm, hname⟩ :=
      exists_planned_of_mapped (planned_of_emitted hentry).1 hs hnameless
    obtain ⟨d, hd, hdname⟩ := (declared_of_planned hentry hm).1
    obtain ⟨other, hother, hdmem⟩ := exists_part_of_declared hd
    rw [isAny_eq_false_iff, ← hname, ← hdname]
    exact h other hother d.name (List.mem_cons_of_mem _ (List.mem_map_of_mem hdmem))

/-- **Declared names are legal, or the type of any value.** They are legal if the specification that
declares them avoids the name of any value, whatever the registry holds before. From no declared
names, all of a document's names are legal exactly when all of its specifications avoid it. -/
theorem names_legal (options : EmitOptions) (specs : List Specification) :
    (∀ registry, ∀ entry ∈ (batch options specs registry).emitted, ∀ name ∈ entry.2.names,
      (IsLegalName name ∨ name = anyType) ∧ (AvoidsAny entry.1 → IsLegalName name)) ∧
    (NamesLegal (batch options specs .empty) ↔
      ∀ entry ∈ (batch options specs .empty).emitted, AvoidsAny entry.1) := by
  have hnames : ∀ registry, ∀ entry ∈ (batch options specs registry).emitted,
      ∀ name ∈ entry.2.names,
        (∃ raw, name = typeName raw) ∧ (AvoidsAny entry.1 → IsLegalName name) := by
    intro registry entry hentry name hname
    obtain ⟨ms, hrun, hsub⟩ := runs_of_mem_emitted entry hentry
    exact names_of_runs hrun hsub hname
  refine ⟨fun registry entry hentry name hname => ?_, avoidsAny_of_legal, ?_⟩
  · obtain ⟨⟨raw, rfl⟩, hlegal⟩ := hnames registry entry hentry name hname
    refine ⟨?_, hlegal⟩
    rw [isLegalName_typeName_iff]
    exact ne_or_eq _ _
  · intro havoids entry hentry name hname
    exact (hnames .empty entry hentry name hname).2 (havoids entry hentry)

/-- A specification of reserved words. Its second definition goes by the name of any value. -/
def reserved : Specification :=
  specOf "words.json" "class"
    [("string", .object none none
       [⟨"kind", .primitive { kind := .string, enum := ["a"] }, true⟩] none),
     ("Object", .object none none [⟨"kind", .string, true⟩] none)] []

/-- Reserved words are escaped, and the name of any value is not declared. -/
theorem names_legal_reserved :
    ((batch {} [reserved] .empty).emitted.map (·.2.names) = [["@class", "@string", "stringKind"]]) ∧
      (∀ entry ∈ (batch {} [reserved] .empty).emitted, AvoidsAny entry.1) ∧
      NamesLegal (batch {} [reserved] .empty) := by
  have hlegal : NamesLegal (batch {} [reserved] .empty) := by decide +kernel
  obtain ⟨hnames, hiff⟩ := names_legal {} [reserved]
  have havoids := hiff.mp hlegal
  refine ⟨by decide +kernel, havoids, fun entry hentry name hname => ?_⟩
  exact (hnames .empty entry hentry name hname).2 (havoids entry hentry)

/-- A specification whose title is the name of any value. -/
def objectTitled : Specification := specOf "a.json" "Object" [] []

/-- A specification with a class and an enum property whose names make up the name of any value. -/
def objectMember : Specification :=
  specOf "a.json" "Parts"
    [("ob", .object none none
       [⟨"ject", .primitive { kind := .string, enum := ["a"] }, true⟩] none)] []

/-- **Not all declared names are legal**: the one has a client and the other an enum of the name
`object`. -/
theorem not_namesLegal_object :
    ¬ NamesLegal (batch {} [objectTitled] .empty) ∧
      ¬ NamesLegal (batch {} [objectMember] .empty) := by
  decide +kernel

end ClientGen.CSharp
