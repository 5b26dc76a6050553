import ClientGen.Proofs.CSharp.Reference
import ClientGen.Proofs.Name.Normalize

/-!
# Type names that are normalized again

A type without a name of its own is named after the type around it, so that names are normalized
again which were normalized and escaped before.

* **Reading back** (`normalize_typeName`): a type name has the normalized name that it was made
  from. What is escaped differs by an `@` in front, which normalization drops.
* **Planning and resolving** (`agrees_of_get?`): planning looks at the raw name of a definition,
  resolving at its type name. They agree on what is any value, and otherwise on the name.

`typeName_stable` is the main statement.
-/

namespace ClientGen.CSharp

/-! ## Names -/

theorem normalize_at (raw : String) : normalize ("@" ++ raw) = normalize raw := by
  rw [normalize, normalize, Name.normalize, Name.normalize, String.toList_append]
  exact congrArg String.ofList (Name.normalizeChars_at _ _)

theorem normalize_normalize (raw : String) : normalize (normalize raw) = normalize raw := by
  have hany : Name.isIdentifier anyType.toList = true := by decide
  rw [normalize, normalize, Name.normalize, Name.normalize, String.toList_ofList,
    Name.normalizeChars_normalizeChars hany]

theorem typeName_congr {a b : String} (h : normalize a = normalize b) :
    typeName a = typeName b := by
  rw [typeName_eq, typeName_eq, h]

/-- A type name is the normalized name, maybe escaped. -/
theorem typeName_cases (raw : String) :
    typeName raw = normalize raw ∨ typeName raw = "@" ++ normalize raw := by
  rw [typeName_eq]
  by_cases hany : normalize raw = anyType
  · rw [if_pos hany]
    exact .inl hany.symm
  · rw [if_neg hany, escapeKeyword]
    by_cases hk : normalize raw ∈ keywords
    · rw [if_pos hk]
      exact .inr rfl
    · rw [if_neg hk]
      exact .inl rfl

/-- In a longer name, a type name counts as the normalized name. -/
theorem normalize_typeName_append (raw ending : String) :
    normalize (typeName raw ++ ending) = normalize (normalize raw ++ ending) := by
  rcases typeName_cases raw with h | h
  · rw [h]
  · rw [h, String.append_assoc, normalize_at]

/-- **Reading back**: a type name has the normalized name that it was made from. -/
theorem normalize_typeName (raw : String) : normalize (typeName raw) = normalize raw := by
  have h := normalize_typeName_append raw ""
  rwa [String.append_empty, String.append_empty, normalize_normalize] at h

theorem typeName_eq_iff {a b : String} : typeName a = typeName b ↔ normalize a = normalize b := by
  constructor
  · intro h
    rw [← normalize_typeName a, h, normalize_typeName]
  · exact typeName_congr

/-! ## Definitions -/

/-- What planning and resolving make of a definition. -/
structure Agrees (definitions : Table Schema) (context raw : String) (schema : Schema) : Prop where
  /-- what goes by the name of any value has no model, and references to it are any value -/
  any : Name.isAny anyType raw = true → planDefinition definitions raw schema = pure () ∧
    resolveReference definitions raw context = .ok (.reference anyType)
  /-- otherwise a definition that needs a model has one of the name that references to it have -/
  model : Name.isAny anyType raw = false → needsModel schema = true →
    (∀ u ms, (planDefinition definitions raw schema).Runs u ms →
      ∃ m rest, ms = m :: rest ∧ m.name = typeName raw) ∧
    resolveReference definitions raw context = .ok ⟨typeName raw, schema.isStringEnum⟩ ∧
    typeName raw ≠ anyType

variable {definitions : Table Schema} {context raw : String} {schema : Schema}

/-- **Planning and resolving agree** on every definition. -/
theorem agrees_of_get? (hget : definitions.get? raw = some schema) :
    Agrees definitions context raw schema := by
  constructor
  · intro hany
    refine ⟨by rw [planDefinition, if_pos hany], ?_⟩
    exact followReference_of_endType hget (.any ((isAny_iff raw).mp hany))
  · intro hany hneeds
    have hname : typeName raw ≠ anyType := fun h =>
      absurd ((isAny_iff raw).mpr h) (Bool.eq_false_iff.mp hany)
    refine ⟨fun u ms hruns => ?_, followReference_model hget hname hneeds, hname⟩
    rcases planDefinition_runs hruns with ⟨m, rest, -, -, rfl, hmakes⟩ | ⟨-, -, hnone⟩
    · exact ⟨m, rest, rfl, hmakes.name_eq⟩
    · rcases hnone with h | h
      · exact absurd h hname
      · exact absurd hneeds (Bool.eq_false_iff.mp h)

/-- **Type names are stable.** Made again from itself, escaped or not, a type name stays the same,
and in a longer name it counts as the name before its escape. Texts have one type name exactly if
they have one normalized name. So planning and resolving agree on what is any value, and on the
name of every definition that needs a model. -/
theorem typeName_stable :
    (∀ raw, typeName (typeName raw) = typeName raw) ∧
    (∀ raw, typeName ("@" ++ raw) = typeName raw) ∧
    (∀ raw ending, typeName (typeName raw ++ ending) = typeName (normalize raw ++ ending)) ∧
    (∀ a b, typeName a = typeName b ↔ normalize a = normalize b) ∧
    (∀ raw, Name.isAny anyType raw = true ↔ typeName raw = anyType) ∧
    ∀ (definitions : Table Schema) (context raw : String) (schema : Schema),
      definitions.get? raw = some schema → Agrees definitions context raw schema :=
  ⟨fun raw => typeName_congr (normalize_typeName raw), fun raw => typeName_congr (normalize_at raw),
    fun raw ending => typeName_congr (normalize_typeName_append raw ending),
    fun _ _ => typeName_eq_iff, isAny_iff, fun _ _ _ _ => agrees_of_get?⟩

/-- Definitions by a keyword and by another way to write the name of any value. -/
def keywordDefinitions : Table Schema :=
  [("class", .object none none [] none), ("@ OBJECT", .object none none [] none)]

/-- What is made of `keywordDefinitions`: a class by an escaped name, and any value. -/
theorem typeName_stable_keyword :
    typeName (typeName "class") = "@class" ∧ typeName ("@" ++ "@class") = "@class" ∧
    typeName (typeName "class" ++ "Item") = "classItem" ∧
    typeName "cla ss" = typeName "@class" ∧
    (∃ m rest, (planDefinition keywordDefinitions "class" (.object none none [] none)).models =
      m :: rest ∧ m.name = "@class") ∧
    resolveReference keywordDefinitions "class" "" = .ok (.reference "@class") ∧
    resolveReference keywordDefinitions "@ OBJECT" "" = .ok (.reference anyType) := by
  have hclass : typeName "class" = "@class" := by decide +kernel
  have hescaped : typeName "@class" = "@class" := by decide +kernel
  have hitem : typeName (normalize "class" ++ "Item") = "classItem" := by decide +kernel
  have hname : normalize "cla ss" = normalize "@class" := by decide +kernel
  obtain ⟨hself, hat, hending, hiff, -, hagrees⟩ := typeName_stable
  have hmodel := (hagrees keywordDefinitions "" "class" _ rfl).model (by decide +kernel) rfl
  have hany := (hagrees keywordDefinitions "" "@ OBJECT" _ rfl).any (by decide +kernel)
  refine ⟨(hself _).trans hclass, (hat _).trans hescaped, (hending _ _).trans hitem,
    (hiff _ _).mpr hname, ?_, ?_, hany.2⟩
  · rw [hclass] at hmodel
    exact hmodel.1 () _ ⟨rfl, rfl⟩
  · rw [hmodel.2.1, hclass]
    rfl

end ClientGen.CSharp
