import ClientGen.CSharp.Type
import ClientGen.Proofs.Name.Normalize

/-!
# Names in the text of C# types

The text of a type is a name inside wrappers: arrays, nullable types, lists, dictionaries.

* **Names** (`isIdentifierChar_of_mem_typeName`): a type name has the characters of identifiers, and
  maybe `@`, so no wrapper ends it.
* **Any value** (`isAny_iff`): a definition goes by the name of any value exactly when its type name
  is the type of any value; an `@` in front does not matter.
* **Wrappers** (`baseName`): the name inside all wrappers. Each wrapper leaves it as it is, and
  `baseName_typeName` says that a type name has no wrapper to remove.
-/

namespace ClientGen.CSharp

/-! ## Type names -/

/-- A type name is the normalized name, escaped unless it is the type of any value. -/
theorem typeName_eq (raw : String) :
    typeName raw = if normalize raw = anyType then anyType else escapeKeyword (normalize raw) := by
  have h : normalize (String.ofList (raw.toList.dropWhile (· = '@'))) = normalize raw := by
    unfold normalize Name.normalize
    rw [String.toList_ofList, Name.normalizeChars_dropWhile_at]
  unfold typeName
  rw [h]
  by_cases hany : normalize raw = anyType
  · rw [if_pos hany, if_pos hany, hany]
  · simp only [if_neg hany]

theorem escapeKeyword_ne_anyType {name : String} (h : name ≠ anyType) :
    escapeKeyword name ≠ anyType := by
  unfold escapeKeyword
  by_cases hk : name ∈ keywords
  · rw [if_pos hk]
    intro he
    have hhead := congrArg (fun s => s.toList.head?) he
    rw [String.toList_append] at hhead
    cases hhead
  · rw [if_neg hk]
    exact h

/-- **Any value**: what goes by the name of any value has the type of any value, and nothing else
has. -/
theorem isAny_iff (raw : String) : Name.isAny anyType raw = true ↔ typeName raw = anyType := by
  have h : Name.isAny anyType raw = true ↔ normalize raw = anyType := decide_eq_true_iff
  rw [h, typeName_eq]
  constructor
  · intro hany
    rw [if_pos hany]
  · intro ht
    by_cases hany : normalize raw = anyType
    · exact hany
    · rw [if_neg hany] at ht
      exact absurd ht (escapeKeyword_ne_anyType hany)

/-- A type name has the characters of identifiers, and maybe `@`. -/
theorem isIdentifierChar_of_mem_typeName {raw : String} :
    ∀ c ∈ (typeName raw).toList, Name.isIdentifierChar c = true ∨ c = '@' := by
  intro c hc
  have hanyType : anyType.toList.all Name.isIdentifierChar = true := by decide
  rw [typeName_eq] at hc
  by_cases hany : normalize raw = anyType
  · rw [if_pos hany] at hc
    exact Or.inl (List.all_eq_true.mp hanyType c hc)
  · rw [if_neg hany] at hc
    have hname : ∀ d ∈ (normalize raw).toList, Name.isIdentifierChar d = true := by
      intro d hd
      unfold normalize Name.normalize Name.normalizeChars at hd
      rw [String.toList_ofList] at hd
      simp only at hd
      split at hd
      · exact List.all_eq_true.mp hanyType d hd
      · exact Name.isIdentifierChar_of_mem_sanitizeChars d hd
    unfold escapeKeyword at hc
    by_cases hk : normalize raw ∈ keywords
    · rw [if_pos hk, String.toList_append] at hc
      rcases List.mem_append.mp hc with hc | hc
      · exact Or.inr (List.mem_singleton.mp hc)
      · exact Or.inl (hname c hc)
    · rw [if_neg hk] at hc
      exact Or.inl (hname c hc)

/-! ## Wrappers -/

/-- The text inside the outermost wrapper. -/
def unwrap? (s : List Char) : Option (List Char) :=
  (Text.dropEnd? "[]".toList s).or <|
    (Text.dropEnd? "?".toList s).or <|
      ((Text.dropStart? "Dictionary<string, ".toList s).bind (Text.dropEnd? ">".toList)).or
        ((Text.dropStart? "List<".toList s).bind (Text.dropEnd? ">".toList))

theorem dropEnd?_eq_some_iff {ending s rest : List Char} :
    Text.dropEnd? ending s = some rest ↔ s = rest ++ ending := by
  unfold Text.dropEnd?
  rw [Option.map_eq_some_iff]
  constructor
  · rintro ⟨back, hback, rfl⟩
    have h := congrArg List.reverse (Text.dropStart?_eq_some_iff.mp hback)
    rwa [List.reverse_reverse, List.reverse_append, List.reverse_reverse] at h
  · rintro rfl
    exact ⟨rest.reverse, Text.dropStart?_eq_some_iff.mpr List.reverse_append,
      List.reverse_reverse rest⟩

/-- A text with another last character does not end so. -/
theorem dropEnd?_eq_none {ending s : List Char} {c : Char} (hc : ending.getLast? = some c)
    (hs : s.getLast? ≠ some c) : Text.dropEnd? ending s = none := by
  rcases h : Text.dropEnd? ending s with _ | rest
  · rfl
  · rw [dropEnd?_eq_some_iff.mp h, List.getLast?_append, hc, Option.some_or] at hs
    exact absurd rfl hs

/-- Inversion for `unwrap?`: what the wrappers are. -/
theorem unwrap?_cases {s t : List Char} (h : unwrap? s = some t) :
    s = t ++ "[]".toList ∨ s = t ++ "?".toList ∨
      s = "Dictionary<string, ".toList ++ (t ++ ">".toList) ∨
      s = "List<".toList ++ (t ++ ">".toList) := by
  unfold unwrap? at h
  rcases Option.or_eq_some_iff.mp h with h | ⟨-, h⟩
  · exact Or.inl (dropEnd?_eq_some_iff.mp h)
  rcases Option.or_eq_some_iff.mp h with h | ⟨-, h⟩
  · exact Or.inr (Or.inl (dropEnd?_eq_some_iff.mp h))
  rcases Option.or_eq_some_iff.mp h with h | ⟨-, h⟩
  · obtain ⟨u, hu, ht⟩ := Option.bind_eq_some_iff.mp h
    rw [Text.dropStart?_eq_some_iff.mp hu, dropEnd?_eq_some_iff.mp ht]
    exact Or.inr (Or.inr (Or.inl rfl))
  · obtain ⟨u, hu, ht⟩ := Option.bind_eq_some_iff.mp h
    rw [Text.dropStart?_eq_some_iff.mp hu, dropEnd?_eq_some_iff.mp ht]
    exact Or.inr (Or.inr (Or.inr rfl))

theorem length_lt_of_unwrap? {s t : List Char} (h : unwrap? s = some t) : t.length < s.length := by
  rcases unwrap?_cases h with rfl | rfl | rfl | rfl
  all_goals
    simp only [List.length_append, String.length_toList]
    have harray : "[]".length = 2 := rfl
    have hnull : "?".length = 1 := rfl
    have hclose : ">".length = 1 := rfl
    omega

/-- The name inside all wrappers. -/
def baseChars (s : List Char) : List Char :=
  match _h : unwrap? s with
  | some t => baseChars t
  | none => s
termination_by s.length
decreasing_by exact length_lt_of_unwrap? _h

/-- The name inside all wrappers. -/
def baseName (text : String) : String := String.ofList (baseChars text.toList)

theorem baseChars_of_unwrap? {s t : List Char} (h : unwrap? s = some t) :
    baseChars s = baseChars t := by
  rw [baseChars]
  split
  · next u hu =>
    rw [h] at hu
    cases hu
    rfl
  · next hu =>
    rw [h] at hu
    cases hu

theorem baseName_of_unwrap? {text inner : String} (h : unwrap? text.toList = some inner.toList) :
    baseName text = baseName inner := by
  unfold baseName
  rw [baseChars_of_unwrap? h]

@[simp] theorem baseName_array (text : String) : baseName (text ++ "[]") = baseName text := by
  refine baseName_of_unwrap? ?_
  have h : Text.dropEnd? "[]".toList (text ++ "[]").toList = some text.toList :=
    dropEnd?_eq_some_iff.mpr String.toList_append
  rw [unwrap?, h, Option.some_or]

@[simp] theorem baseName_nullable (text : String) : baseName (text ++ "?") = baseName text := by
  refine baseName_of_unwrap? ?_
  have harray : Text.dropEnd? "[]".toList (text ++ "?").toList = none := by
    refine dropEnd?_eq_none (c := ']') rfl ?_
    rw [String.toList_append, List.getLast?_append]
    exact fun h => absurd (Option.some.inj h) (by decide)
  have h : Text.dropEnd? "?".toList (text ++ "?").toList = some text.toList :=
    dropEnd?_eq_some_iff.mpr String.toList_append
  rw [unwrap?, harray, Option.none_or, h, Option.some_or]

/-- Inside angle brackets, the text after the opening one and before the closing one counts. -/
theorem unwrap?_angle {s : List Char} (hs : s.getLast? = some '>') :
    unwrap? s = ((Text.dropStart? "Dictionary<string, ".toList s).bind
      (Text.dropEnd? ">".toList)).or
        ((Text.dropStart? "List<".toList s).bind (Text.dropEnd? ">".toList)) := by
  have harray : Text.dropEnd? "[]".toList s = none :=
    dropEnd?_eq_none (c := ']') rfl (by rw [hs]; decide)
  have hnull : Text.dropEnd? "?".toList s = none :=
    dropEnd?_eq_none (c := '?') rfl (by rw [hs]; decide)
  rw [unwrap?, harray, Option.none_or, hnull, Option.none_or]

@[simp] theorem baseName_dictionary (text : String) :
    baseName ("Dictionary<string, " ++ text ++ ">") = baseName text := by
  refine baseName_of_unwrap? ?_
  have hlast : ("Dictionary<string, " ++ text ++ ">").toList.getLast? = some '>' := by
    rw [String.toList_append, List.getLast?_append]
    rfl
  have hstart : Text.dropStart? "Dictionary<string, ".toList
      ("Dictionary<string, " ++ text ++ ">").toList = some (text ++ ">").toList := by
    refine Text.dropStart?_eq_some_iff.mpr ?_
    rw [String.append_assoc, String.toList_append]
  have hend : Text.dropEnd? ">".toList (text ++ ">").toList = some text.toList :=
    dropEnd?_eq_some_iff.mpr String.toList_append
  rw [unwrap?_angle hlast, hstart, Option.bind_some, hend, Option.some_or]

@[simp] theorem baseName_list (text : String) :
    baseName ("List<" ++ text ++ ">") = baseName text := by
  refine baseName_of_unwrap? ?_
  have hlast : ("List<" ++ text ++ ">").toList.getLast? = some '>' := by
    rw [String.toList_append, List.getLast?_append]
    rfl
  have hdict : Text.dropStart? "Dictionary<string, ".toList
      ("List<" ++ text ++ ">").toList = none := by
    rw [String.append_assoc, String.toList_append]
    rfl
  have hstart : Text.dropStart? "List<".toList
      ("List<" ++ text ++ ">").toList = some (text ++ ">").toList := by
    refine Text.dropStart?_eq_some_iff.mpr ?_
    rw [String.append_assoc, String.toList_append]
  have hend : Text.dropEnd? ">".toList (text ++ ">").toList = some text.toList :=
    dropEnd?_eq_some_iff.mpr String.toList_append
  rw [unwrap?_angle hlast, hdict, Option.bind_none, Option.none_or, hstart, Option.bind_some, hend]

/-- A text without a wrapper at its end is its own base name. -/
theorem baseName_eq_self {text : String}
    (h : ∀ c ∈ text.toList, c ≠ ']' ∧ c ≠ '?' ∧ c ≠ '>') : baseName text = text := by
  have hnone : unwrap? text.toList = none := by
    rcases hu : unwrap? text.toList with _ | t
    · rfl
    · rcases unwrap?_cases hu with he | he | he | he
      · exact absurd rfl (h ']' (he ▸ List.mem_append_right _ (by decide))).1
      · exact absurd rfl (h '?' (he ▸ List.mem_append_right _ (by decide))).2.1
      · exact absurd rfl
          (h '>' (he ▸ List.mem_append_right _ (List.mem_append_right _ (by decide)))).2.2
      · exact absurd rfl
          (h '>' (he ▸ List.mem_append_right _ (List.mem_append_right _ (by decide)))).2.2
  unfold baseName
  rw [baseChars]
  split
  · next u hu =>
    rw [hnone] at hu
    cases hu
  · exact String.ofList_toList

/-- **A type name has no wrapper to remove.** -/
@[simp] theorem baseName_typeName (raw : String) : baseName (typeName raw) = typeName raw := by
  refine baseName_eq_self fun c hc => ?_
  rcases isIdentifierChar_of_mem_typeName c hc with hid | rfl
  · refine ⟨?_, ?_, ?_⟩
    all_goals
      rintro rfl
      exact absurd hid (by decide)
  · decide

@[simp] theorem baseName_typeRef_nullable (t : TypeRef) :
    baseName t.nullable = baseName t.name := by
  unfold TypeRef.nullable
  by_cases h : t.isValue = true
  · rw [if_pos h, baseName_nullable]
  · rw [if_neg h]

end ClientGen.CSharp
