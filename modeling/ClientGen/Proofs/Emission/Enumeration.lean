import ClientGen.Proofs.CSharp.Member
import ClientGen.Proofs.Text.Literal
import ClientGen.TypeScript.Declaration

/-!
# Enums name their values

Both languages make the members of an enum in one way: a base for each value, made unique among the
members before it. They differ in the bases, and in how a member carries its value.

* **Names** (`valuesNamed_uniqueNames`): unique names for the bases of values, whatever the bases
  are, as long as they are identifiers.
* **Members** (`enumMembersAfter_eq` of each language): the members are the unique names with the
  values in their order.

The main statement, `enums_valuesNamed`, puts them together for the languages.
-/

namespace ClientGen

open Name (isIdentifier uniqueNames LeastFree)

/-! ## Names -/

/-- Values have names of their own, made from their bases. -/
structure ValuesNamed (base : String → String) (values names : List String) : Prop where
  length_eq : names.length = values.length
  distinct : names.Nodup
  identifiers : ∀ name ∈ names, isIdentifier name.toList = true
  /-- the base with the least number that none of the names before it has -/
  named : ∀ {i : Nat} {value name : String}, values[i]? = some value → names[i]? = some name →
    LeastFree (base value) (names.take i) name
  /-- a base that none of the names before it has is kept -/
  kept : ∀ {i : Nat} {value : String}, values[i]? = some value → base value ∉ names.take i →
    names[i]? = some (base value)

theorem valuesNamed_uniqueNames {base : String → String}
    (hbase : ∀ value, isIdentifier (base value).toList = true) (values : List String) :
    ValuesNamed base values (uniqueNames [] (values.map base)) := by
  have hlength : (uniqueNames [] (values.map base)).length = values.length := by
    rw [Name.length_uniqueNames, List.length_map]
  refine ⟨hlength, Name.nodup_uniqueNames.1, ?_, Name.leastFree_of_getElem?_map, ?_⟩
  · exact Name.forall_mem_uniqueNames fun value _ => Name.isIdentifier_numbered (hbase value)
  · intro i value hvalue hfree
    have hi := hlength.symm ▸ (List.getElem?_eq_some_iff.mp hvalue).1
    have hget := List.getElem?_eq_getElem hi
    rw [hget, (Name.leastFree_of_getElem?_map hvalue hget).eq_base hfree]

/-! ## Members -/

namespace CSharp

theorem enumMembersAfter_eq {values : List String} :
    ∀ {taken : List String}, enumMembersAfter taken values =
      ((uniqueNames taken (values.map (memberName · ""))).zip values).map
        fun entry => ⟨entry.1, entry.2⟩ := by
  induction values with
  | nil => exact rfl
  | cons value values ih =>
    intro taken
    rw [enumMembersAfter, ih]
    rfl

theorem enumMembers_valuesNamed (values : List String) :
    (enumMembers values).map (·.value) = values ∧
      ValuesNamed (memberName · "") values ((enumMembers values).map (·.name)) := by
  have hnamed : ValuesNamed (memberName · "") values _ :=
    valuesNamed_uniqueNames (fun value => (isMemberName_memberName value "").1) values
  rw [enumMembers, enumMembersAfter_eq, List.map_map, List.map_map]
  refine ⟨List.map_snd_zip hnamed.length_eq.ge, ?_⟩
  convert hnamed using 1
  exact List.map_fst_zip hnamed.length_eq.le

/-- The bases of values are no reserved words, and neither are their numbers. -/
theorem notMem_keywords_of_valuesNamed {values names : List String}
    (h : ValuesNamed (memberName · "") values names) {name : String} (hname : name ∈ names) :
    name ∉ keywords := by
  obtain ⟨i, hi, hget⟩ := List.mem_iff_getElem.mp hname
  have hvalue := List.getElem?_eq_getElem (h.length_eq ▸ hi)
  obtain ⟨n, hn, rfl, -⟩ := h.named hvalue (List.getElem?_eq_some_iff.mpr ⟨hi, hget⟩)
  exact (isMemberName_numbered (isMemberName_memberName _ "") hn).2

end CSharp

namespace TypeScript

open Text (readLiteral?)

theorem enumMembersAfter_eq {values : List String} :
    ∀ {taken : List String}, enumMembersAfter taken values =
      ((uniqueNames taken (values.map Name.sanitize)).zip values).map
        fun entry => ⟨entry.1, stringLiteral entry.2⟩ := by
  induction values with
  | nil => exact rfl
  | cons value values ih =>
    intro taken
    rw [enumMembersAfter, ih]
    rfl

theorem isIdentifier_sanitize (raw : String) : isIdentifier (Name.sanitize raw).toList = true := by
  rw [Name.sanitize, String.toList_ofList]
  exact Name.isIdentifier_sanitizeChars raw.toList

theorem enumMembers_valuesNamed (values : List String) :
    (enumMembers values).map (fun m => readLiteral? literalRules m.value) = values.map some ∧
      ValuesNamed Name.sanitize values ((enumMembers values).map (·.name)) := by
  have hnamed : ValuesNamed Name.sanitize values _ :=
    valuesNamed_uniqueNames isIdentifier_sanitize values
  rw [enumMembers, enumMembersAfter_eq, List.map_map, List.map_map]
  refine ⟨?_, ?_⟩
  · have hread : (fun m : EnumMember => readLiteral? literalRules m.value) ∘
        (fun entry : String × String => ⟨entry.1, stringLiteral entry.2⟩) = some ∘ Prod.snd := by
      funext entry
      simp only [Function.comp_apply, readLiteral?_stringLiteral]
    rw [hread, ← List.map_map, List.map_snd_zip hnamed.length_eq.ge]
  · convert hnamed using 1
    exact List.map_fst_zip hnamed.length_eq.le

end TypeScript

/-! ## Enums -/

/-- **Enums keep every value under a name of its own.** In either language an enum has a member for
each of its values in their order, and the member carries the value: C# holds it as it is, and
TypeScript as a literal that is read as the value. The names are distinct identifiers, made from the
bases of the values, and none is a reserved word of C#. -/
theorem enums_valuesNamed (name : String) (p : Primitive) :
    (∃ members, CSharp.enumModelOf name p =
        .enumModel name (Text.oneLine? p.description) members p.shape ∧
      members.map (·.value) = p.enum ∧
      (∀ m ∈ members, m.name ∉ CSharp.keywords) ∧
      ValuesNamed (CSharp.memberName · "") p.enum (members.map (·.name))) ∧
    ∃ members, TypeScript.enumDecl name p = .enum name (Text.oneLine? p.description) members ∧
      members.map (fun m => Text.readLiteral? TypeScript.literalRules m.value) = p.enum.map some ∧
      ValuesNamed Name.sanitize p.enum (members.map (·.name)) := by
  obtain ⟨hvalues, hnamed⟩ := CSharp.enumMembers_valuesNamed p.enum
  obtain ⟨hread, hsanitized⟩ := TypeScript.enumMembers_valuesNamed p.enum
  refine ⟨⟨CSharp.enumMembers p.enum, rfl, hvalues, fun m hm => ?_, hnamed⟩,
    TypeScript.enumMembers p.enum, rfl, hread, hsanitized⟩
  exact CSharp.notMem_keywords_of_valuesNamed hnamed (List.mem_map_of_mem hm)

/-- Values that run into each other, and into the numbers of others. -/
example :
    (CSharp.enumMembers ["a-b", "aB", "aB2", "", "2"]).map (·.name) =
      ["AB", "AB2", "AB22", "Unnamed", "_2"] ∧
    (TypeScript.enumMembers ["a-b", "aB", "aB2", "", "2"]).map (·.name) =
      ["aB", "aB2", "aB22", "Unnamed", "_2"] := by
  decide +kernel

end ClientGen
