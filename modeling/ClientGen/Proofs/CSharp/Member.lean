import ClientGen.Proofs.CSharp.Signature

/-!
# Members of classes

* **Names of members** (`isMemberName_memberName`): words are put together with a capital in front,
  and reserved words have none there. So a member needs no escape, with a number or without.
* **Classes** (`classModel_inv`): the members of a class are its properties in their order, under
  the unique names of their bases. `class_membersNamed` adds the member for undeclared properties,
  whose name is looked for beside the name of the class.
* **Members named like their class** (`member_namedLikeClass_iff`): a base is never the name of the
  class, but its numbers are not looked at. A member is named like its class exactly if the class
  goes by a base with a number, and all smaller numbers are taken when the property comes.
-/

namespace ClientGen

/-! ## Names of members -/

namespace Text

/-- Put together, words do not start with a small letter. -/
theorem isLower_of_head?_capitalized {ws : List (List Char)} {c : Char}
    (h : ∀ w ∈ ws, ∀ d ∈ w, d.isAlphanum = true)
    (hc : (ws.map capitalize).flatten.head? = some c) : c.isLower = false := by
  induction ws with
  | nil => cases hc
  | cons w ws ih =>
    obtain ⟨hw, hws⟩ := List.forall_mem_cons.mp h
    cases w with
    | nil => exact ih hws hc
    | cons d w =>
      have hd := hw d List.mem_cons_self
      obtain ⟨-, hupper, -⟩ := case_of_isAlphanum hd
      obtain rfl : d.toUpper = c := by simpa [capitalize, hupper] using hc
      have hlookup : (!d.toUpper.isLower) = true :=
        Name.of_isIdentifierChar (p := fun d => !d.toUpper.isLower) (by decide)
          (Name.isIdentifierChar_of_isAlphanum hd)
      rwa [Bool.not_eq_true'] at hlookup

end Text

namespace CSharp

open Name (isIdentifier isIdentifier_append isIdentifier_numbered numbered numbered_one
  numbered_of_two_le uniqueNames)

/-- A name that a member can have: an identifier that is no reserved word. -/
def IsMemberName (name : String) : Prop := isIdentifier name.toList = true ∧ name ∉ keywords

instance : DecidablePred IsMemberName := fun _ => inferInstanceAs (Decidable (_ ∧ _))

/-- Reserved words start with a small letter. -/
theorem notMem_keywords {name : String} {c : Char} (hhead : name.toList.head? = some c)
    (hc : c.isLower = false) : name ∉ keywords := by
  have hall : keywords.all (fun word => word.toList.head?.any Char.isLower) = true := by
    decide +kernel
  intro hmem
  have hlower := List.all_eq_true.mp hall name hmem
  rw [hhead, Option.any_some, hc] at hlower
  cases hlower

theorem isMemberName_numbered {base : String} (h : IsMemberName base) {n : Nat} (hn : 1 ≤ n) :
    IsMemberName (numbered base n) :=
  ⟨isIdentifier_numbered h.1 hn, notMem_keywords_numbered h.2 hn⟩

/-- A text in words, with the start mended where there is none or a digit. -/
theorem fixStart_pascalCase (s : List Char) : ∃ c rest,
    fixStart (Text.pascalCase (Name.sanitizeChars s)) = c :: rest ∧ c.isLower = false := by
  have hwords : ∀ w ∈ Text.identifierWords (Name.sanitizeChars s), ∀ c ∈ w, c.isAlphanum = true :=
    fun w => Text.isAlphanum_of_mem_identifierWords Name.isIdentifierChar_of_mem_sanitizeChars
  rcases hs : Text.pascalCase (Name.sanitizeChars s) with _ | ⟨c, rest⟩
  · exact ⟨'_', [], rfl, rfl⟩
  · rw [fixStart]
    split
    · exact ⟨'_', c :: rest, rfl, rfl⟩
    · exact ⟨c, rest, rfl, Text.isLower_of_head?_capitalized hwords (congrArg List.head? hs)⟩

/-- **Members have names without escapes**, whatever class owns them. -/
theorem isMemberName_memberName (raw owner : String) : IsMemberName (memberName raw owner) := by
  obtain ⟨c, rest, hstart, hc⟩ := fixStart_pascalCase raw.toList
  have hident : isIdentifier (c :: rest) = true := by
    rw [← hstart]
    exact isIdentifier_fixStart
      (Text.isAlphanum_of_mem_pascalCase Name.isIdentifierChar_of_mem_sanitizeChars)
  simp only [memberName, hstart]
  split
  · refine ⟨?_, notMem_keywords (by simp) hc⟩
    rw [String.toList_append, String.toList_ofList]
    exact isIdentifier_append hident (List.all_eq_true.mp (by decide))
  · exact ⟨by rwa [String.toList_ofList], notMem_keywords (by simp) hc⟩

/-- A member is not named like its class, as long as its name has no number. -/
theorem memberName_ne_owner (raw owner : String) : memberName raw owner ≠ owner := by
  simp only [memberName]
  split
  · next heq =>
    intro hvalue
    have hlength := congrArg String.length (hvalue.trans heq.symm)
    simp at hlength
  · next hne => exact hne

/-! ## Classes -/

/-- What the members for properties are named by. -/
def memberBases (owner : String) (properties : List (Property Schema)) : List String :=
  properties.map fun p => memberName p.name owner

/-- By induction on the properties: members are made one after the other, and the name of each is
taken from then on. -/
theorem names_membersOf {owner : String} {ps : List (Property Schema)} :
    ∀ {taken : List String} {types : List TypeRef}, types.length = ps.length →
      (membersOf owner taken ps types).map (·.wireName) = ps.map (·.name) ∧
      (membersOf owner taken ps types).map (·.name) = uniqueNames taken (memberBases owner ps) := by
  induction ps with
  | nil => exact fun _ => ⟨rfl, rfl⟩
  | cons p ps ih =>
    intro taken types hlength
    cases types with
    | nil => cases hlength
    | cons t types =>
      obtain ⟨hwire, hnames⟩ := @ih (taken ++ [Name.uniqueName (memberName p.name owner) taken])
        types (Nat.succ.inj hlength)
      exact ⟨congrArg (p.name :: ·) hwire, congrArg (Name.uniqueName _ taken :: ·) hnames⟩

section Class

variable {definitions : Table Schema} {owner : String} {description : Option String}
  {properties : List (Property Schema)} {additional : Option Schema} {shape context : String}

/-- Inversion for `classModel`: the class has a member for each property in their order, and the
names are made unique one after the other. -/
theorem classModel_inv {m : Model}
    (h : (classModel definitions owner description properties additional shape context).outcome =
      .ok m) : ∃ members, m = classOf owner description members additional.isSome shape ∧
      members.map (·.wireName) = properties.map (·.name) ∧
      members.map (·.name) = uniqueNames [] (memberBases owner properties) := by
  have hrun : (classModel definitions owner description properties additional shape context).Runs m
    _ := ⟨h, rfl⟩
  rw [classModel] at hrun
  obtain ⟨members, hmembers, rfl⟩ := hrun.bind_pure_inv
  obtain ⟨types, hall, rfl⟩ := runsAll_of_mapProperties hmembers
  have hlength : types.length = properties.length := by simpa using hall.length_eq
  exact ⟨_, rfl, names_membersOf hlength⟩

/-- An object without a name is declared as a class under the name of its place. -/
theorem mapSchema_object {title : Option String} {hint : String} (hne : properties ≠ []) :
    mapSchema definitions (.object title description properties additional) hint context =
      (do
        Plan.declare (classModel definitions (typeName hint) description properties additional
          (Schema.object title description properties additional).shape context)
        return .reference (typeName hint)) := by
  rw [mapSchema, if_neg (by simpa using hne)]
  rfl

/-- The names in a class: those of its members, and of the member for undeclared properties. -/
def memberNames (members : List ModelProperty) (extension : Option String) : List String :=
  members.map (·.name) ++ extension.toList

/-- The members of a class stand for the properties of an object. -/
structure MembersNamed (owner : String) (properties : List (Property Schema)) (isOpen : Bool)
    (members : List ModelProperty) (extension : Option String) : Prop where
  /-- one for each property, in their order -/
  wireNames : members.map (·.wireName) = properties.map (·.name)
  /-- one for undeclared properties exactly if the object takes them -/
  isSome_extension : extension.isSome = isOpen
  distinct : (memberNames members extension).Nodup
  legal : ∀ name ∈ memberNames members extension, IsMemberName name
  extension_ne : extension ≠ some owner

/-- The member for undeclared properties is none of the others, and not named like the class. -/
theorem MembersNamed.extend {members : List ModelProperty}
    (h : MembersNamed owner properties false members none) :
    MembersNamed owner properties true members (some (extensionName owner members)) := by
  have hnames : memberNames members none = members.map (·.name) := List.append_nil _
  obtain ⟨n, hn, hname, hfree, -⟩ :=
    Name.leastFree_uniqueName "AdditionalProperties" (owner :: members.map (·.name))
  obtain ⟨hne, hnew⟩ := not_or.mp (mt List.mem_cons.mpr hfree)
  have hlegal : IsMemberName (extensionName owner members) := by
    rw [extensionName, hname]
    exact isMemberName_numbered (by decide +kernel) hn
  refine ⟨h.wireNames, rfl, ?_, ?_, fun heq => hne (Option.some.inj heq)⟩
  · refine (hnames ▸ h.distinct).append (List.nodup_singleton _) ?_
    simpa [extensionName] using hnew
  · refine List.forall_mem_append.mpr ⟨hnames ▸ h.legal, ?_⟩
    simpa using hlegal

/-- The model is a class whose members stand for the properties of an object. -/
def IsClassOf (owner : String) (description : Option String) (properties : List (Property Schema))
    (additional : Option Schema) (shape : String) (m : Model) : Prop :=
  ∃ members extension,
    m = .classModel owner (Text.oneLine? description) none members extension shape ∧
      MembersNamed owner properties additional.isSome members extension

theorem isClassOf_of_classModel {m : Model}
    (h : (classModel definitions owner description properties additional shape context).outcome =
      .ok m) : IsClassOf owner description properties additional shape m := by
  obtain ⟨members, rfl, hwire, hnames⟩ := classModel_inv h
  have hclosed : MembersNamed owner properties false members none := by
    refine ⟨hwire, rfl, ?_, ?_, by simp⟩
    all_goals rw [memberNames, Option.toList_none, List.append_nil, hnames]
    · exact Name.nodup_uniqueNames.1
    · exact Name.forall_mem_uniqueNames fun p _ =>
        isMemberName_numbered (isMemberName_memberName p.name owner)
  cases additional with
  | none => exact ⟨members, none, rfl, hclosed⟩
  | some extra => exact ⟨members, _, rfl, hclosed.extend⟩

end Class

/-- **Members are distinct, and none is missing.** A class has a member for each property of its
object in their order, under the name as sent, and one more exactly if the object takes undeclared
properties. The names are distinct identifiers and no reserved words, and the member for undeclared
properties is not named like the class either. This is so for the class of a definition, and for the
class of an object that has no name, which is declared first where the object is mapped. -/
theorem class_membersNamed (definitions : Table Schema) (description : Option String)
    (properties : List (Property Schema)) (additional : Option Schema) (context : String) :
    (∀ owner shape m,
      (classModel definitions owner description properties additional shape context).outcome =
        .ok m → IsClassOf owner description properties additional shape m) ∧
    ∀ title hint t ms, properties ≠ [] →
      (mapSchema definitions (.object title description properties additional) hint context).Runs
        t ms →
      ∃ m rest, ms = m :: rest ∧ IsClassOf (typeName hint) description properties additional
        (Schema.object title description properties additional).shape m := by
  refine ⟨fun owner shape m h => isClassOf_of_classModel h, fun title hint t ms hne h => ?_⟩
  rw [mapSchema_object hne] at h
  obtain ⟨_, _, _, hdeclare, hpure, rfl⟩ := h.bind_inv
  obtain ⟨m, rest, hmake, rfl⟩ := hdeclare.declare_inv
  exact ⟨m, _, rfl, isClassOf_of_classModel hmake.outcome⟩

/-- Properties that run into each other, into the name of their class and into what undeclared
properties are called. -/
def rowProperties : List (Property Schema) :=
  [⟨"a-b", .string, true⟩, ⟨"aB", .string, true⟩, ⟨"aB2", .string, true⟩, ⟨"row", .string, true⟩,
   ⟨"row-value", .string, true⟩, ⟨"class", .string, true⟩, ⟨"__", .string, true⟩,
   ⟨"2nd", .string, true⟩, ⟨"additional-properties", .string, true⟩]

/-- The names in the class of an object. -/
def classNames : Model → List String
  | .classModel _ _ _ members extension _ => memberNames members extension
  | .enumModel _ _ _ _ => []

/-- The names of a row, and of a row without a name. -/
theorem class_membersNamed_row :
    (∃ m, (classModel [] "Row" none rowProperties (some .string) "" "").outcome = .ok m ∧
      classNames m = ["AB", "AB2", "AB22", "RowValue", "RowValue2", "Class", "_", "_2nd",
        "AdditionalProperties", "AdditionalProperties2"] ∧
      IsClassOf "Row" none rowProperties (some .string) "" m) ∧
    ∃ t m, (mapSchema [] (.object none none rowProperties none) "Row" "").Runs t [m] ∧
      IsClassOf (typeName "Row") none rowProperties none
        (Schema.object none none rowProperties none).shape m := by
  have hnames : (classModel [] "Row" none rowProperties (some .string) "" "").outcome.toOption.map
      classNames = some ["AB", "AB2", "AB22", "RowValue", "RowValue2", "Class", "_", "_2nd",
        "AdditionalProperties", "AdditionalProperties2"] := by decide +kernel
  obtain ⟨m, hm, hnames⟩ := Option.map_eq_some_iff.mp hnames
  have hm := eq_ok_of_toOption hm
  refine ⟨⟨m, hm, hnames, (class_membersNamed [] none _ _ "").1 "Row" "" m hm⟩, ?_⟩
  obtain ⟨t, ms, hrun, hlength⟩ : ∃ t ms,
      (mapSchema [] (.object none none rowProperties none) "Row" "").Runs t ms ∧ ms.length = 1 :=
    ⟨_, _, ⟨rfl, rfl⟩, rfl⟩
  obtain ⟨m, rest, rfl, hclass⟩ :=
    (class_membersNamed [] none rowProperties none "").2 none "Row" t ms (List.cons_ne_nil _ _) hrun
  obtain rfl : rest = [] := by simpa using hlength
  exact ⟨t, m, hrun, hclass⟩

/-! ## Members named like their class -/

/-- The class goes by the base of a property with a number, and the smaller numbers are taken by the
members before it. -/
def NumberMeetsClass (owner : String) (properties : List (Property Schema)) (names : List String) :
    Prop :=
  ∃ i p n, properties[i]? = some p ∧ 2 ≤ n ∧ owner = memberName p.name owner ++ toString n ∧
    ∀ k, 1 ≤ k → k < n → numbered (memberName p.name owner) k ∈ names.take i

/-- A class that goes by a base with a number has a digit at its end. -/
theorem NumberMeetsClass.digit {owner : String} {properties : List (Property Schema)}
    {names : List String} (h : NumberMeetsClass owner properties names) :
    ∃ c, owner.toList.getLast? = some c ∧ c.isDigit = true := by
  obtain ⟨i, p, n, -, -, howner, -⟩ := h
  have hne : Nat.toDigits 10 n ≠ [] := Nat.toDigits_ne_nil
  refine ⟨_, ?_, Nat.isDigit_of_mem_toDigits (by decide) (Nat.le_refl 10) (List.getLast_mem hne)⟩
  rw [howner, String.toList_append, Nat.toString_eq_repr, Nat.toList_repr,
    List.getLast?_append_of_ne_nil _ hne, List.getLast?_eq_some_getLast hne]

theorem owner_mem_uniqueNames_iff {owner : String} {properties : List (Property Schema)} :
    owner ∈ uniqueNames [] (memberBases owner properties) ↔
      NumberMeetsClass owner properties (uniqueNames [] (memberBases owner properties)) := by
  have hlength : (uniqueNames [] (memberBases owner properties)).length = properties.length := by
    rw [Name.length_uniqueNames, memberBases, List.length_map]
  constructor
  · intro hmem
    obtain ⟨i, hi, hget⟩ := List.mem_iff_getElem.mp hmem
    have hp := List.getElem?_eq_getElem (hlength ▸ hi)
    obtain ⟨n, hn, howner, -, hbefore⟩ :=
      Name.leastFree_of_getElem?_map hp (List.getElem?_eq_some_iff.mpr ⟨hi, hget⟩)
    -- the number is written, since the base alone is not the name of the class
    have htwo : 2 ≤ n := by
      rcases Nat.lt_or_eq_of_le hn with htwo | rfl
      · exact htwo
      · rw [numbered_one] at howner
        exact absurd howner.symm (memberName_ne_owner _ owner)
    exact ⟨i, _, n, hp, htwo, howner.trans (numbered_of_two_le _ htwo), hbefore⟩
  · rintro ⟨i, p, n, hp, htwo, howner, hbefore⟩
    have hi := hlength.symm ▸ (List.getElem?_eq_some_iff.mp hp).1
    obtain ⟨m, hm, hname, hfree, htaken⟩ :=
      Name.leastFree_of_getElem?_map hp (List.getElem?_eq_getElem hi)
    rw [← numbered_of_two_le _ htwo] at howner
    -- the smaller numbers are taken, so the property has this one, or it is taken as well
    rcases Nat.lt_trichotomy m n with hlt | rfl | hgt
    · exact absurd (hbefore m hm hlt) (hname ▸ hfree)
    · exact List.mem_iff_getElem.mpr ⟨i, hi, hname.trans howner.symm⟩
    · have hmem := htaken n (by omega) hgt
      rw [← howner] at hmem
      exact List.mem_of_mem_take hmem

/-- **Members named like their class.** No base is the name of the class, but a member is named
like it exactly if the class goes by the base of its property with a number that is the next to be
given out. So there is none where the name of the class does not end in a digit. -/
theorem member_namedLikeClass_iff {definitions : Table Schema} {owner : String}
    {description : Option String} {properties : List (Property Schema)}
    {additional : Option Schema} {shape context : String} {m : Model}
    (h : (classModel definitions owner description properties additional shape context).outcome =
      .ok m) :
    ∃ members extension,
      m = .classModel owner (Text.oneLine? description) none members extension shape ∧
        (∀ p ∈ properties, memberName p.name owner ≠ owner) ∧
        (owner ∈ members.map (·.name) ↔
          NumberMeetsClass owner properties (members.map (·.name))) ∧
        ((∀ c, owner.toList.getLast? = some c → c.isDigit = false) →
          owner ∉ members.map (·.name)) := by
  obtain ⟨members, rfl, -, hnames⟩ := classModel_inv h
  refine ⟨members, _, rfl, fun p _ => memberName_ne_owner p.name owner, ?_, fun hlast hmem => ?_⟩
  · rw [hnames]
    exact owner_mem_uniqueNames_iff
  · rw [hnames] at hmem
    obtain ⟨c, hc, hdigit⟩ := (owner_mem_uniqueNames_iff.mp hmem).digit
    exact absurd hdigit (by simp [hlast c hc])

/-- Two properties of the same base. -/
def twins : List (Property Schema) := [⟨"a-b", .string, true⟩, ⟨"aB", .string, true⟩]

/-- In a class of another name the second one has the number. -/
theorem member_namedLikeClass_iff_twins : ∃ m,
    (classModel [] "AB3" none twins none "" "").outcome = .ok m ∧ classNames m = ["AB", "AB2"] ∧
      ∃ members extension, m = .classModel "AB3" none none members extension "" ∧
        ¬ NumberMeetsClass "AB3" twins (members.map (·.name)) := by
  have hnames : (classModel [] "AB3" none twins none "" "").outcome.toOption.map classNames =
      some ["AB", "AB2"] := by decide +kernel
  obtain ⟨m, hm, hnames⟩ := Option.map_eq_some_iff.mp hnames
  have hm := eq_ok_of_toOption hm
  obtain ⟨members, extension, rfl, -, hiff, -⟩ := member_namedLikeClass_iff hm
  refine ⟨_, hm, hnames, members, extension, rfl, fun hmeets => ?_⟩
  have hmem := List.mem_append_left extension.toList (hiff.mpr hmeets)
  rw [show members.map (·.name) ++ extension.toList = ["AB", "AB2"] from hnames] at hmem
  exact absurd hmem (by decide)

/-- **A member named like its class**: the second property is given the number that the class goes
by. -/
theorem twins_namedLikeClass : ∃ m,
    (classModel [] "AB2" none twins none "" "").outcome = .ok m ∧ m.name = "AB2" ∧
      classNames m = ["AB", "AB2"] := by
  have hnames : (classModel [] "AB2" none twins none "" "").outcome.toOption.map
      (fun m => (m.name, classNames m)) = some ("AB2", ["AB", "AB2"]) := by decide +kernel
  obtain ⟨m, hm, hnames⟩ := Option.map_eq_some_iff.mp hnames
  exact ⟨m, eq_ok_of_toOption hm, congrArg Prod.fst hnames, congrArg Prod.snd hnames⟩

end CSharp

end ClientGen
