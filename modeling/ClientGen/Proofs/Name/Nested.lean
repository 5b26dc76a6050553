import ClientGen.Proofs.Name.Normalize

/-!
# Nested names are flattened

`Page[List[Pet]]` is the name of a definition in generic form. Brackets are collapsed from the
outside: the first opening bracket goes with the last closing one, and what was between them is
looked at again, with a longer name in front.

* **One pair** (`collapse?_bracketed`): the outermost brackets around a text go, whatever is in it.
* **All pairs** (`collapsesTo_nested`): names in one another end as names in a row, by induction on
  the names, for any text in front that has no opening bracket.
* **White space** (`withBlanks_iff`): it may stand anywhere, since it is taken out first.

`normalize_nested` is the main statement.
-/

namespace ClientGen.Name

/-- Names in one another, each in the brackets of the one before. -/
def nested (outer : List Char) : (inner : List (List Char)) → List Char
  | [] => outer
  | name :: inner => outer ++ '[' :: (nested name inner ++ [']'])

/-- A text with white space put in, anywhere and any number of times. -/
inductive WithBlanks : List Char → List Char → Prop
  | nil : WithBlanks [] []
  | keep {s t : List Char} (c : Char) : WithBlanks s t → WithBlanks (c :: s) (c :: t)
  | blank {s t : List Char} {c : Char} : Text.isBlank c = true → WithBlanks s t →
      WithBlanks s (c :: t)

/-! ## Brackets -/

/-- **One pair**: the outermost brackets go. -/
theorem collapse?_bracketed {before inner : List Char} (hbefore : '[' ∉ before)
    (hinner : inner ≠ []) : collapse? (before ++ '[' :: (inner ++ [']'])) =
      some (before ++ ['O', 'f'] ++ inner) := by
  induction before with
  | nil => simp [collapse?, hinner]
  | cons c before ih =>
    obtain ⟨hc, hbefore⟩ := List.ne_and_not_mem_of_not_mem_cons hbefore
    rw [List.cons_append, collapse?_cons hc.symm, ih hbefore]
    rfl

theorem collapse?_eq_none {s : List Char} (h : '[' ∉ s) : collapse? s = none := by
  rcases hs : collapse? s with _ | t
  · rfl
  · obtain ⟨before, inner, after, rfl, -⟩ := collapse?_inv hs
    simp at h

/-- Collapsing has one result. -/
theorem CollapsesTo.unique {s t t' : List Char} (h : CollapsesTo s t) (h' : CollapsesTo s t') :
    t = t' := by
  induction h with
  | done hnone =>
    cases h' with
    | done _ => rfl
    | step hsome _ => cases hnone.symm.trans hsome
  | step hsome _ ih =>
    cases h' with
    | done hnone => cases hnone.symm.trans hsome
    | step hsome' hrest =>
      obtain rfl := Option.some.inj (hsome.symm.trans hsome')
      exact ih hrest

theorem nested_ne_nil {outer : List Char} (h : outer ≠ []) (inner : List (List Char)) :
    nested outer inner ≠ [] := by
  cases inner <;> simp [nested, h]

/-- **All pairs**: names in one another end as names in a row. -/
theorem collapsesTo_nested {inner : List (List Char)} :
    ∀ {before outer : List Char}, '[' ∉ before →
      (∀ name ∈ outer :: inner, isIdentifier name = true) →
      CollapsesTo (before ++ nested outer inner)
        (before ++ List.intercalate ['O', 'f'] (outer :: inner)) := by
  induction inner with
  | nil =>
    intro before outer hbefore hnames
    have houter : '[' ∉ outer := fun h => (of_mem_isIdentifier (hnames outer (by simp)) h).2.1 rfl
    rw [nested, List.intercalate_singleton]
    exact .done (collapse?_eq_none (by simp [hbefore, houter]))
  | cons name inner ih =>
    intro before outer hbefore hnames
    obtain ⟨houter, hinner⟩ := List.forall_mem_cons.mp hnames
    have hopen : '[' ∉ before ++ outer := by
      intro h
      rcases List.mem_append.mp h with h | h
      · exact hbefore h
      · exact (of_mem_isIdentifier houter h).2.1 rfl
    have hname : name ≠ [] := by
      rintro rfl
      exact absurd (hinner [] List.mem_cons_self) (by decide)
    -- the pair around the rest goes, and the names before it are now in front
    have hstep := collapse?_bracketed hopen (nested_ne_nil hname inner)
    have hof : '[' ∉ before ++ outer ++ ['O', 'f'] := by simpa using hopen
    have hrest := CollapsesTo.step hstep (ih hof hinner)
    rw [nested, List.intercalate_cons_cons]
    simpa only [List.append_assoc] using hrest

theorem collapseAll_nested {outer : List Char} {inner : List (List Char)}
    (h : ∀ name ∈ outer :: inner, isIdentifier name = true) :
    collapseAll (nested outer inner) = List.intercalate ['O', 'f'] (outer :: inner) :=
  (collapsesTo_collapseAll _).unique (collapsesTo_nested List.not_mem_nil h)

/-! ## White space -/

/-- Texts without white space are what is left if it is taken out. -/
theorem withBlanks_iff {s t : List Char} (hs : ∀ c ∈ s, Text.isBlank c = false) :
    WithBlanks s t ↔ t.filter (fun c => !Text.isBlank c) = s := by
  constructor
  · intro h
    induction h with
    | nil => rfl
    | keep c _ ih =>
      obtain ⟨hc, hs⟩ := List.forall_mem_cons.mp hs
      rw [List.filter_cons_of_pos (by simp [hc]), ih hs]
    | blank hc _ ih => rw [List.filter_cons_of_neg (by simp [hc]), ih hs]
  · rintro rfl
    clear hs
    induction t with
    | nil => exact .nil
    | cons c t ih =>
      by_cases hc : Text.isBlank c = true
      · rw [List.filter_cons_of_neg (by simp [hc])]
        exact .blank hc ih
      · rw [List.filter_cons_of_pos (by simp [hc])]
        exact .keep c ih

theorem isBlank_of_mem_nested {inner : List (List Char)} :
    ∀ {outer : List Char}, (∀ name ∈ outer :: inner, isIdentifier name = true) →
      ∀ c ∈ nested outer inner, Text.isBlank c = false := by
  induction inner with
  | nil => exact fun h c hc => (of_mem_isIdentifier (h _ List.mem_cons_self) hc).1
  | cons name inner ih =>
    intro outer h c hc
    obtain ⟨houter, hinner⟩ := List.forall_mem_cons.mp h
    simp only [nested, List.mem_append, List.mem_cons, List.not_mem_nil, or_false] at hc
    rcases hc with hc | rfl | hc | rfl
    · exact (of_mem_isIdentifier houter hc).1
    · decide
    · exact ih hinner c hc
    · decide

/-! ## Names -/

theorem isIdentifier_intercalate {inner : List (List Char)} :
    ∀ {outer : List Char}, (∀ name ∈ outer :: inner, isIdentifier name = true) →
      isIdentifier (List.intercalate ['O', 'f'] (outer :: inner)) = true := by
  induction inner with
  | nil =>
    intro outer h
    rw [List.intercalate_singleton]
    exact h outer List.mem_cons_self
  | cons name inner ih =>
    intro outer h
    obtain ⟨houter, hinner⟩ := List.forall_mem_cons.mp h
    rw [List.intercalate_cons_cons, List.append_assoc]
    refine isIdentifier_append houter ?_
    have hof : isIdentifier ['O', 'f'] = true := by decide
    exact List.forall_mem_append.mpr
      ⟨(isIdentifier_iff.mp hof).1, (isIdentifier_iff.mp (ih hinner)).1⟩

/-- Names in one another are normalized as the names in a row are. -/
theorem normalizeChars_nested {any outer raw : List Char} {inner : List (List Char)}
    (h : ∀ name ∈ outer :: inner, isIdentifier name = true)
    (hraw : WithBlanks (nested outer inner) raw) :
    normalizeChars any raw = normalizeChars any (List.intercalate ['O', 'f'] (outer :: inner)) := by
  have hflat := isIdentifier_intercalate h
  have hfilter := (withBlanks_iff (isBlank_of_mem_nested h)).mp hraw
  rw [normalizeChars_of_isIdentifier hflat]
  simp only [normalizeChars, hfilter, collapseAll_nested h, sanitizeChars_eq_self hflat]

/-- Two names in a row have the `f` between them. -/
theorem f_mem_intercalate {outer : List Char} {inner : List (List Char)} (h : inner ≠ []) :
    'f' ∈ List.intercalate ['O', 'f'] (outer :: inner) := by
  obtain ⟨name, inner, rfl⟩ := List.exists_cons_of_ne_nil h
  rw [List.intercalate_cons_cons]
  simp

end ClientGen.Name

namespace ClientGen

/-- **Nested names are flattened**, in both languages. Identifiers in one another, at any depth and
with white space anywhere, become one name, with `Of` between them. It is never any value, since
the names of any value have no `f`. -/
theorem normalize_nested (language : Language) (outer : String) (inner : List String)
    (hinner : inner ≠ [])
    (hnames : ∀ name ∈ outer :: inner, Name.isIdentifier name.toList = true) (raw : String)
    (hraw : Name.WithBlanks (Name.nested outer.toList (inner.map String.toList)) raw.toList) :
    Name.normalize language.anyType raw = "Of".intercalate (outer :: inner) ∧
      Name.isAny language.anyType raw = false := by
  have hlist : ∀ name ∈ outer.toList :: inner.map String.toList,
      Name.isIdentifier name = true := by
    rw [← List.map_cons]
    exact List.forall_mem_map.mpr hnames
  have hmem : 'f' ∈ List.intercalate ['O', 'f'] (outer.toList :: inner.map String.toList) :=
    Name.f_mem_intercalate (by simpa using hinner)
  have hobject : (List.intercalate ['O', 'f'] (outer.toList :: inner.map String.toList)).map
      Char.toLower ≠ Name.objectName := by
    intro h
    exact absurd (h ▸ List.mem_map_of_mem hmem) (by decide)
  have hname : (Name.normalize language.anyType raw).toList =
      List.intercalate ['O', 'f'] (outer.toList :: inner.map String.toList) := by
    rw [Name.normalize, String.toList_ofList, Name.normalizeChars_nested hlist hraw,
      Name.normalizeChars_of_isIdentifier (Name.isIdentifier_intercalate hlist), if_neg hobject]
  constructor
  · rw [← String.toList_inj, hname, String.toList_intercalate]
    rfl
  · refine decide_eq_false fun hany => ?_
    rw [← hname, hany] at hmem
    cases language <;> exact absurd hmem (by decide)

/-- Three names in one another, with white space around the brackets and in a name. -/
theorem normalize_nested_pages :
    (Name.normalize CSharp.anyType "Page [ object\t[Pe t ] ]" = "PageOfobjectOfPet" ∧
      Name.isAny CSharp.anyType "Page [ object\t[Pe t ] ]" = false) ∧
    Name.normalize TypeScript.anyType "Page [ object\t[Pe t ] ]" = "PageOfobjectOfPet" ∧
      Name.isAny TypeScript.anyType "Page [ object\t[Pe t ] ]" = false := by
  have hnames : ∀ name ∈ ["Page", "object", "Pet"], Name.isIdentifier name.toList = true := by
    decide
  have hraw : Name.WithBlanks (Name.nested "Page".toList (["object", "Pet"].map String.toList))
      "Page [ object\t[Pe t ] ]".toList :=
    (Name.withBlanks_iff (Name.isBlank_of_mem_nested (by decide))).mpr (by decide)
  exact ⟨normalize_nested .csharp "Page" ["object", "Pet"] (by simp) hnames _ hraw,
    normalize_nested .typescript "Page" ["object", "Pet"] (by simp) hnames _ hraw⟩

end ClientGen
