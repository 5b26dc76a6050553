import ClientGen.Proofs.CSharp.Signature
import ClientGen.Proofs.CSharp.Scope
import ClientGen.Proofs.Text.Comment
import ClientGen.Proofs.TypeScript.Scope

/-!
# Comments of documents

The comments that a document is written with, and how far they reach. All documentation is put on
one line before it is kept (`Flat`), and escaped when it is written.

* **TypeScript** (`isComment_of_emitModule`): a comment is closed at its end, and not before.
* **C#** (`isElement_of_runs`): a comment is one element on one line, and what is between its tags
  stays there.

`documentation_contained` is the main statement.
-/

namespace ClientGen

/-- Documentation that was put on one line, if there is any. -/
def Text.Flat (description : Option String) : Prop := ∃ s, description = Text.oneLine? s

theorem Text.Flat.exists_oneLine {text : String} (h : Text.Flat (some text)) :
    ∃ s, text = Text.oneLine s := by
  obtain ⟨s, hs⟩ := h
  rw [Text.oneLine?] at hs
  split at hs
  · cases hs
  · cases s with
    | none => cases hs
    | some s => exact ⟨s, Option.some.inj hs⟩

open Text (isBlank IsSpaced Flat)

/-! ## TypeScript -/

namespace TypeScript

/-- A comment on a line of its own, closed at its end and not before. -/
structure IsComment (line : String) : Prop where
  opened : ∃ n, List.replicate n ' ' ++ ['/', '*', '*'] <+: line.toList
  closed : closing <:+ line.toList
  once : ¬ closing <:+: line.toList.dropLast
  oneLine : ∀ c ∈ line.toList, isBlank c = true → c = ' '

/-- The comments of a declaration. -/
def TypeDecl.comments : TypeDecl → List String
  | .interface _ description fields _ =>
    commentLines "        " description ++
      fields.flatMap fun f => commentLines "            " f.description
  | .enum _ description _ => commentLines "        " description
  | .array _ description _ => commentLines "        " description
  | .alias _ description _ => commentLines "        " description

/-- The comment of a method, if it has one: what stands before its last line. -/
def MethodDecl.comments (m : MethodDecl) : List String := m.lines.dropLast

/-- The comments of a module. -/
def Module.comments (m : Module) : List String :=
  m.declarations.flatMap TypeDecl.comments ++ m.methods.flatMap MethodDecl.comments

/-! ### Lines -/

theorem not_infix_of_notMem {s : List Char} (h : '*' ∉ s) : ¬ closing <:+: s :=
  fun hin => h (hin.subset List.mem_cons_self)

/-- Two texts make no `*/` where they meet, unless the one ends with `*` and the other starts with
`/`. -/
theorem not_infix_append {s t : List Char} (hs : ¬ closing <:+: s) (ht : ¬ closing <:+: t)
    (hjoin : s.getLast? ≠ some '*' ∨ t.head? ≠ some '/') : ¬ closing <:+: s ++ t := by
  rw [List.infix_append_iff]
  rintro (h | h | ⟨u, v, huv, ⟨s', rfl⟩, ⟨t', rfl⟩⟩)
  · exact hs h
  · exact ht h
  · rw [closing, List.cons_eq_append_iff] at huv
    rcases huv with ⟨rfl, rfl⟩ | ⟨u, rfl, huv⟩
    · exact ht (List.infix_append' [] _ t')
    · rw [List.cons_eq_append_iff] at huv
      rcases huv with ⟨rfl, rfl⟩ | ⟨u, rfl, huv⟩
      · simp at hjoin
      · obtain ⟨rfl, rfl⟩ := List.append_eq_nil_iff.mp huv.symm
        exact hs (List.suffix_append s' _).isInfix

/-- A comment around a body that starts with a space. -/
theorem isComment_of_body {line : String} (n : Nat) (body : List Char)
    (hline : line.toList = List.replicate n ' ' ++ ['/', '*', '*'] ++ body ++ [' ', '*', '/'])
    (hhead : body.head? = some ' ') (hclosing : ¬ closing <:+: body)
    (hblank : ∀ c ∈ body, isBlank c = true → c = ' ') : IsComment line := by
  have hopening : ¬ closing <:+: List.replicate n ' ' ++ ['/', '*', '*'] := by
    refine not_infix_append (not_infix_of_notMem ?_) (by decide) (.inl ?_)
    · simp
    · simp [List.getLast?_replicate]
  refine ⟨⟨n, ?_⟩, ?_, ?_, ?_⟩
  · exact hline ▸ (List.prefix_append _ _).trans (List.prefix_append _ _)
  · exact hline ▸ (List.suffix_append [' '] closing).trans (List.suffix_append _ _)
  · rw [hline, List.dropLast_append_of_ne_nil (by simp)]
    refine not_infix_append (not_infix_append hopening hclosing (.inr ?_)) (by decide) (.inr ?_)
    · simp [hhead]
    · simp
  · intro c hc hc'
    simp only [hline, List.mem_append, List.mem_replicate, List.mem_cons, List.not_mem_nil,
      or_false] at hc
    rcases hc with ((⟨-, rfl⟩ | rfl | rfl | rfl) | hc) | rfl | rfl | rfl
    · rfl
    · exact absurd hc' (by decide)
    · exact absurd hc' (by decide)
    · exact absurd hc' (by decide)
    · exact hblank c hc hc'
    · rfl
    · exact absurd hc' (by decide)
    · exact absurd hc' (by decide)

/-- A comment around documentation, with a mark after it or without. -/
theorem isComment_of_text {line : String} (n : Nat) (s : String) (mark : List Char)
    (hline : line.toList = List.replicate n ' ' ++ ['/', '*', '*'] ++
      (' ' :: escapeComment (Text.oneLine s).toList ++ mark) ++ [' ', '*', '/'])
    (hmark : ¬ closing <:+: mark ∧ mark.head? ≠ some '/')
    (hblank : ∀ c ∈ mark, isBlank c = true → c = ' ') : IsComment line := by
  obtain ⟨hspaced, hunclosed⟩ := staysInside_escapeComment s
  refine isComment_of_body n _ hline (by simp) ?_ fun c hc hc' => ?_
  · have htext := not_infix_append (s := [' ']) (by decide) hunclosed (.inl (by decide))
    rw [List.singleton_append] at htext
    exact not_infix_append htext hmark.1 (.inr hmark.2)
  · rcases List.mem_append.mp hc with hc | hc
    · rcases List.mem_cons.mp hc with rfl | hc
      · rfl
      · exact hspaced.eq_space hc hc'
    · exact hblank c hc hc'

/-! ### Declarations and methods -/

theorem isComment_of_commentLines {indent : String} {n : Nat}
    (hindent : indent.toList = List.replicate n ' ') {description : Option String}
    (hflat : Flat description) : ∀ line ∈ commentLines indent description, IsComment line := by
  intro line hline
  cases description with
  | none => cases hline
  | some text =>
    obtain ⟨s, rfl⟩ := hflat.exists_oneLine
    obtain rfl := List.mem_singleton.mp hline
    refine isComment_of_text n s [] ?_ (by decide) (by simp)
    simp [hindent]

variable {scope : Scope}

theorem flat_propertyField {name context : String} {p : Property Schema} {field : FieldDecl}
    (h : scope.propertyField name context p = .ok field) : Flat field.description := by
  obtain ⟨type, -, h⟩ := bind_eq_ok h
  obtain rfl := pure_eq_ok h
  exact ⟨_, rfl⟩

theorem flat_parameterField {context : String} {p : Parameter} {field : FieldDecl}
    (h : scope.parameterField context p = .ok field) : Flat field.description := by
  obtain ⟨type, -, h⟩ := bind_eq_ok h
  obtain rfl := pure_eq_ok h
  exact ⟨_, rfl⟩

/-- The documentation of a declaration and of its fields. -/
def TypeDecl.descriptions : TypeDecl → List (Option String)
  | .interface _ description fields _ => description :: fields.map (·.description)
  | .enum _ description _ => [description]
  | .array _ description _ => [description]
  | .alias _ description _ => [description]

theorem flat_of_mapM {α : Type} {f : α → Except EmitError FieldDecl} {l : List α}
    {fields : List FieldDecl} (h : l.mapM f = .ok fields)
    (hf : ∀ {a field}, f a = .ok field → Flat field.description) :
    ∀ description ∈ fields.map (·.description), Flat description := by
  intro description hmem
  obtain ⟨field, hfield, rfl⟩ := List.mem_map.mp hmem
  obtain ⟨a, -, ha⟩ := exists_of_mem_mapM h hfield
  exact hf ha

/-- **One declaration** keeps documentation on one line, whichever scope it is declared in. -/
theorem flat_of_declare {d : Declaration} {t : TypeDecl} (h : scope.declare d = .ok t) :
    ∀ description ∈ t.descriptions, Flat description := by
  cases Scope.declares_of_declare h with
  | request hfields =>
    exact List.forall_mem_cons.mpr ⟨⟨none, rfl⟩, flat_of_mapM hfields flat_parameterField⟩
  | object hfields _ =>
    exact List.forall_mem_cons.mpr ⟨⟨_, rfl⟩, flat_of_mapM hfields flat_propertyField⟩
  | reference _ => exact List.forall_mem_singleton.mpr ⟨none, rfl⟩
  | _ => exact List.forall_mem_singleton.mpr ⟨_, rfl⟩

theorem TypeDecl.comments_subset (t : TypeDecl) : t.comments ⊆ t.lines := by
  intro line hline
  cases t with
  | interface name description fields index =>
    rcases List.mem_append.mp hline with hline | hline
    · simp [lines, hline]
    · obtain ⟨f, hf, hline⟩ := List.mem_flatMap.mp hline
      have hfield : line ∈ f.lines := List.mem_append_left _ hline
      have hmem := List.mem_flatMap.mpr ⟨f, hf, hfield⟩
      simp only [lines, List.mem_append]
      exact .inl (.inl (.inr hmem))
  | _ =>
    simp only [comments] at hline
    simp only [lines, List.append_assoc, List.mem_append]
    exact .inl hline

/-- The comments of flat documentation. -/
theorem TypeDecl.isComment_of_flat {t : TypeDecl}
    (h : ∀ description ∈ t.descriptions, Flat description) :
    ∀ line ∈ t.comments, IsComment line := by
  have houter : "        ".toList = List.replicate 8 ' ' := rfl
  have hinner : "            ".toList = List.replicate 12 ' ' := rfl
  intro line hline
  cases t with
  | interface name description fields index =>
    simp only [descriptions, List.forall_mem_cons] at h
    obtain ⟨hdescription, hfields⟩ := h
    rcases List.mem_append.mp hline with hline | hline
    · exact isComment_of_commentLines houter hdescription line hline
    · obtain ⟨f, hf, hline⟩ := List.mem_flatMap.mp hline
      have hflat := hfields _ (List.mem_map_of_mem hf)
      exact isComment_of_commentLines hinner hflat line hline
  | _ =>
    simp only [descriptions, List.forall_mem_singleton] at h
    exact isComment_of_commentLines houter h line hline

/-- The mark of a deprecated method. -/
def deprecatedMark : String := " @deprecated"

theorem deprecatedMark_harmless :
    (¬ closing <:+: deprecatedMark.toList ∧ deprecatedMark.toList.head? ≠ some '/') ∧
      ∀ c ∈ deprecatedMark.toList, isBlank c = true → c = ' ' := by
  refine ⟨⟨not_infix_of_notMem (by decide), by decide⟩, ?_⟩
  exact List.all_iff_forall_prop.mp (by decide)

/-- The comment of a method holds a summary, a mark, or both. -/
theorem MethodDecl.mem_comments {m : MethodDecl} {line : String} (h : line ∈ m.comments) :
    (∃ text, m.summary = some text ∧
      (line = "            /**" ++ (" " ++ String.ofList (escapeComment text.toList)) ++
        "" ++ " */" ∨
      line = "            /**" ++ (" " ++ String.ofList (escapeComment text.toList)) ++
        deprecatedMark ++ " */")) ∨
    line = "            /**" ++ "" ++ deprecatedMark ++ " */" := by
  obtain ⟨name, parameter, returnType, summary, deprecated⟩ := m
  simp only [comments, lines, List.dropLast_concat] at h
  cases summary with
  | none =>
    cases deprecated with
    | false => simp at h
    | true =>
      simp only [Bool.or_true, if_true, List.mem_singleton] at h
      exact .inr h
  | some text =>
    refine .inl ⟨text, rfl, ?_⟩
    cases deprecated with
    | false =>
      simp only [Option.isSome_some, Bool.true_or, if_true, List.mem_singleton] at h
      exact .inl h
    | true =>
      simp only [Bool.or_true, if_true, List.mem_singleton] at h
      exact .inr h

/-- **One method.** -/
theorem MethodDecl.isComment_of_flat {m : MethodDecl} (h : Flat m.summary) :
    ∀ line ∈ m.comments, IsComment line := by
  obtain ⟨hmark, hblank⟩ := deprecatedMark_harmless
  have hindent : "            /**".toList = List.replicate 12 ' ' ++ ['/', '*', '*'] := by decide
  have hclose : " */".toList = [' ', '*', '/'] := by decide
  have hspace : " ".toList = [' '] := by decide
  intro line hline
  rcases mem_comments hline with ⟨text, hsummary, hline⟩ | hline
  · obtain ⟨s, rfl⟩ := (hsummary ▸ h).exists_oneLine
    rcases hline with hline | hline
    · refine isComment_of_text 12 s [] ?_ (by decide) (by simp)
      simp only [hline, String.toList_append, hindent, hclose, hspace, String.toList_ofList]
      simp
    · refine isComment_of_text 12 s deprecatedMark.toList ?_ hmark hblank
      simp only [hline, String.toList_append, hindent, hclose, hspace, String.toList_ofList,
        List.singleton_append, List.append_assoc]
  · refine isComment_of_body 12 deprecatedMark.toList ?_ (by decide) hmark.1 hblank
    simp only [hline, String.toList_append, hindent, hclose, String.append_empty]

/-- **One module**: its comments are among its lines. -/
theorem isComment_of_emitModule {spec : Specification} {names names' : Names} {m : Module}
    (h : emitModule spec names = .ok (m, names')) :
    ∀ line ∈ m.comments, line ∈ m.lines ∧ IsComment line := by
  obtain ⟨⟨declared, names''⟩, -, h⟩ := bind_eq_ok h
  obtain ⟨declarations, hdeclare, h⟩ := bind_eq_ok h
  obtain ⟨methods, hmethods, h⟩ := bind_eq_ok h
  cases pure_eq_ok h
  intro line hline
  simp only [Module.lines, List.mem_append, List.mem_flatMap]
  rcases List.mem_append.mp hline with hline | hline
  · obtain ⟨t, ht, hline⟩ := List.mem_flatMap.mp hline
    obtain ⟨d, -, hd⟩ := exists_of_mem_mapM hdeclare ht
    refine ⟨.inl (.inl (.inl (.inr ⟨t, ht, .inl (t.comments_subset hline)⟩))), ?_⟩
    exact TypeDecl.isComment_of_flat (flat_of_declare hd) line hline
  · obtain ⟨method, hmethod, hline⟩ := List.mem_flatMap.mp hline
    obtain ⟨⟨item, op⟩, -, hop⟩ := exists_of_mem_mapM hmethods hmethod
    obtain ⟨type, -, hop⟩ := bind_eq_ok hop
    obtain rfl := pure_eq_ok hop
    exact ⟨.inl (.inr ⟨_, hmethod, List.dropLast_subset _ hline⟩),
      MethodDecl.isComment_of_flat ⟨_, rfl⟩ line hline⟩

theorem isComment_of_mem_parts {specs : List Specification} {registry : Registry} :
    ∀ m ∈ (batch specs registry).parts, ∀ line ∈ m.comments, line ∈ m.lines ∧ IsComment line := by
  have hbatch : ∀ entry ∈ (batch specs registry).emitted, ∀ line ∈ entry.2.comments,
      line ∈ entry.2.lines ∧ IsComment line := by
    refine emitBatch_invariant (P := fun _ (emitted : List (Specification × Module)) =>
      ∀ entry ∈ emitted, ∀ line ∈ entry.2.comments, line ∈ entry.2.lines ∧ IsComment line)
      (fun _ h => by cases h) ?_
    intro spec _ names names' emitted m hemitted hemit entry hentry
    rcases List.mem_append.mp hentry with hentry | hentry
    · exact hemitted entry hentry
    · rw [List.mem_singleton.mp hentry]
      exact isComment_of_emitModule hemit
  intro m hm
  obtain ⟨entry, hentry, rfl⟩ := List.mem_map.mp hm
  exact hbatch entry hentry

end TypeScript

/-! ## C# -/

namespace CSharp

/-- Text without a tag in it and without an end of a line. -/
def IsInert (s : List Char) : Prop := ∀ c ∈ s, c ≠ '<' ∧ c ≠ '>' ∧ c ∉ lineBreaks

/-- A comment on a line of its own that holds an element: a tag, documentation on one line, and the
same tag again. -/
structure IsElement (line : String) : Prop where
  element : ∃ indent name attributes s : String,
    line = indent ++ "/// <" ++ name ++ attributes ++ ">" ++ escapeXml (Text.oneLine s) ++
      "</" ++ name ++ ">" ∧
    (∀ c ∈ indent.toList, c = ' ') ∧ IsInert name.toList ∧ IsInert attributes.toList
  oneLine : ∀ c ∈ line.toList, c ∉ lineBreaks

/-- The comments of a model. -/
def Model.comments : Model → List String
  | .enumModel _ description _ _ => summaryLines "    " (description.map escapeXml)
  | .classModel _ description _ properties _ _ =>
    summaryLines "    " (description.map escapeXml) ++
      properties.flatMap fun p => summaryLines "        " (p.description.map escapeXml)

/-- The comments of a client. -/
def Client.comments (c : Client) : List String :=
  summaryLines "    " c.description ++ c.methods.flatMap fun m => m.docs.map ("        /// " ++ ·)

/-- The comments of what a specification adds to a document. -/
def Part.comments (part : Part) : List String :=
  part.models.flatMap Model.comments ++ part.client.comments

/-- The lines of what a specification adds to a document. -/
def Part.lines (part : Part) : List String := part.models.flatMap Model.lines ++ part.client.lines

/-! ### Lines -/

theorem isElement_of_text {line : String} (indent name attributes s : String)
    (hline : line = indent ++ "/// <" ++ name ++ attributes ++ ">" ++ escapeXml (Text.oneLine s) ++
      "</" ++ name ++ ">")
    (hindent : ∀ c ∈ indent.toList, c = ' ') (hname : IsInert name.toList)
    (hattributes : IsInert attributes.toList) : IsElement line := by
  refine ⟨⟨indent, name, attributes, s, hline, hindent, hname, hattributes⟩, fun c hc => ?_⟩
  have hopen : ∀ c ∈ "/// <".toList, c ∉ lineBreaks := List.all_iff_forall_prop.mp (by decide)
  have hclose : ∀ c ∈ "</".toList, c ∉ lineBreaks := List.all_iff_forall_prop.mp (by decide)
  have hend : ∀ c ∈ ">".toList, c ∉ lineBreaks := List.all_iff_forall_prop.mp (by decide)
  simp only [hline, String.toList_append, List.mem_append] at hc
  rcases hc with (((((((hc | hc) | hc) | hc) | hc) | hc) | hc) | hc) | hc
  · rw [hindent c hc]
    decide
  · exact hopen c hc
  · exact (hname c hc).2.2
  · exact (hattributes c hc).2.2
  · exact hend c hc
  · exact (staysInside_escapeXml s).oneLine c hc
  · exact hclose c hc
  · exact (hname c hc).2.2
  · exact hend c hc

theorem isInert_of_all {s : List Char}
    (h : s.all (fun c => decide (c ≠ '<' ∧ c ≠ '>' ∧ c ∉ lineBreaks)) = true) : IsInert s :=
  List.all_iff_forall_prop.mp h

/-- Models and clients are indented by four spaces, what is in them by eight. -/
theorem eq_space_of_mem_modelIndent : ∀ c ∈ "    ".toList, c = ' ' :=
  List.all_iff_forall_prop.mp (by decide)

theorem eq_space_of_mem_docIndent : ∀ c ∈ "        ".toList, c = ' ' :=
  List.all_iff_forall_prop.mp (by decide)

theorem isElement_of_summaryLines {indent : String} (hindent : ∀ c ∈ indent.toList, c = ' ')
    {description : Option String} (hflat : Flat description) :
    ∀ line ∈ summaryLines indent (description.map escapeXml), IsElement line := by
  have hopen : "/// <summary>" = "/// <" ++ "summary" ++ "" ++ ">" := by decide
  have hclose : "</summary>" = "</" ++ "summary" ++ ">" := by decide
  intro line hline
  cases description with
  | none => cases hline
  | some text =>
    obtain ⟨s, rfl⟩ := hflat.exists_oneLine
    refine isElement_of_text indent "summary" "" s ?_ hindent (isInert_of_all (by decide))
      (isInert_of_all (by decide))
    rw [List.mem_singleton.mp hline, hopen, hclose]
    simp only [String.append_assoc]

/-! ### Models -/

/-- The documentation of a model and of its properties. -/
def Model.descriptions : Model → List (Option String)
  | .enumModel _ description _ _ => [description]
  | .classModel _ description _ properties _ _ => description :: properties.map (·.description)

theorem flat_of_mem_membersOf {owner : String} {taken : List String} {ps : List (Property Schema)}
    {types : List TypeRef} : ∀ p ∈ membersOf owner taken ps types, Flat p.description := by
  fun_induction membersOf owner taken ps types with
  | case1 taken p ps t ts name ih => exact List.forall_mem_cons.mpr ⟨⟨_, rfl⟩, ih⟩
  | case2 => intro p hp; cases hp

/-- **One model** keeps documentation on one line. -/
theorem Makes.flat {definitions : Table Schema} {name context : String} {schema : Schema}
    {m : Model} {ms : List Model} (h : Makes definitions name context schema m ms) :
    ∀ description ∈ m.descriptions, Flat description := by
  cases h with
  | object _ hall =>
    refine List.forall_mem_cons.mpr ⟨⟨_, rfl⟩, fun description hmem => ?_⟩
    obtain ⟨p, hp, rfl⟩ := List.mem_map.mp hmem
    exact flat_of_mem_membersOf p hp
  | empty => exact List.forall_mem_singleton.mpr ⟨_, rfl⟩
  | dictionary _ => exact List.forall_mem_singleton.mpr ⟨_, rfl⟩
  | list _ => exact List.forall_mem_singleton.mpr ⟨_, rfl⟩
  | enum _ => exact List.forall_mem_singleton.mpr ⟨_, rfl⟩

theorem Model.isElement_of_flat {m : Model} (h : ∀ description ∈ m.descriptions, Flat description) :
    ∀ line ∈ m.comments, IsElement line := by
  intro line hline
  cases m with
  | enumModel name description members shape =>
    simp only [descriptions, List.forall_mem_singleton] at h
    exact isElement_of_summaryLines eq_space_of_mem_modelIndent h line hline
  | classModel name description base properties extension shape =>
    simp only [descriptions, List.forall_mem_cons] at h
    obtain ⟨hdescription, hproperties⟩ := h
    rcases List.mem_append.mp hline with hline | hline
    · exact isElement_of_summaryLines eq_space_of_mem_modelIndent hdescription line hline
    · obtain ⟨p, hp, hline⟩ := List.mem_flatMap.mp hline
      have hflat := hproperties _ (List.mem_map_of_mem hp)
      exact isElement_of_summaryLines eq_space_of_mem_docIndent hflat line hline

theorem subset_spaced {groups : List (List String)} : ∀ group ∈ groups, group ⊆ spaced groups := by
  fun_induction spaced groups with
  | case1 => intro group h; cases h
  | case2 group => exact List.forall_mem_singleton.mpr fun _ h => h
  | case3 group groups _ ih =>
    refine List.forall_mem_cons.mpr ⟨List.subset_append_left _ _, fun g hg => ?_⟩
    exact List.subset_append_of_subset_right _ (List.subset_cons_of_subset _ (ih g hg))

theorem subset_bracedLines (indent : String) (body : List String) :
    body ⊆ bracedLines indent body :=
  List.subset_append_of_subset_left _ (List.subset_append_right _ _)

theorem Model.comments_subset (m : Model) : m.comments ⊆ m.lines := by
  intro line hline
  cases m with
  | enumModel name description members shape =>
    simp only [comments] at hline
    simp only [lines, List.append_assoc, List.mem_append]
    exact .inl hline
  | classModel name description base properties extension shape =>
    simp only [comments, List.mem_append, List.mem_flatMap] at hline
    simp only [lines, List.mem_append]
    rcases hline with hline | ⟨p, hp, hline⟩
    · exact .inl (.inl hline)
    · have hgroup : p.lines ∈ properties.map ModelProperty.lines ++
          if extension.isSome then [extensionLines extension] else [] :=
        List.mem_append_left _ (List.mem_map_of_mem hp)
      exact .inr (subset_bracedLines _ _ (subset_spaced _ hgroup (List.mem_append_left _ hline)))

/-! ### Clients -/

theorem flat_of_mem_argumentsOf {taken : List String} {ps : List Parameter} {types : List TypeRef} :
    ∀ a ∈ argumentsOf taken ps types, Flat a.description := by
  fun_induction argumentsOf taken ps types with
  | case1 taken p ps t ts argument ih => exact List.forall_mem_cons.mpr ⟨⟨_, rfl⟩, ih⟩
  | case2 => intro a ha; cases ha

theorem flat_tokenArgument : Flat tokenArgument.description :=
  ⟨some "OAuth bearer token", by decide +kernel⟩

theorem flat_of_mem_arguments {spec : Specification} {item : PathItem} {op : Operation}
    {stem : String} {args : List Argument} {ms : List Model}
    (h : (arguments spec item op stem).Runs args ms) : ∀ a ∈ args, Flat a.description := by
  rw [arguments] at h
  obtain ⟨rest, hrest, rfl⟩ := h.bind_pure_inv
  obtain ⟨types, -, rfl⟩ := runsAll_of_argumentsAfter hrest
  intro a ha
  rcases List.mem_append.mp ha with ha | ha
  · split at ha
    · rw [List.mem_singleton.mp ha]
      exact flat_tokenArgument
    · cases ha
  · exact flat_of_mem_argumentsOf a (mem_of_mem_signatureOrder ha)

/-- A name without its escape, as documentation has it. -/
theorem dropWhile_at_of_isUsable {name : String} (h : IsUsable name) :
    name.toList.dropWhile (· = '@') = (bareName name).toList := by
  have hhead := head?_of_isIdentifier h.1
  have hself : (bareName name).toList.dropWhile (· = '@') = (bareName name).toList := by
    cases hchars : (bareName name).toList with
    | nil => rfl
    | cons c rest =>
      rw [hchars] at hhead
      exact List.dropWhile_cons_of_neg (by simpa using hhead)
  rcases bareName_cases name with heq | heq
  · have hlist := congrArg String.toList heq
    rw [String.toList_append] at hlist
    rw [hlist]
    exact hself
  · rw [← heq] at hself ⊢
    exact hself

theorem isInert_of_isIdentifier {s : List Char} (h : Name.isIdentifier s = true) : IsInert s := by
  intro c hc
  have hlookup := Name.of_isIdentifierChar
    (p := fun c => decide (c ≠ '<' ∧ c ≠ '>' ∧ c ∉ lineBreaks)) (by decide)
    ((Name.isIdentifier_iff.mp h).1 c hc)
  exact of_decide_eq_true hlookup

theorem IsInert.append {s t : List Char} (hs : IsInert s) (ht : IsInert t) : IsInert (s ++ t) :=
  List.forall_mem_append.mpr ⟨hs, ht⟩

/-- What stands before an element of a method. -/
theorem docIndent_eq : "        /// " = "        " ++ "/// " := by decide

theorem isElement_of_docElement {name : String} (hname : IsInert name.toList)
    {text : Option String} :
    ∀ doc ∈ docElement name text, IsElement ("        /// " ++ doc) := by
  have hopen : "/// <" = "/// " ++ "<" := by decide
  intro doc hdoc
  rw [docElement] at hdoc
  split at hdoc
  · next line hline =>
    obtain ⟨s, rfl⟩ := Flat.exists_oneLine ⟨text, hline.symm⟩
    refine isElement_of_text _ name "" s ?_ eq_space_of_mem_docIndent hname
      (isInert_of_all (by decide))
    rw [List.mem_singleton.mp hdoc, docIndent_eq, hopen, String.append_empty]
    simp only [String.append_assoc]
  · cases hdoc

theorem isElement_of_argumentDoc {a : Argument} (hflat : Flat a.description)
    (hident : IsUsable a.ident) : ∀ doc ∈ argumentDoc a, IsElement ("        /// " ++ doc) := by
  have hopen : "/// <" = "/// " ++ "<" := by decide
  have hparam : "<param name=\"" = "<" ++ "param" ++ " name=\"" := by decide
  have hquote : "\">" = "\"" ++ ">" := by decide
  have hclose : "</param>" = "</" ++ "param" ++ ">" := by decide
  intro doc hdoc
  simp only [argumentDoc] at hdoc
  split at hdoc
  · next text htext =>
    obtain ⟨s, rfl⟩ := (htext ▸ hflat).exists_oneLine
    refine isElement_of_text _ "param" (" name=\"" ++ bareName a.ident ++ "\"") s ?_
      eq_space_of_mem_docIndent (isInert_of_all (by decide)) ?_
    · rw [List.mem_singleton.mp hdoc, dropWhile_at_of_isUsable hident, String.ofList_toList,
        docIndent_eq, hopen, hparam, hquote, hclose]
      simp only [String.append_assoc]
    · rw [String.toList_append, String.toList_append]
      exact ((isInert_of_all (by decide)).append (isInert_of_isIdentifier hident.1)).append
        (isInert_of_all (by decide))
  · cases hdoc

/-- **One method.** -/
theorem isElement_of_methodDocs {op : Operation} {args : List Argument}
    (h : ∀ a ∈ args, Flat a.description ∧ IsUsable a.ident) :
    ∀ doc ∈ methodDocs op args, IsElement ("        /// " ++ doc) := by
  intro doc hdoc
  simp only [methodDocs, List.mem_append, List.mem_flatMap] at hdoc
  rcases hdoc with ((hdoc | hdoc) | ⟨a, ha, hdoc⟩) | hdoc
  · exact isElement_of_docElement (isInert_of_all (by decide)) doc hdoc
  · exact isElement_of_docElement (isInert_of_all (by decide)) doc hdoc
  · exact isElement_of_argumentDoc (h a ha).1 (h a ha).2 doc hdoc
  · exact isElement_of_docElement (isInert_of_all (by decide)) doc hdoc

theorem docs_of_planMethod {spec : Specification} {options : EmitOptions} {item : PathItem}
    {op : Operation} {name : String} {method : ClientMethod} {ms : List Model}
    (h : (planMethod spec options item op name).Runs method ms) :
    ∃ args, (∀ a ∈ args, Flat a.description ∧ IsUsable a.ident) ∧
      method.docs = methodDocs op args := by
  rw [planMethod] at h
  obtain ⟨signature, _, _, hsignature, hrest, -⟩ := h.bind_inv
  obtain ⟨_, -, rfl⟩ := hrest.bind_pure_inv
  rw [planSignature] at hsignature
  obtain ⟨success, _, _, -, hrest, -⟩ := hsignature.bind_inv
  obtain ⟨args, _, _, hargs, hlast, -⟩ := hrest.bind_inv
  obtain ⟨cases, -, rfl⟩ := hlast.bind_pure_inv
  obtain ⟨rest, hof⟩ := argumentsOf_of_runs hargs.outcome
  refine ⟨args, fun a ha => ⟨flat_of_mem_arguments hargs a ha, ?_⟩, rfl⟩
  exact (hof.isUsable (List.mem_map_of_mem ha)).1

theorem Client.comments_subset (c : Client) : c.comments ⊆ c.lines := by
  intro line hline
  simp only [comments, List.mem_append, List.mem_flatMap] at hline
  simp only [lines, List.mem_append]
  rcases hline with hline | ⟨m, hm, hline⟩
  · exact .inl (.inl hline)
  · have hmethod : line ∈ m.lines := by
      simp only [ClientMethod.lines, List.append_assoc, List.mem_append]
      exact .inl hline
    refine .inr (subset_bracedLines _ _ (List.mem_append_right _ ?_))
    exact List.mem_flatMap.mpr ⟨m, hm, List.mem_cons_of_mem _ hmethod⟩

/-- **One client.** -/
theorem isElement_of_planClient {spec : Specification} {options : EmitOptions} {client : Client}
    {ms : List Model} (h : (planClient spec options).Runs client ms) :
    ∀ line ∈ client.comments, IsElement line := by
  rw [planClient] at h
  obtain ⟨methods, hmethods, rfl⟩ := h.bind_pure_inv
  intro line hline
  rcases List.mem_append.mp hline with hline | hline
  · exact isElement_of_summaryLines eq_space_of_mem_modelIndent ⟨_, rfl⟩ line hline
  · obtain ⟨method, hmethod, hline⟩ := List.mem_flatMap.mp hline
    obtain ⟨doc, hdoc, rfl⟩ := List.mem_map.mp hline
    obtain ⟨entry, -, _, hrun, -⟩ := hmethods.mapM_inv.of_mem_result hmethod
    obtain ⟨args, hargs, hdocs⟩ := docs_of_planMethod hrun
    exact isElement_of_methodDocs hargs doc (hdocs ▸ hdoc)

/-- **One specification**: its comments are among its lines. -/
theorem isElement_of_runs {options : EmitOptions} {spec : Specification} {part : Part}
    {ms : List Model} (hrun : (planSpec spec options).Runs part.client ms)
    (hsub : part.models ⊆ ms) : ∀ line ∈ part.comments, line ∈ part.lines ∧ IsElement line := by
  intro line hline
  rcases List.mem_append.mp hline with hline | hline
  · obtain ⟨m, hm, hline⟩ := List.mem_flatMap.mp hline
    obtain ⟨name, context, schema, rest, hmake⟩ := (origin_of_runs hrun m (hsub hm)).madeIn.makes
    refine ⟨List.mem_append_left _ ?_, Model.isElement_of_flat hmake.flat line hline⟩
    exact List.mem_flatMap.mpr ⟨m, hm, m.comments_subset hline⟩
  · rw [planSpec] at hrun
    obtain ⟨_, _, _, -, hclient, -⟩ := hrun.bind_inv
    exact ⟨List.mem_append_right _ (part.client.comments_subset hline),
      isElement_of_planClient hclient line hline⟩

theorem isElement_of_mem_parts {options : EmitOptions} {specs : List Specification}
    {registry : Registry} : ∀ part ∈ (batch options specs registry).parts,
      ∀ line ∈ part.comments, line ∈ part.lines ∧ IsElement line := by
  intro part hpart
  obtain ⟨entry, hentry, rfl⟩ := List.mem_map.mp hpart
  obtain ⟨ms, hrun, hsub⟩ := runs_of_mem_emitted entry hentry
  exact isElement_of_runs hrun hsub

end CSharp

/-! ## Documents -/

/-- **Documentation stays in its comment.** Put on one line and escaped, any text stays inside a
block comment, and inside an element, where reading its entities gives the line back; the escapes of
an element are three replacements, ampersands first. Whatever is emitted after whatever is declared
already, the comments of a TypeScript module are closed at their ends and not before, and those of a
C# part are elements on one line. -/
theorem documentation_contained :
    (∀ s : String, TypeScript.StaysInside (TypeScript.escapeComment (Text.oneLine s).toList) ∧
      CSharp.StaysInside (CSharp.escapeXml (Text.oneLine s)).toList (Text.oneLine s).toList) ∧
    (∀ s : List Char, s.flatMap CSharp.escapeXmlChar =
      CSharp.replaceAll '>' ['&', 'g', 't', ';'] (CSharp.replaceAll '<' ['&', 'l', 't', ';']
        (CSharp.replaceAll '&' ['&', 'a', 'm', 'p', ';'] s))) ∧
    (∀ (specs : List Specification) (registry : Registry),
      ∀ m ∈ (TypeScript.batch specs registry).parts, ∀ line ∈ m.comments,
        line ∈ m.lines ∧ TypeScript.IsComment line) ∧
    ∀ (options : EmitOptions) (specs : List Specification) (registry : Registry),
      ∀ part ∈ (CSharp.batch options specs registry).parts, ∀ line ∈ part.comments,
        line ∈ part.lines ∧ CSharp.IsElement line :=
  ⟨fun s => ⟨TypeScript.staysInside_escapeComment s, CSharp.staysInside_escapeXml s⟩,
    CSharp.escaped_eq_replaceAll, fun _ _ => TypeScript.isComment_of_mem_parts,
    fun _ _ _ => CSharp.isElement_of_mem_parts⟩

/-- An operation that takes a name, with documentation everywhere. -/
def annotatedOperation : Operation :=
  { CSharp.listItems with
    summary := some "a **/\nb"
    parameters := [⟨"class", some "&lt;", true, .query (.primitive { kind := .string })⟩]
    responses := [⟨.code 204, "x < y", none, [], []⟩]
    deprecated := true }

/-- A definition and an operation, with documentation that tries to leave its comment. -/
def annotated : Specification :=
  CSharp.specOf "notes.json" "Notes"
    [("Note", .object none (some "*/ */")
      [⟨"t", .primitive { kind := .string, description := some " \t" }, true⟩] none)]
    [⟨"/notes", [], [annotatedOperation]⟩]

/-- The comments of `annotated` in both languages. -/
theorem documentation_contained_annotated :
    (TypeScript.batch [annotated] .empty).parts.flatMap (·.comments) =
      ["        /** *\\/ *\\/ */", "            /** &lt; */",
        "            /** a **\\/ b @deprecated */"] ∧
    (CSharp.batch {} [annotated] .empty).parts.flatMap (·.comments) =
      ["    /// <summary>*/ */</summary>", "        /// <summary>a **/ b</summary>",
        "        /// <param name=\"class\">&amp;lt;</param>",
        "        /// <returns>x &lt; y</returns>"] ∧
    TypeScript.IsComment "            /** a **\\/ b @deprecated */" ∧
    CSharp.IsElement "        /// <param name=\"class\">&amp;lt;</param>" := by
  have htypescript : (TypeScript.batch [annotated] .empty).parts.flatMap (·.comments) =
      ["        /** *\\/ *\\/ */", "            /** &lt; */",
        "            /** a **\\/ b @deprecated */"] := by decide +kernel
  have hcsharp : (CSharp.batch {} [annotated] .empty).parts.flatMap (·.comments) =
      ["    /// <summary>*/ */</summary>", "        /// <summary>a **/ b</summary>",
        "        /// <param name=\"class\">&amp;lt;</param>",
        "        /// <returns>x &lt; y</returns>"] := by decide +kernel
  have hcomment : "            /** a **\\/ b @deprecated */" ∈
      (TypeScript.batch [annotated] .empty).parts.flatMap (·.comments) := by simp [htypescript]
  have helement : "        /// <param name=\"class\">&amp;lt;</param>" ∈
      (CSharp.batch {} [annotated] .empty).parts.flatMap (·.comments) := by simp [hcsharp]
  obtain ⟨m, hm, hcomment⟩ := List.mem_flatMap.mp hcomment
  obtain ⟨part, hpart, helement⟩ := List.mem_flatMap.mp helement
  exact ⟨htypescript, hcsharp, (documentation_contained.2.2.1 _ _ m hm _ hcomment).2,
    (documentation_contained.2.2.2 _ _ _ part hpart _ helement).2⟩

end ClientGen
