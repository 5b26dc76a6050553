import ClientGen.Proofs.Schema.Erase
import ClientGen.Proofs.Text.Cut

/-!
# What a shape tells about its schema

A shape is put together from names, formats and listed values as they are, with marks between them.

* `Schema.shape_erase` — documentation leaves no trace in a shape.
* `Schema.isLegible` — **legible** schemas: no name, format or listed value holds a mark that would
  be taken for the end of it where it stands.
* `Schema.shape_append_inj` — the shape of a legible schema can be read off the front of a longer
  text: the text determines the schema, apart from documentation, and what follows it.
* `Schema.shape_faithful` puts the two directions together. `not_shape_faithful_colors` shows that
  the schemas have to be legible.
-/

namespace ClientGen

/-! ## Documentation leaves no trace -/

theorem Primitive.shape_erase (p : Primitive) : p.erase.shape = p.shape := rfl

namespace Schema

mutual

theorem shape_erase : ∀ s : Schema, s.erase.shape = s.shape
  | .reference name => by rw [erase]
  | .object title description properties additional => by
    rw [erase, shape, shape, propertyShapes_erase properties, additionalShape_erase additional]
  | .array items description constraints => by
    rw [erase, shape, shape, shape_erase items]
  | .primitive p => by
    rw [erase, shape, shape, p.shape_erase]
termination_by structural s => s

theorem propertyShapes_erase : ∀ ps : List (Property Schema),
    propertyShapes (eraseProperties ps) = propertyShapes ps
  | [] => by rw [eraseProperties]
  | ⟨name, schema, required⟩ :: properties => by
    rw [eraseProperties, propertyShapes, propertyShapes, shape_erase schema,
      moreShapes_erase properties]
termination_by structural ps => ps

theorem moreShapes_erase : ∀ ps : List (Property Schema),
    moreShapes (eraseProperties ps) = moreShapes ps
  | [] => by rw [eraseProperties]
  | ⟨name, schema, required⟩ :: properties => by
    rw [eraseProperties, moreShapes, moreShapes, shape_erase schema, moreShapes_erase properties]
termination_by structural ps => ps

theorem additionalShape_erase : ∀ additional : Option Schema,
    additionalShape (eraseAdditional additional) = additionalShape additional
  | none => by rw [eraseAdditional]
  | some schema => by
    rw [eraseAdditional, additionalShape, additionalShape, shape_erase schema]
termination_by structural additional => additional

end

end Schema

/-! ## Legible schemas -/

/-- The text holds none of the marks. -/
def lacks (marks : List Char) (text : String) : Bool := text.toList.all (· ∉ marks)

/-- The marks that follow a shape in the shape of an object. -/
def shapeEnds : List Char := [',', ';', '}']

/-- A property name is followed by a colon, perhaps with a question mark before it. The first name
of an object stands where a closing brace or `;*:` would stand if there were none. -/
def isLegibleName (name : String) : Bool :=
  lacks [':'] name && name.toList.getLast? ≠ some '?' && name.toList.head? ≠ some '}' &&
    name ≠ ";*"

/-- A format ends where the shape does, or where the listed values begin. These stand between bars
and end with a parenthesis. -/
def Primitive.isLegible (p : Primitive) : Bool :=
  p.format.all (lacks ('(' :: shapeEnds)) && p.enum.all (lacks ['|', ')'])

mutual

/-- No name, format or listed value holds a mark that would be taken for the end of it. -/
def Schema.isLegible : Schema → Bool
  | .reference name => lacks shapeEnds name
  | .object _ _ properties additional =>
    Schema.arePropertiesLegible properties && Schema.isAdditionalLegible additional
  | .array items _ _ => items.isLegible
  | .primitive p => p.isLegible
termination_by structural s => s

/-- The names and the schemas of properties are legible. -/
def Schema.arePropertiesLegible : List (Property Schema) → Bool
  | [] => true
  | ⟨name, schema, _⟩ :: properties =>
    isLegibleName name && schema.isLegible && Schema.arePropertiesLegible properties
termination_by structural ps => ps

/-- The schema of other members is legible. -/
def Schema.isAdditionalLegible : Option Schema → Bool
  | none => true
  | some schema => schema.isLegible
termination_by structural a => a

end

/-! ## Words and their ends -/

open Text (StartsWith append_inj_of_startsWith)

theorem lacks_iff {marks : List Char} {text : String} :
    lacks marks text = true ↔ ∀ c ∈ text.toList, c ∉ marks := by
  simp only [lacks, List.all_eq_true, decide_eq_true_eq]

/-- The brackets of the arrays that end here. A name may hold brackets itself; where equally many
arrays end, the text still tells which are which. -/
def closing (arrays : Nat) : List Char := List.replicate arrays ']'

theorem closing_succ (arrays : Nat) (u : List Char) :
    ']' :: (closing arrays ++ u) = closing (arrays + 1) ++ u := rfl

theorem append_closing_inj {marks w w' u v : List Char} {arrays : Nat} (hbracket : ']' ∉ marks)
    (hw : ∀ c ∈ w, c ∉ marks) (hw' : ∀ c ∈ w', c ∉ marks) (hu : StartsWith marks u)
    (hv : StartsWith marks v) (h : w ++ (closing arrays ++ u) = w' ++ (closing arrays ++ v)) :
    w = w' ∧ u = v := by
  have hlacks : ∀ {w : List Char}, (∀ c ∈ w, c ∉ marks) → ∀ c ∈ w ++ closing arrays, c ∉ marks := by
    intro w hw c hc
    rcases List.mem_append.mp hc with hc | hc
    · exact hw c hc
    · rw [List.eq_of_mem_replicate hc]
      exact hbracket
  rw [← List.append_assoc, ← List.append_assoc] at h
  obtain ⟨hword, hrest⟩ := append_inj_of_startsWith (hlacks hw) (hlacks hw') hu hv h
  exact ⟨List.append_cancel_right hword, hrest⟩

/-! ## Primitives -/

namespace Primitive

/-- Listed values with bars between them, up to the parenthesis that closes them. -/
theorem values_append_inj {ws : List (List Char)} :
    ∀ {w w' : List Char} {ws' : List (List Char)} {u v : List Char},
      (∀ x ∈ w :: ws, ∀ c ∈ x, c ∉ ['|', ')']) → (∀ x ∈ w' :: ws', ∀ c ∈ x, c ∉ ['|', ')']) →
      w ++ (ws.flatMap ('|' :: ·) ++ ')' :: u) = w' ++ (ws'.flatMap ('|' :: ·) ++ ')' :: v) →
      w :: ws = w' :: ws' ∧ u = v := by
  have hstart : ∀ (ws : List (List Char)) (u : List Char),
      StartsWith ['|', ')'] (ws.flatMap ('|' :: ·) ++ ')' :: u) := by
    intro ws u
    cases ws with
    | nil => exact StartsWith.cons (by decide)
    | cons w ws => exact StartsWith.cons (by decide)
  induction ws with
  | nil =>
    intro w w' ws' u v hws hws' h
    obtain ⟨rfl, hrest⟩ := append_inj_of_startsWith (hws w (List.mem_cons_self ..))
      (hws' w' (List.mem_cons_self ..)) (hstart [] u) (hstart ws' v) h
    cases ws' with
    | nil => exact ⟨rfl, (List.cons.inj hrest).2⟩
    | cons w₂ ws' => exact absurd (List.cons.inj hrest).1 (by decide)
  | cons w₁ ws ih =>
    intro w w' ws' u v hws hws' h
    obtain ⟨rfl, hrest⟩ := append_inj_of_startsWith (hws w (List.mem_cons_self ..))
      (hws' w' (List.mem_cons_self ..)) (hstart (w₁ :: ws) u) (hstart ws' v) h
    cases ws' with
    | nil => exact absurd (List.cons.inj hrest).1 (by decide)
    | cons w₂ ws' =>
      simp only [List.flatMap_cons, List.cons_append, List.cons.injEq, true_and,
        List.append_assoc] at hrest
      obtain ⟨hvalues, huv⟩ := ih (fun x hx => hws x (List.mem_cons_of_mem _ hx))
        (fun x hx => hws' x (List.mem_cons_of_mem _ hx)) hrest
      rw [hvalues]
      exact ⟨rfl, huv⟩

/-- The shape without the listed values. -/
def stem (p : Primitive) : List Char :=
  p.kind.name.toList ++ p.format.elim [] fun format => '/' :: format.toList

theorem toList_shape_of_enum_nil {p : Primitive} (h : p.enum = []) : p.shape.toList = p.stem := by
  cases hf : p.format <;> simp [shape, stem, h, hf]

theorem toList_shape_of_enum_cons {p : Primitive} {value : String} {values : List String}
    (h : p.enum = value :: values) : p.shape.toList = p.stem ++ '(' ::
      (value.toList ++ ((values.map String.toList).flatMap ('|' :: ·) ++ [')'])) := by
  have hbars : ∀ (w : List Char) (ws : List (List Char)),
      ['|'].intercalate (w :: ws) = w ++ ws.flatMap ('|' :: ·) := by
    intro w ws
    induction ws generalizing w with
    | nil => simp
    | cons w' ws ih => rw [List.intercalate_cons_cons, ih]; simp
  cases hf : p.format <;> simp [shape, stem, h, hf, hbars]

theorem stem_lacks {p : Primitive} (h : p.isLegible = true) :
    ∀ c ∈ p.stem, c ∉ '(' :: shapeEnds := by
  intro c hc
  rcases List.mem_append.mp hc with hc | hc
  · have hkind : lacks ('(' :: shapeEnds) p.kind.name = true := by cases p.kind <;> decide
    exact lacks_iff.mp hkind c hc
  · obtain ⟨hformat, -⟩ := Bool.and_eq_true_iff.mp h
    cases hf : p.format with
    | none =>
      rw [hf] at hc
      exact nomatch hc
    | some format =>
      rw [hf] at hc hformat
      rcases List.mem_cons.mp hc with rfl | hc
      · decide
      · exact lacks_iff.mp hformat c hc

theorem stem_inj {p q : Primitive} (h : p.stem = q.stem) :
    p.kind = q.kind ∧ p.format = q.format := by
  have hkind : ∀ {kind kind' : PrimitiveKind} {u v : List Char},
      kind.name.toList ++ u = kind'.name.toList ++ v → kind = kind' ∧ u = v := by
    intro kind kind' u v h
    cases kind <;> cases kind' <;> simp_all [PrimitiveKind.name]
  obtain ⟨hk, hf⟩ := hkind h
  refine ⟨hk, ?_⟩
  cases hp : p.format <;> cases hq : q.format <;> simp_all [String.toList_inj]

/-- A primitive apart from its documentation is its stem and its listed values. -/
theorem erase_eq {p q : Primitive} (hstem : p.stem = q.stem) (henum : p.enum = q.enum) :
    p.erase = q.erase := by
  obtain ⟨hkind, hformat⟩ := stem_inj hstem
  rw [erase, erase, hkind, hformat, henum]

/-- No listed value of a legible primitive holds the bar or the parenthesis that ends it. -/
theorem values_lack {p : Primitive} (h : p.isLegible = true) :
    ∀ w ∈ p.enum.map String.toList, ∀ c ∈ w, c ∉ ['|', ')'] := by
  intro w hw
  obtain ⟨value, hvalue, rfl⟩ := List.mem_map.mp hw
  exact lacks_iff.mp (List.all_eq_true.mp (Bool.and_eq_true_iff.mp h).2 value hvalue)

theorem shapeEnds_subset : shapeEnds ⊆ '(' :: shapeEnds := List.subset_cons_self ..

/-- Listed values begin with a parenthesis, where a shape without them has ended. So a primitive
with listed values is not taken for one without. -/
theorem stem_append_ne {p q : Primitive} {arrays : Nat} {u w : List Char}
    (hp : p.isLegible = true) (hq : q.isLegible = true) (hu : StartsWith shapeEnds u) :
    p.stem ++ (closing arrays ++ u) ≠ q.stem ++ '(' :: w := by
  intro h
  rw [← List.append_assoc] at h
  have hword : ∀ c ∈ p.stem ++ closing arrays, c ∉ '(' :: shapeEnds := by
    intro c hc
    rcases List.mem_append.mp hc with hc | hc
    · exact stem_lacks hp c hc
    · rw [List.eq_of_mem_replicate hc]
      decide
  have hrest := (append_inj_of_startsWith hword (stem_lacks hq) (hu.mono shapeEnds_subset)
    (StartsWith.cons (List.mem_cons_self ..)) h).2
  rw [hrest] at hu
  exact absurd (hu '(' rfl) (by decide)

/-- The shape of a legible primitive can be read off the front of a longer text. -/
theorem shape_append_inj {p q : Primitive} {arrays : Nat} {u v : List Char}
    (hp : p.isLegible = true) (hq : q.isLegible = true) (hu : StartsWith shapeEnds u)
    (hv : StartsWith shapeEnds v)
    (h : p.shape.toList ++ (closing arrays ++ u) = q.shape.toList ++ (closing arrays ++ v)) :
    p.erase = q.erase ∧ u = v := by
  cases hpe : p.enum with
  | nil =>
    rw [toList_shape_of_enum_nil hpe] at h
    cases hqe : q.enum with
    | nil =>
      rw [toList_shape_of_enum_nil hqe] at h
      obtain ⟨hstem, huv⟩ := append_closing_inj (by decide) (stem_lacks hp) (stem_lacks hq)
        (hu.mono shapeEnds_subset) (hv.mono shapeEnds_subset) h
      exact ⟨erase_eq hstem (hpe.trans hqe.symm), huv⟩
    | cons value values =>
      rw [toList_shape_of_enum_cons hqe, List.append_assoc] at h
      exact absurd h (stem_append_ne hp hq hu)
  | cons value values =>
    rw [toList_shape_of_enum_cons hpe] at h
    cases hqe : q.enum with
    | nil =>
      rw [toList_shape_of_enum_nil hqe, List.append_assoc] at h
      exact absurd h.symm (stem_append_ne hq hp hv)
    | cons value' values' =>
      rw [toList_shape_of_enum_cons hqe, List.append_assoc, List.append_assoc, List.cons_append,
        List.cons_append] at h
      obtain ⟨hstem, hrest⟩ := append_inj_of_startsWith (stem_lacks hp) (stem_lacks hq)
        (StartsWith.cons (List.mem_cons_self ..)) (StartsWith.cons (List.mem_cons_self ..)) h
      simp only [List.cons.injEq, true_and, List.append_assoc, List.singleton_append] at hrest
      have hps := values_lack hp
      have hqs := values_lack hq
      rw [hpe, List.map_cons] at hps
      rw [hqe, List.map_cons] at hqs
      obtain ⟨hlist, hclosing⟩ := values_append_inj hps hqs hrest
      rw [← List.map_cons, ← List.map_cons] at hlist
      have henum := List.map_injective_iff.mpr (fun _ _ => String.toList_inj.mp) hlist
      exact ⟨erase_eq hstem (by rw [hpe, hqe, henum]), List.append_cancel_left hclosing⟩

end Primitive

/-! ## Property names -/

/-- What stands between a property name and its colon. -/
def optionalMark (required : Bool) : List Char := if required then [] else ['?']

theorem lacks_name {name : String} (hname : isLegibleName name = true) (required : Bool) :
    ∀ c ∈ name.toList ++ optionalMark required, c ∉ [':'] := by
  simp only [isLegibleName, Bool.and_eq_true, decide_eq_true_eq] at hname
  obtain ⟨⟨⟨hcolon, -⟩, -⟩, -⟩ := hname
  intro c hc
  rcases List.mem_append.mp hc with hc | hc
  · exact lacks_iff.mp hcolon c hc
  · cases required with
    | true => exact nomatch hc
    | false =>
      rw [List.mem_singleton.mp hc]
      decide

theorem append_mark_ne {name : String} {w : List Char} (hname : isLegibleName name = true) :
    name.toList ≠ w ++ ['?'] := by
  simp only [isLegibleName, Bool.and_eq_true, decide_eq_true_eq] at hname
  obtain ⟨⟨⟨-, hlast⟩, -⟩, -⟩ := hname
  intro h
  exact hlast (by rw [h, List.getLast?_concat])

/-- The name of a property, and whether it is required, can be read off the front of a text. -/
theorem name_append_inj {name name' : String} {required required' : Bool} {u v : List Char}
    (hn : isLegibleName name = true) (hn' : isLegibleName name' = true)
    (h : name.toList ++ optionalMark required ++ ':' :: u =
      name'.toList ++ optionalMark required' ++ ':' :: v) :
    name = name' ∧ required = required' ∧ u = v := by
  obtain ⟨hword, hrest⟩ := append_inj_of_startsWith (lacks_name hn required)
    (lacks_name hn' required') (StartsWith.cons (List.mem_cons_self ..))
    (StartsWith.cons (List.mem_cons_self ..)) h
  have huv := (List.cons.inj hrest).2
  cases required with
  | true =>
    rw [optionalMark, if_pos rfl, List.append_nil] at hword
    cases required' with
    | true =>
      rw [optionalMark, if_pos rfl, List.append_nil] at hword
      exact ⟨String.toList_inj.mp hword, rfl, huv⟩
    | false => exact absurd hword (append_mark_ne hn)
  | false =>
    cases required' with
    | true =>
      rw [optionalMark, optionalMark, if_pos rfl, List.append_nil] at hword
      exact absurd hword.symm (append_mark_ne hn')
    | false => exact ⟨String.toList_inj.mp (List.append_cancel_right hword), rfl, huv⟩

/-- A property name is told from what stands there if there are no properties: a closing brace, or
the shape of other members. -/
theorem name_append_ne {name : String} {required : Bool} {u v : List Char}
    (hname : isLegibleName name = true)
    (hv : v.head? = some '}' ∨ ∃ w, v = [';', '*'] ++ ':' :: w) :
    name.toList ++ optionalMark required ++ ':' :: u ≠ v := by
  intro h
  have hlacks := lacks_name hname required
  simp only [isLegibleName, Bool.and_eq_true, decide_eq_true_eq] at hname
  obtain ⟨⟨-, hhead⟩, hstar⟩ := hname
  rcases hv with hv | ⟨w, rfl⟩
  · rw [← h] at hv
    cases hchars : name.toList with
    | nil => cases required <;> simp [hchars, optionalMark] at hv
    | cons c chars =>
      rw [hchars] at hv
      exact hhead (by rw [hchars]; exact hv)
  · obtain ⟨hword, -⟩ := append_inj_of_startsWith hlacks (by simp)
      (StartsWith.cons (List.mem_cons_self ..)) (StartsWith.cons (List.mem_cons_self ..)) h
    cases required with
    | true =>
      rw [optionalMark, if_pos rfl, List.append_nil] at hword
      exact hstar (String.toList_inj.mp hword)
    | false =>
      have hlast := congrArg List.getLast? hword
      rw [optionalMark, if_neg (by decide), List.getLast?_concat] at hlast
      exact absurd hlast (by decide)

/-! ## Schemas -/

namespace Schema

/-- The first character of the shape, which tells references, objects, arrays and primitives
apart. -/
def opening : Schema → Char
  | .reference _ => '&'
  | .object _ _ _ _ => '{'
  | .array _ _ _ => '['
  | .primitive p => p.kind.name.toList.headD ' '

theorem toList_shape_reference (name : String) :
    (reference name).shape.toList = '&' :: name.toList := by
  rw [shape, String.toList_append]
  rfl

theorem toList_shape_object (title description : Option String) (ps : List (Property Schema))
    (additional : Option Schema) : (object title description ps additional).shape.toList = '{' ::
      ((propertyShapes ps).toList ++ (additionalShape additional).toList ++ ['}']) := by
  simp [shape]

theorem toList_shape_array (items : Schema) (description : Option String)
    (constraints : Constraints) :
    (array items description constraints).shape.toList = '[' :: (items.shape.toList ++ [']']) := by
  simp [shape]

theorem propertyShapes_cons_append (name : String) (schema : Schema) (required : Bool)
    (ps : List (Property Schema)) (u : List Char) :
    (propertyShapes (⟨name, schema, required⟩ :: ps)).toList ++ u =
      name.toList ++ optionalMark required ++
        ':' :: (schema.shape.toList ++ ((moreShapes ps).toList ++ u)) := by
  cases required <;> simp [propertyShapes, optionalMark]

theorem toList_moreShapes_cons (p : Property Schema) (ps : List (Property Schema)) :
    (moreShapes (p :: ps)).toList = ',' :: (propertyShapes (p :: ps)).toList := by
  obtain ⟨name, schema, required⟩ := p
  simp [moreShapes, propertyShapes]

theorem toList_additionalShape_some (schema : Schema) :
    (additionalShape (some schema)).toList = [';', '*'] ++ ':' :: schema.shape.toList := by
  simp [additionalShape]

theorem head?_shape (s : Schema) : s.shape.toList.head? = some s.opening := by
  cases s with
  | reference name => rw [toList_shape_reference, opening, List.head?_cons]
  | object title description ps additional =>
    rw [toList_shape_object, opening, List.head?_cons]
  | array items description constraints => rw [toList_shape_array, opening, List.head?_cons]
  | primitive p =>
    cases hk : p.kind <;>
      simp [shape, Primitive.shape, opening, hk, PrimitiveKind.name, String.toList_append]

/-- The index of the constructor whose shapes begin with a character. -/
def ctorOf : Char → Nat
  | '&' => 0
  | '{' => 1
  | '[' => 2
  | _ => 3

theorem ctorOf_opening (s : Schema) : ctorOf s.opening = s.ctorIdx := by
  cases s with
  | primitive p =>
    rw [opening]
    cases p.kind <;> rfl
  | _ => rfl

/-- Texts that begin with shapes of different constructors differ. -/
theorem ctorIdx_eq {a b : Schema} {u v : List Char}
    (h : a.shape.toList ++ u = b.shape.toList ++ v) : a.ctorIdx = b.ctorIdx := by
  have hhead := congrArg List.head? h
  rw [List.head?_append, List.head?_append, head?_shape, head?_shape] at hhead
  rw [← ctorOf_opening, ← ctorOf_opening, Option.some.inj hhead]

/-- After the properties of an object comes `;` or a closing brace. -/
theorem startsWith_additional (additional : Option Schema) (u : List Char) :
    StartsWith [';', '}'] ((additionalShape additional).toList ++ '}' :: u) := by
  cases additional with
  | none =>
    rw [additionalShape]
    exact StartsWith.cons (by decide)
  | some schema =>
    rw [toList_additionalShape_some]
    exact StartsWith.cons (by decide)

theorem startsWith_more (ps : List (Property Schema)) {u : List Char}
    (hu : StartsWith [';', '}'] u) : StartsWith shapeEnds ((moreShapes ps).toList ++ u) := by
  cases ps with
  | nil =>
    rw [moreShapes]
    exact hu.mono (by decide)
  | cons p ps =>
    rw [toList_moreShapes_cons]
    exact StartsWith.cons (by decide)

/-- The first property is read like the others: what could stand in its place is no property. -/
theorem moreShapes_eq_of_propertyShapes_eq {ps qs : List (Property Schema)}
    {additional additional' : Option Schema} {u v : List Char}
    (hps : arePropertiesLegible ps = true) (hqs : arePropertiesLegible qs = true)
    (h : (propertyShapes ps).toList ++ ((additionalShape additional).toList ++ '}' :: u) =
      (propertyShapes qs).toList ++ ((additionalShape additional').toList ++ '}' :: v)) :
    (moreShapes ps).toList ++ ((additionalShape additional).toList ++ '}' :: u) =
      (moreShapes qs).toList ++ ((additionalShape additional').toList ++ '}' :: v) := by
  have hfirst : ∀ {p : Property Schema} {ps : List (Property Schema)} {additional : Option Schema}
      {u v : List Char}, arePropertiesLegible (p :: ps) = true →
      (propertyShapes (p :: ps)).toList ++ u ≠
        (additionalShape additional).toList ++ '}' :: v := by
    intro p ps additional u v hp
    obtain ⟨name, schema, required⟩ := p
    rw [arePropertiesLegible, Bool.and_eq_true_iff, Bool.and_eq_true_iff] at hp
    rw [propertyShapes_cons_append]
    refine name_append_ne hp.1.1 ?_
    cases additional with
    | none => exact .inl rfl
    | some schema =>
      rw [toList_additionalShape_some, List.append_assoc, List.cons_append]
      exact .inr ⟨_, rfl⟩
  cases ps with
  | nil =>
    cases qs with
    | nil => exact h
    | cons q qs => exact absurd h.symm (hfirst hqs)
  | cons p ps =>
    cases qs with
    | nil => exact absurd h (hfirst hps)
    | cons q qs =>
      rw [toList_moreShapes_cons, toList_moreShapes_cons, List.cons_append, List.cons_append, h]

mutual

/-- **Unique reading**, by induction on the first schema: the shape of a legible schema can be read
off the front of a longer text, also where brackets of arrays around it follow. -/
theorem shape_append_inj : ∀ (a : Schema) (arrays : Nat) {b : Schema} {u v : List Char},
    a.isLegible = true → b.isLegible = true → StartsWith shapeEnds u → StartsWith shapeEnds v →
      a.shape.toList ++ (closing arrays ++ u) = b.shape.toList ++ (closing arrays ++ v) →
      a.erase = b.erase ∧ u = v
  | .reference name, arrays, b, u, v, ha, hb, hu, hv, h => by
    have hctor := ctorIdx_eq h
    cases b with
    | reference name' =>
      rw [isLegible] at ha hb
      rw [toList_shape_reference, toList_shape_reference, List.cons_append, List.cons_append] at h
      obtain ⟨hname, huv⟩ := append_closing_inj (by decide) (lacks_iff.mp ha) (lacks_iff.mp hb)
        hu hv (List.cons.inj h).2
      rw [erase, erase, String.toList_inj.mp hname]
      exact ⟨rfl, huv⟩
    | _ => exact nomatch hctor
  | .object title description ps additional, arrays, b, u, v, ha, hb, hu, hv, h => by
    have hctor := ctorIdx_eq h
    cases b with
    | object title' description' qs additional' =>
      rw [isLegible, Bool.and_eq_true_iff] at ha hb
      simp only [toList_shape_object, List.cons_append, List.append_assoc, List.nil_append,
        List.cons.injEq, true_and] at h
      obtain ⟨hproperties, hrest⟩ := moreShapes_append_inj ps ha.1 hb.1
        (startsWith_additional additional _) (startsWith_additional additional' _)
        (moreShapes_eq_of_propertyShapes_eq ha.1 hb.1 h)
      obtain ⟨hadditional, hclosing⟩ := additionalShape_append_inj additional ha.2 hb.2 hrest
      rw [erase, erase, hproperties, hadditional]
      exact ⟨rfl, List.append_cancel_left hclosing⟩
    | _ => exact nomatch hctor
  | .array items description constraints, arrays, b, u, v, ha, hb, hu, hv, h => by
    have hctor := ctorIdx_eq h
    cases b with
    | array items' description' constraints' =>
      rw [isLegible] at ha hb
      simp only [toList_shape_array, List.cons_append, List.append_assoc, List.nil_append,
        List.cons.injEq, true_and, closing_succ] at h
      obtain ⟨hitems, huv⟩ := shape_append_inj items (arrays + 1) ha hb hu hv h
      rw [erase, erase, hitems]
      exact ⟨rfl, huv⟩
    | _ => exact nomatch hctor
  | .primitive p, arrays, b, u, v, ha, hb, hu, hv, h => by
    have hctor := ctorIdx_eq h
    cases b with
    | primitive q =>
      rw [isLegible] at ha hb
      rw [shape, shape] at h
      obtain ⟨hpq, huv⟩ := Primitive.shape_append_inj ha hb hu hv h
      rw [erase, erase, hpq]
      exact ⟨rfl, huv⟩
    | _ => exact nomatch hctor
termination_by structural a => a

theorem moreShapes_append_inj : ∀ (ps : List (Property Schema)) {qs : List (Property Schema)}
    {u v : List Char}, arePropertiesLegible ps = true → arePropertiesLegible qs = true →
      StartsWith [';', '}'] u → StartsWith [';', '}'] v →
      (moreShapes ps).toList ++ u = (moreShapes qs).toList ++ v →
      eraseProperties ps = eraseProperties qs ∧ u = v
  | [], [], u, v, hps, hqs, hu, hv, h => ⟨rfl, h⟩
  | [], q :: qs, u, v, hps, hqs, hu, hv, h => by
    rw [toList_moreShapes_cons, moreShapes] at h
    have hcomma := hu ',' (by rw [show u = _ from h]; rfl)
    exact absurd hcomma (by decide)
  | p :: ps, [], u, v, hps, hqs, hu, hv, h => by
    rw [toList_moreShapes_cons, moreShapes] at h
    have hcomma := hv ',' (by rw [← show _ = v from h]; rfl)
    exact absurd hcomma (by decide)
  | ⟨name, schema, required⟩ :: ps, ⟨name', schema', required'⟩ :: qs,
    u, v, hps, hqs, hu, hv, h => by
    rw [arePropertiesLegible, Bool.and_eq_true_iff, Bool.and_eq_true_iff] at hps hqs
    rw [toList_moreShapes_cons, toList_moreShapes_cons, List.cons_append, List.cons_append,
      propertyShapes_cons_append, propertyShapes_cons_append] at h
    obtain ⟨hname, hrequired, hrest⟩ := name_append_inj hps.1.1 hqs.1.1 (List.cons.inj h).2
    obtain ⟨hschema, hmore⟩ := shape_append_inj schema 0 hps.1.2 hqs.1.2
      (startsWith_more ps hu) (startsWith_more qs hv) hrest
    obtain ⟨herase, huv⟩ := moreShapes_append_inj ps hps.2 hqs.2 hu hv hmore
    rw [eraseProperties, eraseProperties, hname, hrequired, hschema, herase]
    exact ⟨rfl, huv⟩
termination_by structural ps => ps

theorem additionalShape_append_inj : ∀ (additional : Option Schema) {additional' : Option Schema}
    {u v : List Char},
    isAdditionalLegible additional = true → isAdditionalLegible additional' = true →
      (additionalShape additional).toList ++ '}' :: u =
        (additionalShape additional').toList ++ '}' :: v →
      eraseAdditional additional = eraseAdditional additional' ∧ u = v
  | none, none, u, v, ha, ha', h => ⟨rfl, (List.cons.inj h).2⟩
  | none, some schema, u, v, ha, ha', h => by
    rw [toList_additionalShape_some, additionalShape] at h
    exact absurd (List.cons.inj h).1 (by decide)
  | some schema, none, u, v, ha, ha', h => by
    rw [toList_additionalShape_some, additionalShape] at h
    exact absurd (List.cons.inj h).1 (by decide)
  | some schema, some schema', u, v, ha, ha', h => by
    rw [isAdditionalLegible] at ha ha'
    simp only [toList_additionalShape_some, List.cons_append, List.nil_append, List.cons.injEq,
      true_and] at h
    obtain ⟨hschema, huv⟩ := shape_append_inj schema 0 ha ha'
      (StartsWith.cons (by decide)) (StartsWith.cons (by decide)) h
    rw [eraseAdditional, eraseAdditional, hschema]
    exact ⟨rfl, (List.cons.inj huv).2⟩
termination_by structural additional => additional

end

/-! ## Faithful shapes -/

theorem shape_eq_of_erase_eq {a b : Schema} (h : a.erase = b.erase) : a.shape = b.shape := by
  rw [← shape_erase a, h, shape_erase b]

/-- **Faithful shapes**: schemas that are the same apart from documentation have the same shape. If
two schemas are legible, then they have the same shape only in that case. -/
theorem shape_faithful (a b : Schema) : (a.erase = b.erase → a.shape = b.shape) ∧
    (a.isLegible = true → b.isLegible = true → (a.shape = b.shape ↔ a.erase = b.erase)) := by
  refine ⟨shape_eq_of_erase_eq, fun ha hb => ⟨fun h => ?_, shape_eq_of_erase_eq⟩⟩
  have htext : a.shape.toList ++ (closing 0 ++ []) = b.shape.toList ++ (closing 0 ++ []) := by
    rw [h]
  exact (shape_append_inj a 0 ha hb StartsWith.nil StartsWith.nil htext).1

/-- A page of pets. The brackets, commas and colons in its names and values are legible. -/
def petPage (description : Option String) (kind : PrimitiveKind) : Schema :=
  .object none description
    [⟨"items[]", .array (.reference "Page[Pet]") description {}, true⟩,
     ⟨"sort,order", .primitive { kind := .string, enum := ["name:asc", "name:desc"] }, false⟩]
    (some (.primitive { kind, format := some "date/time" }))

/-- Two pages whose other members differ, and two that differ in documentation only. -/
theorem shape_faithful_petPage :
    ((petPage none .string).isLegible = true ∧ (petPage none .file).isLegible = true ∧
      (petPage none .string).shape ≠ (petPage none .file).shape) ∧
    (petPage none .file).shape = (petPage (some "A page.") .file).shape := by
  have hstring : (petPage none .string).isLegible = true := by decide +kernel
  have hfile : (petPage none .file).isLegible = true := by decide +kernel
  refine ⟨⟨hstring, hfile, fun h => ?_⟩, (shape_faithful _ _).1 rfl⟩
  have herase := ((shape_faithful _ _).2 hstring hfile).mp h
  simp [petPage, erase, eraseAdditional, Primitive.erase] at herase

/-- **Not every schema is legible**: one listed value with a bar in it has the shape of two. -/
theorem not_shape_faithful_colors : ¬ ∀ a b : Schema, a.shape = b.shape ↔ a.erase = b.erase := by
  intro h
  have herase := (h (.primitive { kind := .string, enum := ["red|green"] })
    (.primitive { kind := .string, enum := ["red", "green"] })).mp (by decide +kernel)
  simp [erase, Primitive.erase] at herase

end Schema

end ClientGen
