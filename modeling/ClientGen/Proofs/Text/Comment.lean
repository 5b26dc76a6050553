import ClientGen.CSharp.Client
import ClientGen.Proofs.CSharp.Literal
import ClientGen.Proofs.Name.Words
import ClientGen.TypeScript.Emission

/-!
# Documentation stays in its comment

Documentation is put on one line, and then escaped for the comment around it. TypeScript has block
comments, in which `*/` must not occur; C# has elements of XML in comments that end with the line.

* **Lines** (`isSpaced_oneLine`): on one line, a text is words with single spaces between them.
  Escapes keep it so, since they act word by word (`IsSpaced.escape`).
* **Block comments** (`not_infix_escapeComment`): a replaced `*/` does not make a new one with what
  stands around it, since the replacement starts and ends as what it replaces.
* **Elements** (`unescapeXml_escaped`, `escaped_entities`): an ampersand starts one of the three
  entities, and reading them gives the text back.
-/

namespace ClientGen

/-! ## Lines -/

namespace Text

theorem ne_nil_of_mem_pushWord {c : Char} {acc : List (List Char) × Bool} {w : List Char}
    (hw : w ∈ (pushWord c acc).1) : w ≠ [] ∨ w ∈ acc.1 := by
  rw [pushWord.eq_def] at hw
  split at hw
  · exact (List.mem_cons.mp hw).imp (by rintro rfl; simp) (List.mem_cons_of_mem _)
  · exact (List.mem_cons.mp hw).imp_left (by rintro rfl; simp)

/-- Words are not empty. -/
theorem ne_nil_of_mem_wordsBy {p : Char → Bool} {s : List Char} :
    ∀ {w : List Char}, w ∈ wordsBy p s → w ≠ [] := by
  induction s with
  | nil => intro w hw; cases hw
  | cons c s ih =>
    intro w hw
    rw [wordsBy, List.foldr_cons] at hw
    split at hw
    · exact ih hw
    · exact (ne_nil_of_mem_pushWord hw).elim id ih

/-- A word: not empty, and without white space. -/
def IsWord (w : List Char) : Prop := w ≠ [] ∧ ∀ c ∈ w, isBlank c = false

/-- Words with single spaces between them, and no other white space. -/
def IsSpaced (s : List Char) : Prop :=
  ∃ ws : List (List Char), (∀ w ∈ ws, IsWord w) ∧ s = List.intercalate [' '] ws

theorem isSpaced_oneLine (s : String) : IsSpaced (oneLine s).toList := by
  refine ⟨words s.toList, fun w hw => ?_, by rw [oneLine, String.toList_ofList]⟩
  exact ⟨ne_nil_of_mem_wordsBy hw, fun c hc => (mem_wordsBy hw c hc).2⟩

/-- What acts word by word keeps single spaces. -/
theorem IsSpaced.escape {f : List Char → List Char} (hnil : f [] = [])
    (hspace : ∀ w s, f (w ++ ' ' :: s) = f w ++ ' ' :: f s)
    (hword : ∀ w, IsWord w → IsWord (f w)) {s : List Char} (h : IsSpaced s) : IsSpaced (f s) := by
  obtain ⟨ws, hws, rfl⟩ := h
  refine ⟨ws.map f, fun w hw => ?_, ?_⟩
  · obtain ⟨v, hv, rfl⟩ := List.mem_map.mp hw
    exact hword v (hws v hv)
  · induction ws with
    | nil => exact hnil
    | cons w ws ih =>
      obtain ⟨hw, hws⟩ := List.forall_mem_cons.mp hws
      cases ws with
      | nil => simp
      | cons v ws =>
        rw [List.map_cons, List.map_cons, List.intercalate_cons_cons, List.intercalate_cons_cons,
          List.append_assoc, List.singleton_append, hspace, ih hws, List.map_cons,
          List.append_assoc, List.singleton_append]

/-- The only white space is the space. -/
theorem IsSpaced.eq_space {s : List Char} (h : IsSpaced s) {c : Char} (hc : c ∈ s)
    (hblank : isBlank c = true) : c = ' ' := by
  obtain ⟨ws, hws, rfl⟩ := h
  induction ws with
  | nil => cases hc
  | cons w ws ih =>
    obtain ⟨hw, hws⟩ := List.forall_mem_cons.mp hws
    have hlater : c ∈ w ∨ c = ' ' ∨ c ∈ List.intercalate [' '] ws := by
      cases ws with
      | nil => exact .inl (by simpa using hc)
      | cons v ws => simpa [List.intercalate_cons_cons] using hc
    rcases hlater with hc | rfl | hc
    · rw [hw.2 c hc] at hblank
      cases hblank
    · rfl
    · exact ih hws hc

end Text

open Text (isBlank IsWord IsSpaced)

/-! ## Block comments -/

namespace TypeScript

/-- What closes a comment. -/
def closing : List Char := ['*', '/']

theorem escapeComment_cons {c : Char} {s : List Char} (h : ¬ (c = '*' ∧ s.head? = some '/')) :
    escapeComment (c :: s) = c :: escapeComment s := by
  rw [escapeComment.eq_def]
  split
  · next heq =>
    obtain ⟨rfl, rfl⟩ := List.cons.inj heq
    exact absurd ⟨rfl, rfl⟩ h
  · next heq =>
    obtain ⟨rfl, rfl⟩ := List.cons.inj heq
    rfl
  · next heq => cases heq

/-- A text and its escaped form start alike. -/
theorem head?_escapeComment (s : List Char) : (escapeComment s).head? = s.head? := by
  fun_cases escapeComment s <;> rfl

theorem mem_escapeComment {s : List Char} {c : Char} (h : c ∈ escapeComment s) :
    c ∈ s ∨ c = '\\' := by
  fun_induction escapeComment s with
  | case1 s ih => grind
  | case2 d s _ ih => grind
  | case3 => exact .inl h

/-- A space keeps what stands before it apart from what follows. -/
theorem escapeComment_space (w s : List Char) :
    escapeComment (w ++ ' ' :: s) = escapeComment w ++ ' ' :: escapeComment s := by
  fun_induction escapeComment w with
  | case1 w ih => rw [List.cons_append, List.cons_append, escapeComment, ih]; rfl
  | case2 c w hc ih =>
    have hnot : ¬ (c = '*' ∧ (w ++ ' ' :: s).head? = some '/') := by
      rintro ⟨rfl, hhead⟩
      cases w with
      | nil => simp at hhead
      | cons d w => exact hc w rfl (by simpa using hhead)
    rw [List.cons_append, escapeComment_cons hnot, ih, List.cons_append]
  | case3 => exact escapeComment_cons fun h => absurd h.1 (by decide)

theorem isSpaced_escapeComment {s : List Char} (h : IsSpaced s) : IsSpaced (escapeComment s) := by
  refine h.escape rfl escapeComment_space fun w hw => ⟨fun hnil => ?_, fun c hc => ?_⟩
  · have hhead := head?_escapeComment w
    rw [hnil] at hhead
    exact hw.1 (List.head?_eq_none_iff.mp hhead.symm)
  · rcases mem_escapeComment hc with hc | rfl
    · exact hw.2 c hc
    · decide

/-- **An escaped text closes no comment.** -/
theorem not_infix_escapeComment (s : List Char) : ¬ closing <:+: escapeComment s := by
  fun_induction escapeComment s with
  | case1 s ih => simpa [closing, List.infix_cons_iff] using ih
  | case2 c s hc ih =>
    rw [closing, List.infix_cons_iff, List.cons_prefix_cons]
    rintro (⟨rfl, hslash⟩ | hlater)
    · -- the text behind the star starts with a slash, and so it did before
      obtain ⟨rest, hrest⟩ := hslash
      have hhead := head?_escapeComment s
      rw [← hrest] at hhead
      obtain ⟨s', rfl⟩ := List.head?_eq_some_iff.mp hhead.symm
      exact hc s' rfl rfl
    · exact ih hlater
  | case3 => simp [closing]

/-- What a text in a block comment must be like. -/
structure StaysInside (text : List Char) : Prop where
  spaced : IsSpaced text
  unclosed : ¬ closing <:+: text

theorem staysInside_escapeComment (s : String) :
    StaysInside (escapeComment (Text.oneLine s).toList) :=
  ⟨isSpaced_escapeComment (Text.isSpaced_oneLine s), not_infix_escapeComment _⟩

end TypeScript

/-! ## Elements -/

namespace CSharp

/-- Reads entities. -/
def unescapeXml : List Char → List Char
  | '&' :: 'a' :: 'm' :: 'p' :: ';' :: s => '&' :: unescapeXml s
  | '&' :: 'l' :: 't' :: ';' :: s => '<' :: unescapeXml s
  | '&' :: 'g' :: 't' :: ';' :: s => '>' :: unescapeXml s
  | c :: s => c :: unescapeXml s
  | [] => []

/-- What may follow an ampersand. -/
def entities : List (List Char) := [['a', 'm', 'p', ';'], ['l', 't', ';'], ['g', 't', ';']]

/-- The forms that a character has in an element. -/
theorem escapeXmlChar_cases (c : Char) :
    (c ≠ '&' ∧ c ≠ '<' ∧ c ≠ '>' ∧ escapeXmlChar c = [c]) ∨
    (c = '&' ∧ escapeXmlChar c = ['&', 'a', 'm', 'p', ';']) ∨
    (c = '<' ∧ escapeXmlChar c = ['&', 'l', 't', ';']) ∨
    (c = '>' ∧ escapeXmlChar c = ['&', 'g', 't', ';']) := by
  unfold escapeXmlChar
  split <;> simp_all

theorem unescapeXml_cons {c : Char} (hc : c ≠ '&') (s : List Char) :
    unescapeXml (c :: s) = c :: unescapeXml s := by
  rw [unescapeXml.eq_def]
  split <;> simp_all

theorem unescapeXml_escapeXmlChar (c : Char) (s : List Char) :
    unescapeXml (escapeXmlChar c ++ s) = c :: unescapeXml s := by
  rcases escapeXmlChar_cases c with ⟨hc, -, -, h⟩ | ⟨rfl, h⟩ | ⟨rfl, h⟩ | ⟨rfl, h⟩
  · rw [h, List.singleton_append, unescapeXml_cons hc]
  all_goals rw [h]; rfl

/-- **Reading entities gives the text back.** -/
theorem unescapeXml_escaped (s : List Char) : unescapeXml (s.flatMap escapeXmlChar) = s := by
  induction s with
  | nil => rfl
  | cons c s ih => rw [List.flatMap_cons, unescapeXml_escapeXmlChar, ih]

/-- An ampersand in front of a rest starts an entity, or it is one of the rest. -/
theorem entity_or_later {c : Char} {s after : List Char}
    (h : '&' :: after <:+ escapeXmlChar c ++ s) :
    (∃ name ∈ entities, name <+: after) ∨ '&' :: after <:+ s := by
  rcases escapeXmlChar_cases c with ⟨hc, -, -, hself⟩ | ⟨-, hself⟩ | ⟨-, hself⟩ | ⟨-, hself⟩
  · rw [hself, List.singleton_append, List.suffix_cons_iff, List.cons.injEq] at h
    exact .inr (h.resolve_left fun heq => hc heq.1.symm)
  all_goals
    simp only [hself, List.cons_append, List.nil_append, List.suffix_cons_iff, List.cons.injEq,
      true_and, Char.reduceEq, false_and, false_or] at h
    exact h.imp_left fun heq => by simp [entities, heq]

/-- **An ampersand starts an entity.** -/
theorem escaped_entities (s : List Char) : ∀ {after : List Char},
    '&' :: after <:+ s.flatMap escapeXmlChar → ∃ name ∈ entities, name <+: after := by
  induction s with
  | nil => intro after h; simp at h
  | cons c s ih =>
    intro after h
    rw [List.flatMap_cons] at h
    exact (entity_or_later h).elim id ih

/-- Escaped text has no angle brackets, and no white space but its own. -/
theorem of_mem_escapeXmlChar {c d : Char} (h : d ∈ escapeXmlChar c) :
    d ≠ '<' ∧ d ≠ '>' ∧ (isBlank d = true → d = c) := by
  rcases escapeXmlChar_cases c with ⟨-, hlt, hgt, hself⟩ | ⟨-, hself⟩ | ⟨-, hself⟩ | ⟨-, hself⟩
  · obtain rfl : d = c := by simpa [hself] using h
    exact ⟨hlt, hgt, fun _ => rfl⟩
  all_goals
    have hall : ∀ d ∈ escapeXmlChar c, d ≠ '<' ∧ d ≠ '>' ∧ isBlank d = false := by
      rw [hself]
      exact List.all_iff_forall_prop.mp (by decide)
    obtain ⟨hlt, hgt, hplain⟩ := hall d h
    exact ⟨hlt, hgt, fun hblank => by simp [hplain] at hblank⟩

theorem isSpaced_escaped {s : List Char} (h : IsSpaced s) :
    IsSpaced (s.flatMap escapeXmlChar) := by
  refine h.escape rfl (fun w s => by simp [escapeXmlChar]) fun w hw => ⟨fun hnil => ?_, ?_⟩
  · have hw' := unescapeXml_escaped w
    rw [hnil] at hw'
    exact hw.1 hw'.symm
  · intro d hd
    obtain ⟨c, hc, hd⟩ := List.mem_flatMap.mp hd
    by_contra hblank
    rw [Bool.not_eq_false] at hblank
    rw [(of_mem_escapeXmlChar hd).2.2 hblank, hw.2 c hc] at hblank
    cases hblank

/-- Every occurrence of a character replaced. -/
def replaceAll (c : Char) (entity s : List Char) : List Char :=
  s.flatMap fun d => if d = c then entity else [d]

/-- **One pass escapes like three**, ampersands first: no pass finds what an earlier one has
written. -/
theorem escaped_eq_replaceAll (s : List Char) : s.flatMap escapeXmlChar =
    replaceAll '>' ['&', 'g', 't', ';'] (replaceAll '<' ['&', 'l', 't', ';']
      (replaceAll '&' ['&', 'a', 'm', 'p', ';'] s)) := by
  simp only [replaceAll, List.flatMap_assoc]
  congr 1
  funext c
  rcases escapeXmlChar_cases c with ⟨hamp, hlt, hgt, h⟩ | ⟨rfl, h⟩ | ⟨rfl, h⟩ | ⟨rfl, h⟩
  · simp [h, hamp, hlt, hgt]
  all_goals rw [h]; rfl

/-- What a text in an element must be like, and what it is read as. -/
structure StaysInside (text line : List Char) : Prop where
  spaced : IsSpaced text
  oneLine : ∀ c ∈ text, c ∉ lineBreaks
  noAngles : '<' ∉ text ∧ '>' ∉ text
  entity : ∀ after, '&' :: after <:+ text → ∃ name ∈ entities, name <+: after
  value : unescapeXml text = line

theorem isBlank_of_mem_lineBreaks {c : Char} (h : c ∈ lineBreaks) : isBlank c = true ∧ c ≠ ' ' := by
  have hall : ∀ c ∈ lineBreaks, isBlank c = true ∧ c ≠ ' ' :=
    List.all_iff_forall_prop.mp (by decide)
  exact hall c h

theorem staysInside_escapeXml (s : String) :
    StaysInside (escapeXml (Text.oneLine s)).toList (Text.oneLine s).toList := by
  rw [escapeXml, String.toList_ofList]
  have hspaced := isSpaced_escaped (Text.isSpaced_oneLine s)
  have hmem {c : Char} (hc : c ∈ (Text.oneLine s).toList.flatMap escapeXmlChar) :
      c ≠ '<' ∧ c ≠ '>' := by
    obtain ⟨d, -, hc⟩ := List.mem_flatMap.mp hc
    obtain ⟨hlt, hgt, -⟩ := of_mem_escapeXmlChar hc
    exact ⟨hlt, hgt⟩
  refine ⟨hspaced, fun c hc hbreak => ?_, ⟨fun h => (hmem h).1 rfl, fun h => (hmem h).2 rfl⟩,
    fun after => escaped_entities _, unescapeXml_escaped _⟩
  obtain ⟨hblank, hne⟩ := isBlank_of_mem_lineBreaks hbreak
  exact hne (hspaced.eq_space hc hblank)

end CSharp

end ClientGen
