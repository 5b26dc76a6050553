import ClientGen.Text.Blank
import Mathlib.Data.List.Basic

/-!
# Where texts are cut

* **Words** (`append_inj_of_startsWith`): a word ends at the first of the marks that may follow it,
  so a text of a word and a rest has one reading. Shapes and addresses are read back with it.
* **Pieces** (`splitOnChar_eq_splitOn`): the pieces between separators. No piece has a separator in
  it, and what is appended goes to the last one.
-/

namespace ClientGen.Text

/-! ## Words and their ends -/

/-- A text that is at its end, or goes on with one of the marks. -/
def StartsWith (marks : List Char) (text : List Char) : Prop := ∀ c ∈ text.head?, c ∈ marks

theorem StartsWith.nil {marks : List Char} : StartsWith marks [] := fun _ h => nomatch h

theorem StartsWith.cons {marks text : List Char} {c : Char} (h : c ∈ marks) :
    StartsWith marks (c :: text) := by
  intro d hd
  rw [← Option.some.inj hd]
  exact h

theorem StartsWith.mono {marks marks' text : List Char} (h : StartsWith marks text)
    (hsub : marks ⊆ marks') : StartsWith marks' text := fun c hc => hsub (h c hc)

/-- **Words**: where no mark occurs in a word and one follows it, the text tells where the word
ends. -/
theorem append_inj_of_startsWith {marks w : List Char} (hw : ∀ c ∈ w, c ∉ marks) :
    ∀ {w' u v : List Char}, (∀ c ∈ w', c ∉ marks) → StartsWith marks u → StartsWith marks v →
      w ++ u = w' ++ v → w = w' ∧ u = v := by
  induction w with
  | nil =>
    intro w' u v hw' hu _ h
    cases w' with
    | nil => exact ⟨rfl, h⟩
    | cons c w' =>
      have hc : c ∈ marks := hu c (by rw [show u = c :: (w' ++ v) from h]; rfl)
      exact absurd hc (hw' c (List.mem_cons_self ..))
  | cons c w ih =>
    intro w' u v hw' hu hv h
    cases w' with
    | nil =>
      have hc : c ∈ marks := hv c (by rw [← show c :: (w ++ u) = v from h]; rfl)
      exact absurd hc (hw c (List.mem_cons_self ..))
    | cons c' w' =>
      obtain ⟨rfl, hrest⟩ := List.cons.inj h
      obtain ⟨rfl, rfl⟩ := ih (fun d hd => hw d (List.mem_cons_of_mem _ hd))
        (fun d hd => hw' d (List.mem_cons_of_mem _ hd)) hu hv hrest
      exact ⟨rfl, rfl⟩

/-- A text tells where a character is first. -/
theorem cut_inj {c : Char} {x x' y y' : List Char} (hx : c ∉ x) (hx' : c ∉ x')
    (h : x ++ c :: y = x' ++ c :: y') : x = x' ∧ y = y' := by
  have hmark : c ∈ [c] := List.mem_singleton_self c
  have hlacks {z : List Char} (hz : c ∉ z) : ∀ d ∈ z, d ∉ [c] := by
    rintro d hd hc
    exact hz (List.mem_singleton.mp hc ▸ hd)
  obtain ⟨rfl, hrest⟩ := append_inj_of_startsWith (hlacks hx) (hlacks hx') (.cons hmark)
    (.cons hmark) h
  exact ⟨rfl, (List.cons.inj hrest).2⟩

/-! ## Pieces between separators -/

/-- The pieces are those of the library, so that what is known about putting pieces together again
holds of them. -/
theorem splitOnChar_eq_splitOn (sep : Char) (s : List Char) :
    splitOnChar sep s = s.splitOn sep := by
  induction s with
  | nil => rfl
  | cons c s ih =>
    rw [splitOnChar, ih, List.splitOn_cons_eq_if_modifyHead]
    rcases hpieces : s.splitOn sep with _ | ⟨piece, pieces⟩
    · exact absurd hpieces (List.splitOn_ne_nil sep s)
    · by_cases hc : c = sep <;> simp [hc]

theorem splitOnChar_of_not_mem {sep : Char} {s : List Char} (h : sep ∉ s) :
    splitOnChar sep s = [s] := by
  induction s with
  | nil => rfl
  | cons c s ih =>
    obtain ⟨hc, hs⟩ := not_or.mp (mt List.mem_cons.mpr h)
    rw [splitOnChar, ih hs]
    exact if_neg (Ne.symm hc)

/-- What is put after a text without a separator in it goes to the last piece, which is empty only
after a separator. -/
theorem splitOnChar_append (sep : Char) (s : List Char) :
    ∃ pieces last, (last = [] → s = [] ∨ s.getLast? = some sep) ∧
      ∀ t, sep ∉ t → splitOnChar sep (s ++ t) = pieces ++ [last ++ t] := by
  induction s with
  | nil => exact ⟨[], [], fun _ => Or.inl rfl, fun t ht => splitOnChar_of_not_mem ht⟩
  | cons c s ih =>
    obtain ⟨pieces, last, hlast, hsplit⟩ := ih
    by_cases hc : c = sep
    · refine ⟨[] :: pieces, last, fun h => Or.inr ?_, fun t ht => ?_⟩
      · rcases hlast h with rfl | hs
        · rw [hc]
          rfl
        · rw [List.getLast?_cons, hs]
          rfl
      · rw [List.cons_append, splitOnChar, hsplit t ht]
        cases pieces <;> simp [hc]
    · cases pieces with
      | nil =>
        refine ⟨[], c :: last, fun h => (nomatch h), fun t ht => ?_⟩
        rw [List.cons_append, splitOnChar, hsplit t ht]
        simp [hc]
      | cons piece pieces =>
        refine ⟨(c :: piece) :: pieces, last, fun h => Or.inr ?_, fun t ht => ?_⟩
        · rcases hlast h with rfl | hs
          · have hnil := hsplit [] (by simp)
            simp [splitOnChar] at hnil
          · rw [List.getLast?_cons, hs]
            rfl
        · rw [List.cons_append, splitOnChar, hsplit t ht]
          simp [hc]

/-- No piece has a separator in it, so that pieces with separators between them are found again. -/
theorem notMem_of_mem_splitOnChar {sep : Char} {s piece : List Char}
    (h : piece ∈ splitOnChar sep s) : sep ∉ piece := by
  induction s generalizing piece with
  | nil =>
    rw [List.mem_singleton.mp h]
    exact List.not_mem_nil
  | cons c s ih =>
    rw [splitOnChar] at h
    split at h
    case h_1 hnil =>
      rw [splitOnChar_eq_splitOn] at hnil
      exact absurd hnil (List.splitOn_ne_nil sep s)
    case h_2 first pieces hsplit =>
      rw [hsplit] at ih
      by_cases hc : c = sep
      · rw [if_pos hc] at h
        rcases List.mem_cons.mp h with rfl | h
        · exact List.not_mem_nil
        · exact ih h
      · rw [if_neg hc] at h
        rcases List.mem_cons.mp h with rfl | h
        · exact List.not_mem_cons_of_ne_of_not_mem (Ne.symm hc) (ih List.mem_cons_self)
        · exact ih (List.mem_cons_of_mem first h)

end ClientGen.Text
