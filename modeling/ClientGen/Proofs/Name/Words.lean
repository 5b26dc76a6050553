import ClientGen.Proofs.Name.Identifier

/-!
# Words put together again

The words of an identifier are made of its letters and digits (`mem_identifierWords`), and these
stay letters and digits in either case. So what is put together from words has no other characters
(`isAlphanum_of_mem_camelCase`): the underscores are gone, and with them, maybe, all of the text. A
text that starts with a letter or a digit keeps it in front (`pascalCase_cons`).
-/

namespace ClientGen.Text

/-! ## Splitting -/

/-- A character goes in front of the first word, or it is a word of its own. -/
theorem mem_pushWord {d : Char} {acc : List (List Char) × Bool} {w : List Char}
    (hw : w ∈ (pushWord d acc).1) {c : Char} (hc : c ∈ w) : c = d ∨ ∃ v ∈ acc.1, c ∈ v := by
  rw [pushWord.eq_def] at hw
  split at hw
  · next first words =>
    rcases List.mem_cons.mp hw with rfl | hw
    · exact (List.mem_cons.mp hc).imp_right fun hc => ⟨first, List.mem_cons_self, hc⟩
    · exact .inr ⟨w, List.mem_cons_of_mem first hw, hc⟩
  · rcases List.mem_cons.mp hw with rfl | hw
    · exact .inl (List.mem_singleton.mp hc)
    · exact .inr ⟨w, hw, hc⟩

/-- The words of a text are made of its characters outside the class. -/
theorem mem_wordsBy {p : Char → Bool} {s : List Char} :
    ∀ {w : List Char}, w ∈ wordsBy p s → ∀ c ∈ w, c ∈ s ∧ p c = false := by
  induction s with
  | nil => intro w hw; cases hw
  | cons d s ih =>
    intro w hw c hc
    rw [wordsBy, List.foldr_cons] at hw
    split at hw
    · exact (ih hw c hc).imp_left (List.mem_cons_of_mem d)
    · next hd =>
      rcases mem_pushWord hw hc with rfl | ⟨v, hv, hc⟩
      · exact ⟨List.mem_cons_self, Bool.eq_false_iff.mpr hd⟩
      · exact (ih hv c hc).imp_left (List.mem_cons_of_mem d)

/-- Splitting where the case changes adds no characters to those read and those to be read. -/
theorem mem_splitWords {mode : WordCase} {word s : List Char} :
    ∀ {w : List Char}, w ∈ splitWords mode word s → ∀ c ∈ w, c ∈ word ∨ c ∈ s := by
  fun_induction splitWords mode word s with
  | case1 | case2 | case3 | case4 | case5 | case6 => grind

/-- The words of an identifier are made of its letters and digits. -/
theorem mem_identifierWords {s w : List Char} (hw : w ∈ identifierWords s) :
    ∀ c ∈ w, c ∈ s ∧ Letter.isAlphanumeric c = true := by
  intro c hc
  obtain ⟨run, hrun, hw⟩ := List.mem_flatMap.mp hw
  have hmem : c ∈ run := (mem_splitWords hw c hc).resolve_left List.not_mem_nil
  simpa using mem_wordsBy hrun c hmem

/-! ### The first word -/

theorem wordsBy_cons {p : Char → Bool} {c : Char} (hc : p c = false) (s : List Char) :
    ∃ w ws, wordsBy p (c :: s) = (c :: w) :: ws := by
  simp only [wordsBy, List.foldr_cons, hc, Bool.false_eq_true, if_false]
  rw [pushWord.eq_def]
  split
  · exact ⟨_, _, rfl⟩
  · exact ⟨_, _, rfl⟩

/-- A word that is being read stays in front of what is still to be read. -/
theorem splitWords_of_reverse {mode : WordCase} {word s : List Char} {c : Char} :
    ∀ {u : List Char}, word.reverse = c :: u → ∃ w ws, splitWords mode word s = (c :: w) :: ws := by
  fun_induction splitWords mode word s with
  | case1 mode word hempty =>
    intro u h
    simp [List.isEmpty_iff.mp hempty] at h
  | case2 mode word _ =>
    intro u h
    exact ⟨u, [], by rw [h]⟩
  | case3 mode word d =>
    intro u h
    exact ⟨u ++ [d], [], by simp [h]⟩
  | case4 mode word d next s =>
    intro u h
    exact ⟨u ++ [d], splitWords .boundary [] (next :: s), by simp [h]⟩
  | case5 mode word d next s =>
    intro u h
    exact ⟨u, splitWords .boundary [d] (next :: s), by simp [h]⟩
  | case6 mode word d next s =>
    rename_i ih
    intro u h
    exact ih (u := u ++ [d]) (by simp [h])

theorem splitWords_cons (c : Char) (s : List Char) :
    ∃ w ws, splitWords .boundary [] (c :: s) = (c :: w) :: ws := by
  cases s with
  | nil => exact ⟨[], [], rfl⟩
  | cons next s =>
    simp only [splitWords, reduceCtorEq, false_and, if_false]
    split
    · exact ⟨[], _, rfl⟩
    · exact splitWords_of_reverse (u := []) rfl

/-- The first word starts as the text does. -/
theorem identifierWords_cons {c : Char} (hc : Letter.isAlphanumeric c = true) (s : List Char) :
    ∃ w ws, identifierWords (c :: s) = (c :: w) :: ws := by
  have hinside : (!Letter.isAlphanumeric c) = false := by rw [hc, Bool.not_true]
  obtain ⟨run, runs, hruns⟩ := wordsBy_cons (p := fun c => !Letter.isAlphanumeric c) hinside s
  obtain ⟨w, ws, hw⟩ := splitWords_cons c run
  rw [identifierWords, hruns, List.flatMap_cons, hw]
  exact ⟨w, _, rfl⟩

/-! ## Putting together -/

theorem isAscii_of_isAlphanum {c : Char} (h : c.isAlphanum = true) : Letter.isAscii c = true :=
  decide_eq_true (Name.toNat_lt_of_isIdentifierChar (Name.isIdentifierChar_of_isAlphanum h))

/-- Letters and digits of ASCII have one other form, which is a letter or a digit too. -/
theorem case_of_isAlphanum {c : Char} (h : c.isAlphanum = true) :
    Letter.toLower c = [c.toLower] ∧ Letter.toUpper c = [c.toUpper] ∧ c ≠ 'Σ' ∧
      c.toLower.isAlphanum = true ∧ c.toUpper.isAlphanum = true := by
  have hascii := isAscii_of_isAlphanum h
  have hlookup := Name.of_isIdentifierChar (p := fun c => !c.isAlphanum ||
    decide (c ≠ 'Σ' ∧ c.toLower.isAlphanum = true ∧ c.toUpper.isAlphanum = true))
    (by decide) (Name.isIdentifierChar_of_isAlphanum h)
  simp only [h, Bool.not_true, Bool.false_or, decide_eq_true_eq] at hlookup
  exact ⟨by simp [Letter.toLower, hascii], by simp [Letter.toUpper, hascii], hlookup⟩

theorem isAlphanum_of_mem_lowerWord {w : List Char} (h : ∀ c ∈ w, c.isAlphanum = true) :
    ∀ c ∈ lowerWord w, c.isAlphanum = true := by
  fun_induction lowerWord w with
  | case1 => exact h
  | case2 => exact absurd rfl (case_of_isAlphanum (h 'Σ' (List.mem_singleton_self _))).2.2.1
  | case3 | case4 => grind [case_of_isAlphanum]

theorem isAlphanum_of_mem_capitalize {w : List Char} (h : ∀ c ∈ w, c.isAlphanum = true) :
    ∀ c ∈ capitalize w, c.isAlphanum = true := by
  cases w with
  | nil => exact h
  | cons d w =>
    obtain ⟨hd, hw⟩ := List.forall_mem_cons.mp h
    obtain ⟨-, hupper, -, -, halphanum⟩ := case_of_isAlphanum hd
    intro c hc
    rw [capitalize, hupper] at hc
    rcases List.mem_cons.mp hc with rfl | hc
    · exact halphanum
    · exact isAlphanum_of_mem_lowerWord hw c hc

theorem isAlphanum_of_mem_identifierWords {s w : List Char}
    (h : ∀ c ∈ s, Name.isIdentifierChar c = true) (hw : w ∈ identifierWords s) :
    ∀ c ∈ w, c.isAlphanum = true := by
  intro c hc
  obtain ⟨hmem, halphanum⟩ := mem_identifierWords hw c hc
  have hascii : Letter.isAscii c = true :=
    decide_eq_true (Name.toNat_lt_of_isIdentifierChar (h c hmem))
  simpa [Letter.isAlphanumeric, hascii] using halphanum

theorem isAlphanum_of_mem_capitalized {ws : List (List Char)}
    (h : ∀ w ∈ ws, ∀ c ∈ w, c.isAlphanum = true) :
    ∀ c ∈ (ws.map capitalize).flatten, c.isAlphanum = true := by
  intro c hc
  obtain ⟨word, hword, hc⟩ := List.mem_flatten.mp hc
  obtain ⟨w, hw, rfl⟩ := List.mem_map.mp hword
  exact isAlphanum_of_mem_capitalize (h w hw) c hc

/-- **An identifier in words** has letters and digits only. -/
theorem isAlphanum_of_mem_camelCase {s : List Char}
    (h : ∀ c ∈ s, Name.isIdentifierChar c = true) : ∀ c ∈ camelCase s, c.isAlphanum = true := by
  have hwords : ∀ w ∈ identifierWords s, ∀ c ∈ w, c.isAlphanum = true :=
    fun w => isAlphanum_of_mem_identifierWords h
  intro c hc
  rw [camelCase] at hc
  rcases hs : identifierWords s with _ | ⟨w, ws⟩
  · rw [hs] at hc
    cases hc
  · rw [hs] at hc hwords
    obtain ⟨hw, hws⟩ := List.forall_mem_cons.mp hwords
    rcases List.mem_append.mp hc with hc | hc
    · exact isAlphanum_of_mem_lowerWord hw c hc
    · exact isAlphanum_of_mem_capitalized hws c hc

theorem isAlphanum_of_mem_pascalCase {s : List Char}
    (h : ∀ c ∈ s, Name.isIdentifierChar c = true) : ∀ c ∈ pascalCase s, c.isAlphanum = true :=
  isAlphanum_of_mem_capitalized fun _ => isAlphanum_of_mem_identifierWords h

/-- The first character stays in front, in upper case. -/
theorem pascalCase_cons {c : Char} (hc : c.isAlphanum = true) (s : List Char) :
    ∃ rest, pascalCase (c :: s) = c.toUpper :: rest := by
  have hascii := isAscii_of_isAlphanum hc
  obtain ⟨w, ws, hwords⟩ := identifierWords_cons
    (show Letter.isAlphanumeric c = true by simp [Letter.isAlphanumeric, hascii, hc]) s
  obtain ⟨-, hupper, -⟩ := case_of_isAlphanum hc
  rw [pascalCase, hwords, List.map_cons, capitalize, hupper]
  exact ⟨_, rfl⟩

end ClientGen.Text
