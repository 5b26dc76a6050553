import ClientGen.CSharp.Name
import ClientGen.Language
import ClientGen.Proofs.Name.Identifier
import ClientGen.Proofs.Text.Cut
import ClientGen.TypeScript.Name

/-!
# Normalized names stay as they are

* **Brackets** (`collapsesTo_collapseAll`): collapsing brackets comes to an end. A collapse writes
  no bracket and takes away an opening one (`count_of_collapse?`), so there are no more collapses
  than opening brackets, although the text does not get shorter.
* **Names** (`normalizeChars_eq_self_iff`): the names that stay as they are. They are the
  identifiers, apart from other ways to write the name of any value, and every normalized name is
  one of them.
* **Escapes** (`normalizeChars_at`): an `@` in front of a name does not matter.
* **Paths** (`exists_segments`): a normalized path is normalized names with dots between them. None
  of them has a dot, so that they are found again when the path is split.

The main statement, `normalize_stable`, puts them together for the languages.
-/

namespace ClientGen.Name

/-! ## Brackets -/

/-- Collapsing brackets, one pair after the other, ends with a text that has none to collapse. -/
inductive CollapsesTo : List Char → List Char → Prop
  | done {s : List Char} : collapse? s = none → CollapsesTo s s
  | step {s s' t : List Char} : collapse? s = some s' → CollapsesTo s' t → CollapsesTo s t

/-- A text with a character in it, cut at the first one. -/
theorem eq_append_of_dropWhile {x c : Char} {s rest : List Char}
    (h : s.dropWhile (fun d => decide (d ≠ x)) = c :: rest) :
    s = s.takeWhile (fun d => decide (d ≠ x)) ++ x :: rest := by
  have hc : c = x := by
    have hhead := List.head?_dropWhile_not (fun d => decide (d ≠ x)) s
    rw [h] at hhead
    simpa using hhead
  rw [← hc, ← h, hc]
  exact List.takeWhile_append_dropWhile.symm

/-- Inversion for `collapse?`: a pair of brackets with something between them is taken away. -/
theorem collapse?_inv {s t : List Char} (h : collapse? s = some t) :
    ∃ before inner after, s = before ++ '[' :: (inner ++ ']' :: after) ∧
      t = before ++ ['O', 'f'] ++ inner ++ after := by
  simp only [collapse?] at h
  split at h
  · cases h
  · next open_ rest hopen =>
    split at h
    · cases h
    · next close inner hclose =>
      split at h
      · cases h
      · -- the closing bracket is looked for from the end
        have hrest := congrArg List.reverse (eq_append_of_dropWhile hclose)
        simp only [List.reverse_reverse, List.reverse_append, List.reverse_cons,
          List.append_assoc, List.singleton_append] at hrest
        refine ⟨_, inner.reverse, _, ?_, (Option.some.inj h).symm⟩
        rw [← hrest]
        exact eq_append_of_dropWhile hopen

/-- **One collapse**: there is one opening bracket less. -/
theorem count_of_collapse? {s t : List Char} (h : collapse? s = some t) :
    s.count '[' = t.count '[' + 1 := by
  obtain ⟨before, inner, after, rfl, rfl⟩ := collapse?_inv h
  simp +arith [List.count_append]

/-- **All collapses**, by induction on the opening brackets that may be left. -/
theorem collapsesTo_collapseUpTo {fuel : Nat} :
    ∀ {s : List Char}, s.count '[' ≤ fuel → CollapsesTo s (collapseUpTo fuel s) := by
  induction fuel with
  | zero =>
    intro s hcount
    refine .done ?_
    rcases h : collapse? s with _ | t
    · rfl
    · have := count_of_collapse? h
      omega
  | succ fuel ih =>
    intro s hcount
    rw [collapseUpTo]
    split
    · next t h =>
      have := count_of_collapse? h
      exact .step h (ih (by omega))
    · next h => exact .done h

theorem collapsesTo_collapseAll (s : List Char) : CollapsesTo s (collapseAll s) :=
  collapsesTo_collapseUpTo (Nat.le_refl _)

/-- Without an opening bracket there is nothing to collapse. -/
theorem collapseAll_eq_self {s : List Char} (h : '[' ∉ s) : collapseAll s = s := by
  rw [collapseAll, List.count_eq_zero.mpr h, collapseUpTo]

/-! ## Names -/

/-- The characters of an identifier are all kept, in the case that they have. -/
theorem keepIdentifier_eq_self {s : List Char} (h : ∀ c ∈ s, isIdentifierChar c = true) :
    ∀ started : Bool, keepIdentifier started false s = s := by
  induction s with
  | nil => exact fun _ => rfl
  | cons c s ih =>
    obtain ⟨hc, hs⟩ := List.forall_mem_cons.mp h
    intro started
    simp [keepIdentifier, hc, ih hs]

theorem sanitizeChars_eq_self {s : List Char} (h : isIdentifier s = true) :
    sanitizeChars s = s := by
  obtain ⟨hchars, c, rest, rfl, hdigit⟩ := isIdentifier_iff.mp h
  simp [sanitizeChars, keepIdentifier_eq_self hchars, hdigit]

/-- An identifier has no white space, no bracket and no dot. -/
theorem of_mem_isIdentifier {s : List Char} (h : isIdentifier s = true) {c : Char} (hc : c ∈ s) :
    Text.isBlank c = false ∧ c ≠ '[' ∧ c ≠ '.' := by
  have hlookup := of_isIdentifierChar
    (p := fun c => decide (Text.isBlank c = false ∧ c ≠ '[' ∧ c ≠ '.')) (by decide)
    ((isIdentifier_iff.mp h).1 c hc)
  exact of_decide_eq_true hlookup

/-- Of an identifier, only the name of any value is written in another way. -/
theorem normalizeChars_of_isIdentifier {any s : List Char} (h : isIdentifier s = true) :
    normalizeChars any s = if s.map Char.toLower = objectName then any else s := by
  have hblank : s.filter (fun c => !Text.isBlank c) = s :=
    List.filter_eq_self.mpr fun c hc => by simp [(of_mem_isIdentifier h hc).1]
  have hopen : '[' ∉ s := fun hc => (of_mem_isIdentifier h hc).2.1 rfl
  simp only [normalizeChars, hblank, collapseAll_eq_self hopen, sanitizeChars_eq_self h]

theorem isIdentifier_normalizeChars {any : List Char} (hany : isIdentifier any = true)
    (raw : List Char) : isIdentifier (normalizeChars any raw) = true := by
  simp only [normalizeChars]
  split
  · exact hany
  · exact isIdentifier_sanitizeChars _

theorem isIdentifier_normalize {any : String} (hany : isIdentifier any.toList = true)
    (raw : String) : isIdentifier (normalize any raw).toList = true := by
  rw [normalize, String.toList_ofList]
  exact isIdentifier_normalizeChars hany raw.toList

/-- A normalized name is not another way to write the name of any value. -/
theorem eq_any_of_normalizeChars {any raw : List Char}
    (h : (normalizeChars any raw).map Char.toLower = objectName) :
    normalizeChars any raw = any := by
  simp only [normalizeChars] at h ⊢
  split
  · rfl
  · next hname =>
    rw [if_neg hname] at h
    exact absurd h hname

/-- **The names that stay as they are.** -/
theorem normalizeChars_eq_self_iff {any : List Char} (hany : isIdentifier any = true)
    {s : List Char} : normalizeChars any s = s ↔
      isIdentifier s = true ∧ (s.map Char.toLower = objectName → s = any) := by
  constructor
  · intro h
    rw [← h]
    exact ⟨isIdentifier_normalizeChars hany s, eq_any_of_normalizeChars⟩
  · rintro ⟨hs, hobject⟩
    rw [normalizeChars_of_isIdentifier hs]
    split
    · next hname => exact (hobject hname).symm
    · rfl

/-- **Normalized names stay as they are.** -/
theorem normalizeChars_normalizeChars {any : List Char} (hany : isIdentifier any = true)
    (raw : List Char) : normalizeChars any (normalizeChars any raw) = normalizeChars any raw :=
  (normalizeChars_eq_self_iff hany).mpr
    ⟨isIdentifier_normalizeChars hany raw, eq_any_of_normalizeChars⟩

/-! ## Escapes

`@` is no character of an identifier, so that one in front of a name is dropped, and dropping it
does not start the name. -/

theorem collapse?_cons {c : Char} (hc : c ≠ '[') (s : List Char) :
    collapse? (c :: s) = (collapse? s).map (c :: ·) := by
  have hp : decide (c ≠ '[') = true := decide_eq_true hc
  unfold collapse?
  simp only [List.takeWhile_cons_of_pos (p := fun d => decide (d ≠ '[')) hp,
    List.dropWhile_cons_of_pos (p := fun d => decide (d ≠ '[')) hp]
  rcases s.dropWhile fun d => decide (d ≠ '[') with _ | ⟨_, rest⟩
  · rfl
  · rcases hd : rest.reverse.dropWhile fun d => decide (d ≠ ']') with _ | ⟨_, inner⟩
    · simp only [hd, Option.map_none]
    · by_cases he : inner.isEmpty = true
      · simp only [hd, if_pos he, Option.map_none]
      · simp only [hd, if_neg he, Option.map_some, List.cons_append]

theorem collapseUpTo_cons {c : Char} (hc : c ≠ '[') (fuel : Nat) :
    ∀ s : List Char, collapseUpTo fuel (c :: s) = c :: collapseUpTo fuel s := by
  induction fuel with
  | zero => exact fun _ => rfl
  | succ fuel ih =>
    intro s
    rw [collapseUpTo, collapseUpTo, collapse?_cons hc]
    rcases collapse? s with _ | s'
    · rfl
    · exact ih s'

theorem collapseAll_at (s : List Char) : collapseAll ('@' :: s) = '@' :: collapseAll s := by
  unfold collapseAll
  rw [List.count_cons_of_ne (by decide)]
  exact collapseUpTo_cons (by decide) _ s

/-- An `@` in front does not change the name. -/
theorem normalizeChars_at (any raw : List Char) :
    normalizeChars any ('@' :: raw) = normalizeChars any raw := by
  have hblank : (!Text.isBlank '@') = true := by decide
  unfold normalizeChars
  rw [List.filter_cons_of_pos (p := fun c => !Text.isBlank c) hblank, collapseAll_at]
  rfl

theorem normalizeChars_dropWhile_at (any raw : List Char) :
    normalizeChars any (raw.dropWhile fun c => decide (c = '@')) = normalizeChars any raw := by
  induction raw with
  | nil => rfl
  | cons c raw ih =>
    by_cases hc : c = '@'
    · rw [List.dropWhile_cons_of_pos (p := fun c => decide (c = '@')) (decide_eq_true hc), ih, hc,
        normalizeChars_at]
    · have hnot : ¬ decide (c = '@') = true := fun h => hc (of_decide_eq_true h)
      rw [List.dropWhile_cons_of_neg (p := fun c => decide (c = '@')) hnot]

/-! ## Paths -/

/-- Identifiers with dots between them. -/
def IsPath (s : List Char) : Prop :=
  ∃ segments, segments ≠ [] ∧ (∀ name ∈ segments, isIdentifier name = true) ∧
    s = List.intercalate ['.'] segments

/-- **A normalized path** is normalized names with dots between them. -/
theorem exists_segments (any raw : String) :
    ∃ parts : List (List Char), parts ≠ [] ∧ (normalizePath any raw).toList =
      List.intercalate ['.'] (parts.map (normalizeChars any.toList)) := by
  simp only [normalizePath]
  split
  · exact ⟨[raw.toList], by simp, by simp [normalize]⟩
  · next hparts => exact ⟨_, by simpa using hparts, String.toList_ofList⟩

theorem isPath_normalizePath {any : String} (hany : isIdentifier any.toList = true)
    (raw : String) : IsPath (normalizePath any raw).toList := by
  obtain ⟨parts, hne, hpath⟩ := exists_segments any raw
  refine ⟨parts.map (normalizeChars any.toList), by simpa using hne, ?_, hpath⟩
  intro name hname
  obtain ⟨part, -, rfl⟩ := List.mem_map.mp hname
  exact isIdentifier_normalizeChars hany part

/-- Names that stay as they are make a path that stays as it is. -/
theorem normalizePath_of_segments {any path : String} {segments : List (List Char)}
    (hne : segments ≠ []) (hname : ∀ name ∈ segments, isIdentifier name = true)
    (hfix : ∀ name ∈ segments, normalizeChars any.toList name = name)
    (hpath : path.toList = List.intercalate ['.'] segments) : normalizePath any path = path := by
  have hsplit : Text.splitOnChar '.' path.toList = segments := by
    rw [Text.splitOnChar_eq_splitOn, hpath]
    refine List.splitOn_intercalate '.' (fun name hmem hdot => ?_) hne
    exact (of_mem_isIdentifier (hname name hmem) hdot).2.2 rfl
  have hfilter : segments.filter (fun part => !Text.isAllBlank part) = segments := by
    refine List.filter_eq_self.mpr fun name hmem => ?_
    obtain ⟨-, c, rest, rfl, -⟩ := isIdentifier_iff.mp (hname name hmem)
    simp [Text.isAllBlank, (of_mem_isIdentifier (hname _ hmem) List.mem_cons_self).1]
  have hmap : segments.map (normalizeChars any.toList) = segments :=
    (List.map_congr_left hfix).trans (List.map_id segments)
  simp only [normalizePath, hsplit, hfilter, hmap, ← hpath, String.ofList_toList]
  rw [if_neg (by simpa using hne)]

/-- **Normalized paths stay as they are.** -/
theorem normalizePath_normalizePath {any : String} (hany : isIdentifier any.toList = true)
    (raw : String) : normalizePath any (normalizePath any raw) = normalizePath any raw := by
  obtain ⟨parts, hne, hpath⟩ := exists_segments any raw
  refine normalizePath_of_segments (by simpa using hne) ?_ ?_ hpath
  · intro name hname
    obtain ⟨part, -, rfl⟩ := List.mem_map.mp hname
    exact isIdentifier_normalizeChars hany part
  · intro name hname
    obtain ⟨part, -, rfl⟩ := List.mem_map.mp hname
    exact normalizeChars_normalizeChars hany part

end ClientGen.Name

namespace ClientGen

/-! ## Languages -/

/-- The type of any value. -/
def Language.anyType : Language → String
  | .csharp => CSharp.anyType
  | .typescript => TypeScript.anyType

theorem Language.isIdentifier_anyType (language : Language) :
    Name.isIdentifier language.anyType.toList = true := by
  cases language <;> decide

/-- **Normalization is stable.** In either language and for every text: collapsing its brackets
comes to an end, its name is an identifier that normalizes to itself, and so is its path, segment by
segment. A text is its own name exactly if it is an identifier and no other way to write the name of
any value. -/
theorem normalize_stable (language : Language) (raw : String) :
    Name.CollapsesTo (raw.toList.filter fun c => !Text.isBlank c)
        (Name.collapseAll (raw.toList.filter fun c => !Text.isBlank c)) ∧
      Name.isIdentifier (Name.normalize language.anyType raw).toList = true ∧
      Name.normalize language.anyType (Name.normalize language.anyType raw) =
        Name.normalize language.anyType raw ∧
      (Name.normalize language.anyType raw = raw ↔
        Name.isIdentifier raw.toList = true ∧
          (raw.toList.map Char.toLower = Name.objectName → raw = language.anyType)) ∧
      Name.IsPath (Name.normalizePath language.anyType raw).toList ∧
      Name.normalizePath language.anyType (Name.normalizePath language.anyType raw) =
        Name.normalizePath language.anyType raw := by
  have hany := language.isIdentifier_anyType
  refine ⟨Name.collapsesTo_collapseAll _, ?_, ?_, ?_, Name.isPath_normalizePath hany raw,
    Name.normalizePath_normalizePath hany raw⟩
  · rw [Name.normalize, String.toList_ofList]
    exact Name.isIdentifier_normalizeChars hany raw.toList
  · simp only [Name.normalize, String.toList_ofList, Name.normalizeChars_normalizeChars hany]
  · have hlist (name : String) : raw = name ↔ raw.toList = name.toList := String.toList_inj.symm
    rw [eq_comm, Name.normalize, hlist, hlist language.anyType, String.toList_ofList, eq_comm]
    exact Name.normalizeChars_eq_self_iff hany

end ClientGen
