import ClientGen.Name.Identifier
import Mathlib.Data.List.Basic

/-!
# Identifiers

* **Characters** (`of_isIdentifierChar`): the characters of identifiers are ASCII, so that a fact
  about all of them is looked up among 128 characters.
* **Identifiers** (`isIdentifier_iff`): what both languages accept as a name, in the form in which
  names are shown to be accepted. `sanitize` gives nothing else (`isIdentifier_sanitizeChars`).
-/

namespace ClientGen.Name

/-! ## Characters -/

theorem isIdentifierChar_of_isAlphanum {c : Char} (h : c.isAlphanum = true) :
    isIdentifierChar c = true := by
  simp [isIdentifierChar, h]

theorem toNat_lt_of_isIdentifierChar {c : Char} (h : isIdentifierChar c = true) :
    c.toNat < 128 := by
  have hupTo {u : UInt32} (h : c.val ≤ u) (hu : u.toNat < 128) : c.toNat < 128 :=
    Nat.lt_of_le_of_lt (UInt32.le_iff_toNat_le.mp h) hu
  -- upper case, lower case, a digit, or the underscore
  rcases (Bool.or_eq_true _ _).mp h with h | h
  · rcases (Bool.or_eq_true _ _).mp h with h | h
    · rcases (Bool.or_eq_true _ _).mp h with h | h
      · exact hupTo (of_decide_eq_true h).2 (by decide)
      · exact hupTo (of_decide_eq_true (Bool.and_eq_true_iff.mp h).2) (by decide)
    · exact hupTo (of_decide_eq_true (Bool.and_eq_true_iff.mp h).2) (by decide)
  · rw [of_decide_eq_true h]
    decide

/-- A fact about the characters of identifiers is a fact about ASCII, and can be looked up. -/
theorem of_isIdentifierChar {p : Char → Bool}
    (hascii : ∀ n < 128, isIdentifierChar (Char.ofNat n) = true → p (Char.ofNat n) = true)
    {c : Char} (h : isIdentifierChar c = true) : p c = true := by
  have hc := hascii c.toNat (toNat_lt_of_isIdentifierChar h)
  rw [Char.ofNat_toNat] at hc
  exact hc h

theorem isIdentifierChar_toUpper {c : Char} (h : isIdentifierChar c = true) :
    isIdentifierChar c.toUpper = true :=
  of_isIdentifierChar (p := fun c => isIdentifierChar c.toUpper) (by decide) h

theorem isIdentifierChar_of_mem_keepIdentifier {s : List Char} :
    ∀ {started raise : Bool}, ∀ c ∈ keepIdentifier started raise s, isIdentifierChar c = true := by
  induction s with
  | nil => exact fun _ hc => (nomatch hc)
  | cons d s ih =>
    intro started raise c hc
    rw [keepIdentifier] at hc
    by_cases hd : isIdentifierChar d = true
    · rw [if_pos hd] at hc
      rcases List.mem_cons.mp hc with rfl | hc
      · by_cases hr : raise = true
        · rw [if_pos hr]
          exact isIdentifierChar_toUpper hd
        · rw [if_neg hr]
          exact hd
      · exact ih c hc
    · rw [if_neg hd] at hc
      exact ih c hc

/-- The identifier of a text has the characters of identifiers only. -/
theorem isIdentifierChar_of_mem_sanitizeChars {s : List Char} :
    ∀ c ∈ sanitizeChars s, isIdentifierChar c = true := by
  intro c hc
  have hkept : ∀ d ∈ keepIdentifier false false s, isIdentifierChar d = true :=
    isIdentifierChar_of_mem_keepIdentifier
  unfold sanitizeChars at hc
  rcases hk : keepIdentifier false false s with _ | ⟨d, kept⟩
  · rw [hk] at hc
    have hunnamed : unnamed.all isIdentifierChar = true := by decide
    exact List.all_eq_true.mp hunnamed c hc
  · rw [hk] at hc hkept
    by_cases hd : d.isDigit = true
    · simp only [if_pos hd] at hc
      rcases List.mem_cons.mp hc with rfl | hc
      · decide
      · exact hkept c hc
    · simp only [if_neg hd] at hc
      exact hkept c hc

/-! ## Identifiers -/

/-- An identifier: a letter or an underscore, and then letters, digits and underscores. -/
def isIdentifier : List Char → Bool
  | [] => false
  | c :: s => (c.isAlpha || c = '_') && s.all fun d => d.isAlphanum || d = '_'

/-- An identifier is never empty, and does not start with a digit. -/
theorem sanitizeChars_eq_cons (s : List Char) :
    ∃ c rest, sanitizeChars s = c :: rest ∧ c.isDigit = false := by
  rw [sanitizeChars]
  rcases keepIdentifier false false s with _ | ⟨c, kept⟩
  · exact ⟨'U', _, rfl, rfl⟩
  · by_cases hc : c.isDigit = true
    · exact ⟨'_', c :: kept, if_pos hc, rfl⟩
    · exact ⟨c, kept, if_neg hc, Bool.eq_false_iff.mpr hc⟩

/-- An identifier has the characters of identifiers only, and does not start with a digit. -/
theorem isIdentifier_iff {s : List Char} :
    isIdentifier s = true ↔ (∀ c ∈ s, isIdentifierChar c = true) ∧
      ∃ c rest, s = c :: rest ∧ c.isDigit = false := by
  constructor
  · intro h
    cases s with
    | nil => cases h
    | cons c rest =>
      rw [isIdentifier, Bool.and_eq_true, List.all_eq_true] at h
      obtain ⟨hc, hrest⟩ := h
      have hchar : isIdentifierChar c = true := by
        rw [isIdentifierChar, Char.isAlphanum]
        rcases (Bool.or_eq_true _ _).mp hc with hc | hc <;> simp [hc]
      have hdigit := of_isIdentifierChar
        (p := fun c => !((c.isAlpha || c = '_') && c.isDigit)) (by decide) hchar
      simp only [hc, Bool.true_and, Bool.not_eq_true'] at hdigit
      exact ⟨List.forall_mem_cons.mpr ⟨hchar, hrest⟩, c, rest, rfl, hdigit⟩
  · rintro ⟨hchars, c, rest, rfl, hdigit⟩
    have hc := hchars c List.mem_cons_self
    rw [isIdentifierChar, Char.isAlphanum, hdigit, Bool.or_false] at hc
    rw [isIdentifier, hc, Bool.true_and, List.all_eq_true]
    exact fun d hd => hchars d (List.mem_cons_of_mem c hd)

theorem isIdentifier_append {s t : List Char} (hs : isIdentifier s = true)
    (ht : ∀ c ∈ t, isIdentifierChar c = true) : isIdentifier (s ++ t) = true := by
  obtain ⟨hchars, c, rest, rfl, hdigit⟩ := isIdentifier_iff.mp hs
  exact isIdentifier_iff.mpr ⟨List.forall_mem_append.mpr ⟨hchars, ht⟩, c, rest ++ t, rfl, hdigit⟩

theorem isIdentifier_sanitizeChars (s : List Char) :
    isIdentifier (sanitizeChars s) = true :=
  isIdentifier_iff.mpr ⟨isIdentifierChar_of_mem_sanitizeChars, sanitizeChars_eq_cons s⟩

end ClientGen.Name
