import ClientGen.Number.Natural
import Mathlib.Data.Nat.Basic

/-!
# Spellings of natural numbers

A plus sign and zeros in front do not count when a natural number is read, and nothing else is
forgiven: the digits that are left are those of the number (`significant_eq`). So two texts are read
as the same number exactly when their significant digits agree (`parse?_eq_iff`).
-/

namespace ClientGen.Natural

/-- The digits that count: without a plus sign and without zeros in front. -/
def significant (s : List Char) : List Char := (unsign s).dropWhile (· = '0')

theorem digitChar_of_isDigit {c : Char} (h : c.isDigit = true) :
    Nat.digitChar (c.toNat - '0'.toNat) = c ∧ c.toNat - '0'.toNat < 10 := by
  obtain ⟨hlow, hhigh⟩ := Char.isDigit_iff_toNat.mp h
  have hzero : '0'.toNat = 48 := rfl
  have hnine : '9'.toNat = 57 := rfl
  have hlt : c.toNat - '0'.toNat < 10 := by omega
  refine ⟨Char.toNat_inj.mp ?_, hlt⟩
  rw [Nat.toNat_digitChar_of_lt_ten hlt]
  omega

/-- Zeros in front do not change what is read. -/
theorem digits?_dropWhile (s : List Char) : digits? 0 (s.dropWhile (· = '0')) = digits? 0 s := by
  induction s with
  | nil => rfl
  | cons c s ih =>
    by_cases hc : c = '0'
    · subst hc
      simpa [digits?] using ih
    · simp [hc]

/-- What is read continues the digits that were there before. -/
theorem toDigits_of_digits? {s : List Char} :
    ∀ {acc n : ℕ}, 0 < acc → digits? acc s = some n →
      Nat.toDigits 10 n = Nat.toDigits 10 acc ++ s := by
  induction s with
  | nil =>
    intro acc n _ h
    obtain rfl : acc = n := by simpa [digits?] using h
    simp
  | cons c s ih =>
    intro acc n hacc h
    rw [digits?] at h
    split at h
    case isTrue hdigit =>
      obtain ⟨hchar, hlt⟩ := digitChar_of_isDigit hdigit
      rw [ih (by omega) h, Nat.toDigits_of_base_le (by decide) (by omega),
        Nat.mul_comm acc 10, Nat.mul_add_div (by decide), Nat.div_eq_of_lt hlt, Nat.mul_add_mod,
        Nat.mod_eq_of_lt hlt, hchar]
      simp
    case isFalse => cases h

/-- Digits without a zero in front are those of the number that they are read as. -/
theorem toDigits_of_digits?_zero {s : List Char} {n : ℕ} (hs : s.head? ≠ some '0')
    (h : digits? 0 s = some n) : s = if n = 0 then [] else Nat.toDigits 10 n := by
  cases s with
  | nil =>
    obtain rfl : 0 = n := by simpa [digits?] using h
    rfl
  | cons c s =>
    rw [digits?] at h
    split at h
    case isTrue hdigit =>
      obtain ⟨hchar, hlt⟩ := digitChar_of_isDigit hdigit
      rw [Nat.zero_mul, Nat.zero_add] at h
      have hpos : 0 < c.toNat - '0'.toNat := by
        apply Nat.pos_of_ne_zero
        intro hzero
        rw [hzero] at hchar
        exact hs (congrArg some hchar.symm)
      have hdigits := toDigits_of_digits? hpos h
      rw [Nat.toDigits_of_lt_base hlt, hchar, List.singleton_append] at hdigits
      have hn : n ≠ 0 := by
        rintro rfl
        cases hdigits
        exact hs rfl
      rw [if_neg hn, hdigits]
    case isFalse => cases h

theorem digits?_of_parse? {bound n : ℕ} {s : List Char} (h : parse? bound s = some n) :
    digits? 0 (unsign s) = some n := by
  unfold parse? at h
  split at h
  · cases h
  · split at h
    case h_1 m hm =>
      split at h
      · rw [hm, h]
      · cases h
    case h_2 => cases h

/-- **The digits that count are those of the number**; zero has none. -/
theorem significant_eq {bound n : ℕ} {s : List Char} (h : parse? bound s = some n) :
    significant s = if n = 0 then [] else Nat.toDigits 10 n := by
  refine toDigits_of_digits?_zero ?_ ((digits?_dropWhile _).trans (digits?_of_parse? h))
  intro hhead
  have hnot := List.head?_dropWhile_not (· = '0') (unsign s)
  rw [significant] at hhead
  rw [hhead] at hnot
  simp at hnot

/-- **Spellings.** Two texts are read as the same number exactly when their significant digits
agree. -/
theorem parse?_eq_iff {bound n m : ℕ} {s t : List Char} (hs : parse? bound s = some n)
    (ht : parse? bound t = some m) : n = m ↔ significant s = significant t := by
  rw [significant_eq hs, significant_eq ht]
  constructor
  · rintro rfl
    rfl
  · intro h
    -- the digits of a number other than zero are not empty, and they give the number back
    split at h <;> split at h
    · omega
    · exact absurd h.symm Nat.toDigits_ne_nil
    · exact absurd h Nat.toDigits_ne_nil
    · rw [← Nat.ofDigitChars_ten_toDigits (n := n), h, Nat.ofDigitChars_ten_toDigits]

end ClientGen.Natural
