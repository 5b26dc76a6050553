import Mathlib.Algebra.Order.Field.Power
import Mathlib.Algebra.Order.Field.Rat
import Mathlib.Data.Nat.Digits.Defs
import Mathlib.Tactic.FieldSimp
import Mathlib.Tactic.Linarith
import Mathlib.Tactic.NormNum
import Mathlib.Tactic.Positivity
import Mathlib.Tactic.Ring
import ClientGen.Number.Double

/-!
# How decimals round to doubles

The whole-number arithmetic of `Double.ofDecimal?` against the rational numbers it stands for.

* `Nearest` says what it is to round to a whole number, `FitsAt` at which exponent a number has its
  53 bits. Both are met by one number only, so a computation that meets them is known.
* `Double.Canonical` is what every double that was read satisfies (`canonical_of_ofDecimal?`).
* `Double.Takes` describes the numbers that round to a double. Every decimal among them is read as
  that double (`ofDecimal?_of_takes`); below a power of two, where the grid is twice as fine, the
  mantissa is carried over to it.
-/

namespace ClientGen

namespace Double

/-! ## Rounding to a whole number -/

/-- `m` is a whole number nearest to `v`, and the even one if there are two. -/
structure Nearest (v : ℚ) (m : ℕ) : Prop where
  low : (m : ℚ) - 1 / 2 ≤ v
  high : v ≤ m + 1 / 2
  tie : m % 2 = 1 → (m : ℚ) - 1 / 2 < v ∧ v < m + 1 / 2

/-- Two whole numbers nearest to one number are neighbours around a half; only one of them is
even. -/
theorem Nearest.le {v : ℚ} {m n : ℕ} (hm : Nearest v m) (hn : Nearest v n) : m ≤ n := by
  by_contra h
  have hnm : n + 1 ≤ m := by omega
  have hcast : (n : ℚ) + 1 ≤ m := by exact_mod_cast hnm
  have hlow := hm.low
  have hhigh := hn.high
  have heq : m = n + 1 := by
    have : (m : ℚ) ≤ n + 1 := by linarith
    have : m ≤ n + 1 := by exact_mod_cast this
    omega
  rcases Nat.mod_two_eq_zero_or_one m with hpar | hpar
  · have := (hn.tie (by omega)).2
    linarith
  · have := (hm.tie hpar).1
    linarith

theorem Nearest.unique {v : ℚ} {m n : ℕ} (hm : Nearest v m) (hn : Nearest v n) : m = n :=
  Nat.le_antisymm (hm.le hn) (hn.le hm)

theorem roundDiv_nearest (a : ℕ) {b : ℕ} (hb : 0 < b) : Nearest (a / b) (roundDiv a b) := by
  have hb' : (0 : ℚ) < b := by exact_mod_cast hb
  have hsplit : (a : ℚ) / b = (a / b : ℕ) + (a % b : ℕ) / b := by
    rw [div_eq_iff hb'.ne', add_mul, div_mul_cancel₀ _ hb'.ne']
    exact_mod_cast (Nat.div_add_mod' a b).symm
  have hnonneg : (0 : ℚ) ≤ (a % b : ℕ) / b := by positivity
  have hlt : ((a % b : ℕ) : ℚ) / b < 1 := by
    rw [div_lt_one hb']
    exact_mod_cast Nat.mod_lt a hb
  rw [hsplit]
  unfold roundDiv
  dsimp only
  split
  case isTrue h =>
    have hhalf : ((a % b : ℕ) : ℚ) / b < 1 / 2 := by
      rw [div_lt_div_iff₀ hb' two_pos]
      exact_mod_cast (by omega : a % b * 2 < 1 * b)
    exact ⟨by linarith, by linarith, fun _ => ⟨by linarith, by linarith⟩⟩
  case isFalse h =>
    split
    case isTrue h' =>
      have hhalf : 1 / 2 < ((a % b : ℕ) : ℚ) / b := by
        rw [div_lt_div_iff₀ two_pos hb']
        exact_mod_cast (by omega : 1 * b < a % b * 2)
      have hsucc : ((a / b + 1 : ℕ) : ℚ) = (a / b : ℕ) + 1 := Nat.cast_succ _
      exact ⟨by linarith, by linarith, fun _ => ⟨by linarith, by linarith⟩⟩
    case isFalse h' =>
      have hhalf : ((a % b : ℕ) : ℚ) / b = 1 / 2 := by
        rw [div_eq_div_iff hb'.ne' two_ne_zero]
        exact_mod_cast (by omega : a % b * 2 = 1 * b)
      rw [hhalf]
      split
      case isTrue heven => exact ⟨by linarith, by linarith, fun hodd => by omega⟩
      case isFalse hodd =>
        have hsucc : ((a / b + 1 : ℕ) : ℚ) = (a / b : ℕ) + 1 := Nat.cast_succ _
        exact ⟨by linarith, by linarith, fun h => by omega⟩

/-! ## The exponent -/

theorem two_zpow_pos (e : ℤ) : (0 : ℚ) < 2 ^ e := zpow_pos two_pos e

theorem two_zpow_le {d e : ℤ} (h : d ≤ e) : (2 : ℚ) ^ d ≤ 2 ^ e := zpow_le_zpow_right₀ one_le_two h

theorem two_zpow_lt_iff {d e : ℤ} : (2 : ℚ) ^ d < 2 ^ e ↔ d < e :=
  zpow_lt_zpow_iff_right₀ one_lt_two

theorem two_zpow_add (d e : ℤ) : (2 : ℚ) ^ (d + e) = 2 ^ d * 2 ^ e := zpow_add₀ two_ne_zero d e

/-- At the exponent `e` the number `v` has 53 bits before the point, or fewer at the least
exponent. -/
structure FitsAt (v : ℚ) (e : ℤ) : Prop where
  least_le : leastExponent ≤ e
  lt : v < 2 ^ (e + 53)
  le : 2 ^ (e + 52) ≤ v ∨ e = leastExponent

theorem FitsAt.exponent_le {v : ℚ} {d e : ℤ} (hd : FitsAt v d) (he : FitsAt v e) : d ≤ e := by
  rcases hd.le with hv | rfl
  · have := two_zpow_lt_iff.mp (hv.trans_lt he.lt)
    omega
  · exact he.least_le

theorem FitsAt.unique {v : ℚ} {d e : ℤ} (hd : FitsAt v d) (he : FitsAt v e) : d = e :=
  le_antisymm (hd.exponent_le he) (he.exponent_le hd)

theorem scaleFraction_pos (a : ℕ) {b : ℕ} (e : ℤ) (hb : 0 < b) : 0 < (scaleFraction a b e).2 := by
  unfold scaleFraction
  split
  · exact hb
  · exact Nat.mul_pos hb (Nat.pow_pos two_pos)

theorem scaleFraction_eq (a b : ℕ) (e : ℤ) :
    ((scaleFraction a b e).1 : ℚ) / (scaleFraction a b e).2 = a / b / 2 ^ e := by
  unfold scaleFraction
  split
  case isTrue h =>
    have he : e = -((-e).toNat : ℤ) := by omega
    rw [he, zpow_neg, zpow_natCast]
    simp only [Nat.pow_eq, Nat.cast_mul, Nat.cast_pow, Nat.cast_ofNat, neg_neg, Int.toNat_natCast,
      div_inv_eq_mul]
    ring
  case isFalse h =>
    have he : e = (e.toNat : ℤ) := by omega
    rw [he, zpow_natCast]
    simp only [Nat.pow_eq, Nat.cast_mul, Nat.cast_pow, Nat.cast_ofNat, Int.toNat_natCast, div_div]

/-- The logarithms of numerator and denominator give the quotient up to one bit on either side. -/
theorem quotient_bounds {a b : ℕ} (ha : 0 < a) (hb : 0 < b) :
    (2 : ℚ) ^ ((a.log2 : ℤ) - b.log2 - 1) < a / b ∧
      (a : ℚ) / b < 2 ^ ((a.log2 : ℤ) - b.log2 + 1) := by
  have hb' : (0 : ℚ) < b := by exact_mod_cast hb
  have halow : (2 : ℚ) ^ (a.log2 : ℤ) ≤ a := by
    rw [zpow_natCast]
    exact_mod_cast Nat.log2_self_le ha.ne'
  have hahigh : (a : ℚ) < 2 ^ ((a.log2 : ℤ) + 1) := by
    exact_mod_cast (Nat.lt_log2_self : a < 2 ^ (a.log2 + 1))
  have hblow : (2 : ℚ) ^ (b.log2 : ℤ) ≤ b := by
    rw [zpow_natCast]
    exact_mod_cast Nat.log2_self_le hb.ne'
  have hbhigh : (b : ℚ) < 2 ^ ((b.log2 : ℤ) + 1) := by
    exact_mod_cast (Nat.lt_log2_self : b < 2 ^ (b.log2 + 1))
  constructor
  · rw [lt_div_iff₀ hb']
    calc (2 : ℚ) ^ ((a.log2 : ℤ) - b.log2 - 1) * b
        < 2 ^ ((a.log2 : ℤ) - b.log2 - 1) * 2 ^ ((b.log2 : ℤ) + 1) :=
          mul_lt_mul_of_pos_left hbhigh (two_zpow_pos _)
      _ = 2 ^ (a.log2 : ℤ) := by rw [← two_zpow_add]; congr 1; ring
      _ ≤ a := halow
  · rw [div_lt_iff₀ hb']
    calc (a : ℚ) < 2 ^ ((a.log2 : ℤ) + 1) := hahigh
      _ = 2 ^ ((a.log2 : ℤ) - b.log2 + 1) * 2 ^ (b.log2 : ℤ) := by
          rw [← two_zpow_add]; congr 1; ring
      _ ≤ 2 ^ ((a.log2 : ℤ) - b.log2 + 1) * b := mul_le_mul_of_nonneg_left hblow (two_zpow_pos _).le

/-- The test that corrects the guess asks whether the number has a 54th bit. -/
theorem le_scaled_iff (a : ℕ) {b : ℕ} (e : ℤ) (hb : 0 < b) :
    Nat.pow 2 53 ≤ (scaleFraction a b e).1 / (scaleFraction a b e).2 ↔
      (2 : ℚ) ^ (e + 53) ≤ a / b := by
  have hd := scaleFraction_pos a e hb
  have hd' : (0 : ℚ) < (scaleFraction a b e).2 := by exact_mod_cast hd
  have hval := scaleFraction_eq a b e
  rw [Nat.le_div_iff_mul_le hd, two_zpow_add, mul_comm ((2 : ℚ) ^ e),
    ← le_div_iff₀ (two_zpow_pos e), ← hval, le_div_iff₀ hd']
  exact_mod_cast Iff.rfl

theorem exponentFor_fits {a b : ℕ} (ha : 0 < a) (hb : 0 < b) :
    FitsAt (a / b) (exponentFor a b) := by
  obtain ⟨hlow, hhigh⟩ := quotient_bounds ha hb
  have htest := le_scaled_iff a ((a.log2 : ℤ) - b.log2 - 53) hb
  unfold exponentFor
  dsimp only
  generalize hg : (a.log2 : ℤ) - b.log2 - 53 = guess at htest ⊢
  rw [show (a.log2 : ℤ) - b.log2 - 1 = guess + 52 by omega] at hlow
  rw [show (a.log2 : ℤ) - b.log2 + 1 = guess + 54 by omega] at hhigh
  -- the exact exponent, before it is kept from falling below the least one
  obtain ⟨exact, hexact, hlt, hle⟩ : ∃ exact : ℤ,
      (if Nat.pow 2 53 ≤ (scaleFraction a b guess).1 / (scaleFraction a b guess).2
        then guess + 1 else guess) = exact ∧
      (a : ℚ) / b < 2 ^ (exact + 53) ∧ (2 : ℚ) ^ (exact + 52) ≤ a / b := by
    by_cases h : (2 : ℚ) ^ (guess + 53) ≤ a / b
    · refine ⟨guess + 1, if_pos (htest.mpr h), ?_, ?_⟩
      · rwa [show guess + 1 + 53 = guess + 54 by ring]
      · rwa [show guess + 1 + 52 = guess + 53 by ring]
    · exact ⟨guess, if_neg (mt htest.mp h), not_le.mp h, hlow.le⟩
  rw [hexact]
  rcases le_total leastExponent exact with h | h
  · rw [max_eq_left h]
    exact ⟨h, hlt, .inl hle⟩
  · rw [max_eq_right h]
    exact ⟨le_rfl, hlt.trans_le (two_zpow_le (by omega)), .inr rfl⟩

/-! ## Fractions -/

/-- What every double that was read satisfies: 53 bits of mantissa, all of them in use unless the
exponent is the least one. -/
structure Canonical (x : Double) : Prop where
  mantissa_lt : x.mantissa < 2 ^ 53
  least_le : leastExponent ≤ x.exponent
  le_greatest : x.exponent ≤ greatestExponent
  normal : 2 ^ 52 ≤ x.mantissa ∨ x.exponent = leastExponent

theorem canonical_zero (negative : Bool) : (zero negative).Canonical :=
  ⟨by simp [zero], le_rfl, (by decide : leastExponent ≤ greatestExponent), .inr rfl⟩

/-- Rounding at the right exponent leaves a full mantissa, or one bit more than that, which is then
a power of two. -/
theorem mantissa_bounds {v : ℚ} {e : ℤ} {m : ℕ} (hv : FitsAt v e) (hm : Nearest (v / 2 ^ e) m) :
    m ≤ 2 ^ 53 ∧ (2 ^ 52 ≤ m ∨ e = leastExponent) := by
  have he := two_zpow_pos e
  constructor
  · have hlt : v / 2 ^ e < 2 ^ 53 := by
      rw [div_lt_iff₀ he, mul_comm]
      exact_mod_cast two_zpow_add e 53 ▸ hv.lt
    have hm' : (m : ℚ) < 2 ^ 53 + 1 := by linarith [hm.low]
    have : m < 2 ^ 53 + 1 := by exact_mod_cast hm'
    omega
  · rcases hv.le with hle | h
    · left
      have hle' : (2 : ℚ) ^ 52 ≤ v / 2 ^ e := by
        rw [le_div_iff₀ he, mul_comm]
        exact_mod_cast two_zpow_add e 52 ▸ hle
      have hm' : (2 : ℚ) ^ 52 < m + 1 := by linarith [hm.high]
      have : 2 ^ 52 < m + 1 := by exact_mod_cast hm'
      omega
    · exact .inr h

/-- The rounded mantissa, its exponent, and what is made of them. -/
theorem ofFraction?_parts (negative : Bool) {a b : ℕ} (ha : 0 < a) (hb : 0 < b) :
    ∃ (m : ℕ) (e : ℤ), FitsAt (a / b) e ∧ Nearest (a / b / 2 ^ e) m ∧
      ofFraction? negative a b =
        if m = 2 ^ 53 then
          if greatestExponent < e + 1 then none else some ⟨negative, 2 ^ 52, e + 1⟩
        else if greatestExponent < e then none
        else if m = 0 then some (zero negative) else some ⟨negative, m, e⟩ := by
  refine ⟨roundDiv (scaleFraction a b (exponentFor a b)).1 (scaleFraction a b (exponentFor a b)).2,
    exponentFor a b, exponentFor_fits ha hb, ?_, ?_⟩
  · rw [← scaleFraction_eq]
    exact roundDiv_nearest _ (scaleFraction_pos a _ hb)
  · unfold ofFraction?
    simp only [Nat.pow_eq]
    split
    · rw [if_neg (by norm_num : ¬ 2 ^ 52 = 0)]
    · rfl

theorem canonical_of_ofFraction? {negative : Bool} {a b : ℕ} {x : Double} (ha : 0 < a) (hb : 0 < b)
    (h : ofFraction? negative a b = some x) : x.Canonical := by
  obtain ⟨m, e, hfits, hnear, heq⟩ := ofFraction?_parts negative ha hb
  obtain ⟨hle, hnormal⟩ := mantissa_bounds hfits hnear
  have hleast := hfits.least_le
  rw [heq] at h
  split at h
  · split at h
    · cases h
    case isFalse hge =>
      cases h
      exact ⟨by norm_num, by dsimp only; omega, not_lt.mp hge, .inl le_rfl⟩
  case isFalse hne =>
    split at h
    · cases h
    case isFalse hge =>
      split at h
      · cases h
        exact canonical_zero negative
      · cases h
        exact ⟨lt_of_le_of_ne hle hne, hleast, not_lt.mp hge, hnormal⟩

/-! ## The numbers that round to a double -/

/-- How far below a mantissa the numbers begin that round to it. Below a power of two the doubles
are twice as close. -/
def reach (x : Double) : ℚ :=
  if x.mantissa = 2 ^ 52 ∧ leastExponent < x.exponent then 1 / 4 else 1 / 2

/-- The numbers that round to the magnitude of a double; the ends are among them when the mantissa
is even. -/
structure Takes (x : Double) (v : ℚ) : Prop where
  low : (x.mantissa - x.reach) * 2 ^ x.exponent ≤ v
  high : v ≤ (x.mantissa + 1 / 2) * 2 ^ x.exponent
  tie : x.mantissa % 2 = 1 →
    (x.mantissa - x.reach) * 2 ^ x.exponent < v ∧ v < (x.mantissa + 1 / 2) * 2 ^ x.exponent

theorem reach_le (x : Double) : x.reach ≤ 1 / 2 := by
  unfold reach
  split <;> norm_num

/-- At the exponent of the double itself, the numbers it takes round to its mantissa. -/
theorem Takes.nearest {x : Double} {v : ℚ} (h : x.Takes v) :
    Nearest (v / 2 ^ x.exponent) x.mantissa := by
  have he := two_zpow_pos x.exponent
  have hreach := x.reach_le
  refine ⟨?_, ?_, fun hodd => ⟨?_, ?_⟩⟩
  · have := (le_div_iff₀ he).mpr h.low
    linarith
  · exact (div_le_iff₀ he).mpr h.high
  · have := (lt_div_iff₀ he).mpr (h.tie hodd).1
    linarith
  · exact (div_lt_iff₀ he).mpr (h.tie hodd).2

/-- A number that a double takes has its 53 bits at the double's exponent, unless it lies just below
a power of two, on the finer grid. -/
theorem Takes.fits {x : Double} {v : ℚ} (hx : x.Canonical) (h : x.Takes v) :
    FitsAt v x.exponent ∨
      (x.mantissa = 2 ^ 52 ∧ FitsAt v (x.exponent - 1) ∧
        Nearest (v / 2 ^ (x.exponent - 1)) (2 ^ 53)) := by
  have he := two_zpow_pos x.exponent
  have hmant : (x.mantissa : ℚ) + 1 ≤ 2 ^ 53 := by exact_mod_cast hx.mantissa_lt
  have hlt : v < 2 ^ (x.exponent + 53) := by
    calc v ≤ (x.mantissa + 1 / 2) * 2 ^ x.exponent := h.high
      _ < 2 ^ 53 * 2 ^ x.exponent := mul_lt_mul_of_pos_right (by linarith) he
      _ = 2 ^ (x.exponent + 53) := by rw [two_zpow_add, mul_comm]; norm_cast
  by_cases hle : 2 ^ (x.exponent + 52) ≤ v ∨ x.exponent = leastExponent
  · exact .inl ⟨hx.least_le, hlt, hle⟩
  right
  obtain ⟨hsmall, hleast⟩ := not_or.mp hle
  have hsmall : v < 2 ^ 52 * 2 ^ x.exponent := by
    rw [two_zpow_add, mul_comm] at hsmall
    exact_mod_cast not_le.mp hsmall
  have hgt : leastExponent < x.exponent := lt_of_le_of_ne hx.least_le (Ne.symm hleast)
  have hnormal : 2 ^ 52 ≤ x.mantissa := hx.normal.resolve_right hleast
  -- with a larger mantissa the number would not have come below the power of two
  have hmantissa : x.mantissa = 2 ^ 52 := by
    by_contra hne
    have hlarger : 2 ^ 52 + 1 ≤ x.mantissa := by omega
    have hlarger : (2 : ℚ) ^ 52 + 1 ≤ x.mantissa := by exact_mod_cast hlarger
    have hlow : (x.mantissa : ℚ) - x.reach < 2 ^ 52 :=
      lt_of_mul_lt_mul_right (h.low.trans_lt hsmall) he.le
    linarith [x.reach_le]
  have hreach : x.reach = 1 / 4 := if_pos ⟨hmantissa, hgt⟩
  have hhalf : (2 : ℚ) ^ x.exponent = 2 * 2 ^ (x.exponent - 1) := by
    conv_lhs => rw [show x.exponent = 1 + (x.exponent - 1) by ring, two_zpow_add, zpow_one]
  have he' := two_zpow_pos (x.exponent - 1)
  have hlow : (2 ^ 53 - 1 / 2) * 2 ^ (x.exponent - 1) ≤ v := by
    have := h.low
    rw [hreach, hmantissa, hhalf] at this
    push_cast at this
    linarith
  rw [hhalf] at hsmall
  refine ⟨hmantissa, ⟨by omega, ?_, .inl ?_⟩, ⟨?_, ?_, fun hodd => by norm_num at hodd⟩⟩
  · rw [two_zpow_add]
    norm_cast
    push_cast
    linarith
  · rw [two_zpow_add]
    norm_cast
    push_cast
    linarith
  · rw [le_div_iff₀ he']
    push_cast
    exact hlow
  · rw [div_le_iff₀ he']
    push_cast
    linarith

theorem ofFraction?_of_takes {x : Double} {a b : ℕ} (hx : x.Canonical) (hm : x.mantissa ≠ 0)
    (ha : 0 < a) (hb : 0 < b) (h : x.Takes (a / b)) : ofFraction? x.negative a b = some x := by
  obtain ⟨m, e, hfits, hnear, heq⟩ := ofFraction?_parts x.negative ha hb
  rw [heq]
  rcases h.fits hx with hfits' | ⟨hmantissa, hfits', hnear'⟩
  · obtain rfl := hfits.unique hfits'
    obtain rfl := hnear.unique h.nearest
    rw [if_neg hx.mantissa_lt.ne, if_neg (not_lt.mpr hx.le_greatest), if_neg hm]
  · obtain rfl := hfits.unique hfits'
    obtain rfl := hnear.unique hnear'
    rw [if_pos rfl, if_neg (by simpa using hx.le_greatest), ← hmantissa]
    simp

/-! ## Decimals -/

theorem lt_pow_digitCount (n : ℕ) : n < 10 ^ digitCount n :=
  (Nat.length_toDigits_le_iff (by decide) Nat.length_toDigits_pos).mp le_rfl

theorem pow_le_of_lt_digitCount {n k : ℕ} (hn : 0 < n) (h : k < digitCount n) : 10 ^ k ≤ n := by
  by_contra hlt
  rcases Nat.eq_zero_or_pos k with rfl | hk
  · simp at hlt
    omega
  · have := (Nat.length_toDigits_le_iff (by decide) hk).mpr (not_le.mp hlt)
    unfold digitCount at h
    omega

theorem canonical_of_ofDecimal? {negative : Bool} {digits : ℕ} {exponent : ℤ} {x : Double}
    (h : ofDecimal? negative digits exponent = some x) : x.Canonical := by
  unfold ofDecimal? at h
  split at h
  · cases h
    exact canonical_zero negative
  case isFalse hdigits =>
    have hdigits := Nat.pos_of_ne_zero hdigits
    dsimp only at h
    split at h
    · cases h
    split at h
    · cases h
      exact canonical_zero negative
    split at h
    · exact canonical_of_ofFraction? hdigits (Nat.pow_pos (by decide)) h
    · exact canonical_of_ofFraction? (Nat.mul_pos hdigits (Nat.pow_pos (by decide))) one_pos h

theorem ten_zpow_pos (e : ℤ) : (0 : ℚ) < 10 ^ e := zpow_pos (by norm_num) e

theorem ten_zpow_lt_iff {d e : ℤ} : (10 : ℚ) ^ d < 10 ^ e ↔ d < e :=
  zpow_lt_zpow_iff_right₀ (by norm_num)

theorem ten_zpow_add (d e : ℤ) : (10 : ℚ) ^ (d + e) = 10 ^ d * 10 ^ e :=
  zpow_add₀ (by norm_num) d e

/-- The count of its digits says between which powers of ten a decimal lies. -/
theorem decimal_bounds {digits : ℕ} (exponent : ℤ) (hdigits : 0 < digits) :
    (10 : ℚ) ^ (digitCount digits + exponent - 1) ≤ digits * 10 ^ exponent ∧
      (digits : ℚ) * 10 ^ exponent < 10 ^ (digitCount digits + exponent) := by
  have hpos := ten_zpow_pos exponent
  have hcount : 0 < digitCount digits := Nat.length_toDigits_pos
  constructor
  · have hle : (10 : ℚ) ^ ((digitCount digits : ℤ) - 1) ≤ digits := by
      rw [show (digitCount digits : ℤ) - 1 = (digitCount digits - 1 : ℕ) by omega, zpow_natCast]
      exact_mod_cast pow_le_of_lt_digitCount hdigits (by omega)
    rw [show digitCount digits + exponent - 1 = (digitCount digits : ℤ) - 1 + exponent by ring,
      ten_zpow_add]
    exact mul_le_mul_of_nonneg_right hle hpos.le
  · have hlt : (digits : ℚ) < 10 ^ (digitCount digits : ℤ) := by
      rw [zpow_natCast]
      exact_mod_cast lt_pow_digitCount digits
    rw [ten_zpow_add]
    exact mul_lt_mul_of_pos_right hlt hpos

/-- Powers of naturals compare as rationals do. The large powers below are compared as naturals. -/
theorem cast_pow_lt {a b m n : ℕ} (h : a ^ m < b ^ n) : (a : ℚ) ^ (m : ℤ) < (b : ℚ) ^ (n : ℤ) := by
  rw [zpow_natCast, zpow_natCast]
  exact_mod_cast h

/-- No double takes a number of more than 309 digits before the point. -/
theorem Takes.lt_of_canonical {x : Double} {v : ℚ} (hx : x.Canonical) (h : x.Takes v) :
    v < 10 ^ (309 : ℤ) := by
  have hmant : (x.mantissa : ℚ) + 1 ≤ 2 ^ 53 := by exact_mod_cast hx.mantissa_lt
  calc v ≤ (x.mantissa + 1 / 2) * 2 ^ x.exponent := h.high
    _ ≤ 2 ^ 53 * 2 ^ (971 : ℤ) :=
        mul_le_mul (by linarith) (two_zpow_le hx.le_greatest) (two_zpow_pos _).le (by positivity)
    _ = 2 ^ (1024 : ℤ) := by rw [show (1024 : ℤ) = 53 + 971 by norm_num, two_zpow_add]; rfl
    _ < 10 ^ (309 : ℤ) := by
        simpa only [Nat.cast_ofNat] using cast_pow_lt (by decide +kernel : 2 ^ 1024 < 10 ^ 309)

/-- No double but zero takes a number with more than 330 zeros after the point. -/
theorem Takes.gt_of_canonical {x : Double} {v : ℚ} (hx : x.Canonical) (hm : x.mantissa ≠ 0)
    (h : x.Takes v) : 10 ^ (-330 : ℤ) < v := by
  have hmant : (1 : ℚ) ≤ x.mantissa := by exact_mod_cast Nat.pos_of_ne_zero hm
  have hpow : (2 : ℚ) ^ (1075 : ℤ) < 10 ^ (330 : ℤ) := by
    simpa only [Nat.cast_ofNat] using cast_pow_lt (by decide +kernel : 2 ^ 1075 < 10 ^ 330)
  calc (10 : ℚ) ^ (-330 : ℤ) < 2 ^ (-1075 : ℤ) := by
        rw [zpow_neg, zpow_neg]
        exact inv_strictAnti₀ (two_zpow_pos _) hpow
    _ = 1 / 2 * 2 ^ (-1074 : ℤ) := by
        rw [show (-1075 : ℤ) = -1 + -1074 by norm_num, two_zpow_add, zpow_neg_one, one_div]
    _ ≤ (x.mantissa - x.reach) * 2 ^ x.exponent :=
        mul_le_mul (by linarith [x.reach_le]) (two_zpow_le hx.least_le) (two_zpow_pos _).le
          (by linarith [x.reach_le])
    _ ≤ v := h.low

/-- Every decimal that a double takes is read as this double. -/
theorem ofDecimal?_of_takes {x : Double} {digits : ℕ} {exponent : ℤ} (hx : x.Canonical)
    (hm : x.mantissa ≠ 0) (hdigits : 0 < digits) (h : x.Takes (digits * 10 ^ exponent)) :
    ofDecimal? x.negative digits exponent = some x := by
  obtain ⟨hlow, hhigh⟩ := decimal_bounds exponent hdigits
  have hsmall := ten_zpow_lt_iff.mp (hlow.trans_lt (h.lt_of_canonical hx))
  have hlarge := ten_zpow_lt_iff.mp ((h.gt_of_canonical hx hm).trans hhigh)
  unfold ofDecimal?
  dsimp only
  rw [if_neg hdigits.ne', if_neg (by omega), if_neg (by omega)]
  split
  case isTrue hneg =>
    refine ofFraction?_of_takes hx hm hdigits (Nat.pow_pos (by decide)) ?_
    have he : exponent = -((-exponent).toNat : ℤ) := by omega
    rw [he, zpow_neg, zpow_natCast] at h
    simpa [div_eq_mul_inv] using h
  case isFalse hnonneg =>
    refine ofFraction?_of_takes hx hm (Nat.mul_pos hdigits (Nat.pow_pos (by decide))) one_pos ?_
    have he : exponent = (exponent.toNat : ℤ) := by omega
    rw [he, zpow_natCast] at h
    simpa using h

end Double

end ClientGen
