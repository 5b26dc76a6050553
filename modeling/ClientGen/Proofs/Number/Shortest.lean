import ClientGen.Number.Shortest
import ClientGen.Proofs.Number.Rounding

/-!
# The shortest decimal of a double is read as that double

* `Interval.holds_iff`: the integer test says whether a decimal rounds to the double.
* `Interval.search_holds`: the search ends with a decimal that passes the test, provided that one of
  the grids is finer than half the distance between two doubles.
* `shortest_takes`: the last grid is fine enough for every double, so what `shortest` finds is one
  of the numbers that the double takes.
-/

namespace ClientGen

namespace Double

/-! ## The interval -/

/-- The double over the common denominator, and its distance to the ends of the interval. -/
theorem interval_parts (m : ℕ) (q : ℤ) : ∃ up den : ℕ, 0 < den ∧ (up : ℚ) / den = 2 ^ q / 4 ∧
    interval m q = ⟨(4 * m - if m = 2 ^ 52 ∧ leastExponent < q then 1 else 2) * up, 4 * m * up,
      (4 * m + 2) * up, den, m % 2 = 0⟩ := by
  by_cases hq : q < 0
  · refine ⟨1, 4 * 2 ^ (-q).toNat, by positivity, ?_, ?_⟩
    · have he : q = -((-q).toNat : ℤ) := by omega
      conv_rhs => rw [he, zpow_neg, zpow_natCast]
      push_cast
      field_simp
    · simp [interval, hq]
  · refine ⟨2 ^ q.toNat, 4, by norm_num, ?_, ?_⟩
    · have he : q = (q.toNat : ℤ) := by omega
      conv_rhs => rw [he, zpow_natCast]
      push_cast
      rfl
    · simp [interval, hq]

variable {x : Double}

/-- The interval of a double, in rationals. -/
structure Interval.Of (i : Interval) (x : Double) : Prop where
  den_pos : 0 < i.den
  low : (i.low : ℚ) / i.den = (x.mantissa - x.reach) * 2 ^ x.exponent
  mid : (i.mid : ℚ) / i.den = x.mantissa * 2 ^ x.exponent
  high : (i.high : ℚ) / i.den = (x.mantissa + 1 / 2) * 2 ^ x.exponent
  closed : i.closed = true ↔ x.mantissa % 2 = 0

theorem interval_of (hm : x.mantissa ≠ 0) : (interval x.mantissa x.exponent).Of x := by
  obtain ⟨up, den, hden, hup, heq⟩ := interval_parts x.mantissa x.exponent
  rw [heq]
  refine ⟨hden, ?_, ?_, ?_, by simp⟩
  · have hreach : ((4 * x.mantissa -
        if x.mantissa = 2 ^ 52 ∧ leastExponent < x.exponent then 1 else 2 : ℕ) : ℚ) =
          4 * (x.mantissa - x.reach) := by
      unfold reach
      split
      · rw [Nat.cast_sub (by omega)]
        push_cast
        ring
      · rw [Nat.cast_sub (by omega)]
        push_cast
        ring
    rw [Nat.cast_mul, hreach, mul_div_assoc, hup]
    ring
  · push_cast
    rw [mul_div_assoc, hup]
    ring
  · push_cast
    rw [mul_div_assoc, hup]
    ring

theorem Interval.holds_parts (i : Interval) (n : ℕ) (p : ℤ) : ∃ a b : ℕ, 0 < b ∧
    (a : ℚ) / b = n * 10 ^ p * i.den ∧
    i.holds n p =
      if i.closed then i.low * b ≤ a && a ≤ i.high * b else i.low * b < a && a < i.high * b := by
  by_cases hp : p < 0
  · refine ⟨n * i.den, 10 ^ (-p).toNat, by positivity, ?_, by simp [holds, hp]⟩
    have he : p = -((-p).toNat : ℤ) := by omega
    conv_rhs => rw [he, zpow_neg, zpow_natCast]
    push_cast
    field_simp
  · refine ⟨n * 10 ^ p.toNat * i.den, 1, one_pos, ?_, by simp [holds, hp]⟩
    have he : p = (p.toNat : ℤ) := by omega
    conv_rhs => rw [he, zpow_natCast]
    push_cast
    ring

/-- The integer test for a decimal says whether it rounds to the double. -/
theorem Interval.holds_iff {i : Interval} (hi : i.Of x) (n : ℕ) (p : ℤ) :
    i.holds n p = true ↔ x.Takes (n * 10 ^ p) := by
  obtain ⟨a, b, hb, hab, heq⟩ := i.holds_parts n p
  have hb' : (0 : ℚ) < b := by exact_mod_cast hb
  have hden : (0 : ℚ) < i.den := by exact_mod_cast hi.den_pos
  have hlow : i.low * b ≤ a ↔ (x.mantissa - x.reach) * 2 ^ x.exponent ≤ n * 10 ^ p := by
    rw [← hi.low, div_le_iff₀ hden, ← hab, le_div_iff₀ hb']
    exact_mod_cast Iff.rfl
  have hlow' : i.low * b < a ↔ (x.mantissa - x.reach) * 2 ^ x.exponent < n * 10 ^ p := by
    rw [← hi.low, div_lt_iff₀ hden, ← hab, lt_div_iff₀ hb']
    exact_mod_cast Iff.rfl
  have hhigh : a ≤ i.high * b ↔ (n : ℚ) * 10 ^ p ≤ (x.mantissa + 1 / 2) * 2 ^ x.exponent := by
    rw [← hi.high, le_div_iff₀ hden, ← hab, div_le_iff₀ hb']
    exact_mod_cast Iff.rfl
  have hhigh' : a < i.high * b ↔ (n : ℚ) * 10 ^ p < (x.mantissa + 1 / 2) * 2 ^ x.exponent := by
    rw [← hi.high, lt_div_iff₀ hden, ← hab, div_lt_iff₀ hb']
    exact_mod_cast Iff.rfl
  rw [heq]
  split
  case isTrue hclosed =>
    have heven := hi.closed.mp hclosed
    simp only [Bool.and_eq_true, decide_eq_true_eq, hlow, hhigh]
    exact ⟨fun h => ⟨h.1, h.2, fun hodd => by omega⟩, fun h => ⟨h.low, h.high⟩⟩
  case isFalse hopen =>
    have hodd : x.mantissa % 2 = 1 := by
      have := mt hi.closed.mpr hopen
      omega
    simp only [Bool.and_eq_true, decide_eq_true_eq, hlow', hhigh']
    exact ⟨fun h => ⟨h.1.le, h.2.le, fun _ => h⟩, fun h => h.tie hodd⟩

theorem Interval.steps_parts (i : Interval) (p : ℤ) (hden : 0 < i.den) : ∃ a b : ℕ, 0 < b ∧
    (a : ℚ) / b = i.mid / i.den / 10 ^ p ∧ (i.steps p).1 = a / b := by
  by_cases hp : p < 0
  · refine ⟨i.mid * 10 ^ (-p).toNat, i.den, hden, ?_, by simp [steps, hp]⟩
    have he : p = -((-p).toNat : ℤ) := by omega
    conv_rhs => rw [he, zpow_neg, zpow_natCast, div_inv_eq_mul]
    push_cast
    ring
  · refine ⟨i.mid, i.den * 10 ^ p.toNat, by positivity, ?_, by simp [steps, hp]⟩
    have he : p = (p.toNat : ℤ) := by omega
    conv_rhs => rw [he, zpow_natCast, div_div]
    push_cast
    rfl

/-- The double lies between two neighbours on every grid. -/
theorem Interval.steps_bounds {i : Interval} (hi : i.Of x) (p : ℤ) :
    (x.mantissa : ℚ) * 2 ^ x.exponent < ((i.steps p).1 + 1 : ℕ) * 10 ^ p ∧
      ((i.steps p).1 + 1 : ℕ) * 10 ^ p ≤ (x.mantissa : ℚ) * 2 ^ x.exponent + 10 ^ p := by
  obtain ⟨a, b, hb, hab, heq⟩ := i.steps_parts p hi.den_pos
  have hb' : (0 : ℚ) < b := by exact_mod_cast hb
  have hp := ten_zpow_pos p
  have hlow : ((a / b : ℕ) : ℚ) ≤ a / b := by
    rw [le_div_iff₀ hb']
    exact_mod_cast Nat.div_mul_le_self a b
  have hhigh : (a : ℚ) / b < (a / b : ℕ) + 1 := by
    rw [div_lt_iff₀ hb', mul_comm]
    exact_mod_cast Nat.lt_mul_div_succ a hb
  rw [hab, hi.mid] at hlow hhigh
  rw [le_div_iff₀ hp] at hlow
  rw [div_lt_iff₀ hp] at hhigh
  rw [heq, Nat.cast_succ]
  exact ⟨hhigh, by linarith⟩

/-! ## The search -/

/-- What is found on a grid passes the test. -/
theorem Interval.holds_of_onGrid {i : Interval} {tie : TieRule} {p : ℤ} {d : Decimal}
    (h : i.onGrid tie p = some d) : 0 < d.digits ∧ i.holds d.digits d.exponent = true := by
  unfold onGrid at h
  dsimp only at h
  generalize (i.steps p).1 = n at h
  -- either neighbour is only taken where its own test was passed
  have lower (hn : (i.holds n p && n != 0) = true) : 0 < n ∧ i.holds n p = true := by
    rw [Bool.and_eq_true, bne_iff_ne] at hn
    exact ⟨Nat.pos_of_ne_zero hn.2, hn.1⟩
  split at h
  · cases h
  case h_2 hn _ =>
    cases h
    exact lower hn
  case h_3 _ hsucc =>
    cases h
    exact ⟨n.succ_pos, hsucc⟩
  case h_4 hn hsucc =>
    split at h
    · cases h
      exact lower hn
    · cases h
      exact ⟨n.succ_pos, hsucc⟩
    · split at h
      · cases h
        exact ⟨n.succ_pos, hsucc⟩
      · obtain rfl := Option.some.inj h
        split
        · exact lower hn
        · exact ⟨n.succ_pos, hsucc⟩

/-- A grid whose upper neighbour passes the test is not left. -/
theorem Interval.onGrid_ne_none {i : Interval} (tie : TieRule) {p : ℤ}
    (h : i.holds ((i.steps p).1 + 1) p = true) : i.onGrid tie p ≠ none := by
  unfold onGrid
  dsimp only
  rw [h]
  split
  case h_1 _ hfalse => cases hfalse
  case h_2 => simp
  case h_3 => simp
  case h_4 => split <;> [simp; simp; (split <;> simp)]

/-- The search finds a decimal that passes the test if one of its grids has one. -/
theorem Interval.search_holds {i : Interval} (tie : TieRule) {k fuel : ℕ} {p : ℤ} (hk : k < fuel)
    (h : i.holds ((i.steps (p - k)).1 + 1) (p - k) = true) :
    0 < (i.search tie fuel p).digits ∧
      i.holds (i.search tie fuel p).digits (i.search tie fuel p).exponent = true := by
  induction fuel generalizing k p with
  | zero => omega
  | succ fuel ih =>
    rw [search]
    split
    case h_1 d hd => exact holds_of_onGrid hd
    case h_2 hnone =>
      obtain _ | k := k
      · exact absurd hnone (onGrid_ne_none tie (by simpa using h))
      · refine ih (k := k) (by omega) ?_
        rwa [show p - 1 - (k : ℤ) = p - (k + 1 : ℕ) by push_cast; ring]

theorem trimZeros_eq (fuel : ℕ) {digits : ℕ} (exponent : ℤ) (hdigits : 0 < digits) :
    0 < (trimZeros fuel digits exponent).digits ∧
      ((trimZeros fuel digits exponent).digits : ℚ) *
        10 ^ (trimZeros fuel digits exponent).exponent = digits * 10 ^ exponent := by
  induction fuel generalizing digits exponent with
  | zero => exact ⟨hdigits, rfl⟩
  | succ fuel ih =>
    rw [trimZeros]
    split
    case isTrue h =>
      obtain ⟨hpos, heq⟩ := ih (exponent + 1) (by omega : 0 < digits / 10)
      have hten : digits = digits / 10 * 10 := by omega
      refine ⟨hpos, heq.trans ?_⟩
      conv_rhs => rw [hten]
      rw [ten_zpow_add]
      push_cast
      ring
    case isFalse => exact ⟨hdigits, rfl⟩

/-! ## The last grid -/

/-- A decimal just above the double rounds to it when the step is below half the distance to the
next double. -/
theorem takes_of_gt {v : ℚ} (hlow : x.mantissa * 2 ^ x.exponent < v)
    (hhigh : v < (x.mantissa + 1 / 2) * 2 ^ x.exponent) : x.Takes v := by
  have hreach : (x.mantissa - x.reach) * 2 ^ x.exponent < v := by
    have hpos : 0 < x.reach := by
      unfold reach
      split <;> norm_num
    have := mul_pos hpos (two_zpow_pos x.exponent)
    linarith
  exact ⟨hreach.le, hhigh.le, fun _ => ⟨hreach, hhigh⟩⟩

/-- A slope that turns places in one base into places in another. -/
theorem pow_le_pow_of_slope {a b s t : ℕ} (ht : 0 < t) (hb : 0 < b) (hslope : a ^ t ≤ b ^ s)
    (k : ℕ) : a ^ k ≤ b ^ (k * s / t + 1) := by
  refine (Nat.pow_le_pow_iff_left ht.ne').mp ?_
  calc (a ^ k) ^ t = (a ^ t) ^ k := Nat.pow_right_comm ..
    _ ≤ (b ^ s) ^ k := Nat.pow_le_pow_left hslope k
    _ = b ^ (s * k) := (Nat.pow_mul ..).symm
    _ ≤ b ^ ((k * s / t + 1) * t) := by
        refine Nat.pow_le_pow_right hb ?_
        rw [Nat.mul_comm s k]
        exact (Nat.lt_div_mul_add ht).le.trans (by rw [Nat.add_one_mul])
    _ = (b ^ (k * s / t + 1)) ^ t := Nat.pow_mul ..

/-- The grid on which the search for the shortest decimal begins. -/
def Interval.firstGrid (i : Interval) : ℤ :=
  if i.mid / i.den = 0 then -(((i.den / i.mid).log2 : ℤ) * 30103 / 100000) + 1
  else digitCount (i.mid / i.den)

theorem shortest_eq (x : Double) (tie : TieRule) :
    x.shortest tie =
      let i := interval x.mantissa x.exponent
      let d := i.search tie 22 i.firstGrid
      trimZeros 400 d.digits d.exponent := rfl

theorem Interval.Of.mid_lt {i : Interval} (hi : i.Of x) (hx : x.Canonical) :
    (i.mid : ℚ) / i.den < 2 ^ 53 * 2 ^ x.exponent := by
  rw [hi.mid]
  exact mul_lt_mul_of_pos_right (by exact_mod_cast hx.mantissa_lt) (two_zpow_pos x.exponent)

theorem Interval.Of.mid_pos {i : Interval} (hi : i.Of x) (hm : x.mantissa ≠ 0) : 0 < i.mid := by
  have hpos : 0 < (x.mantissa : ℚ) * 2 ^ x.exponent :=
    mul_pos (by exact_mod_cast Nat.pos_of_ne_zero hm) (two_zpow_pos x.exponent)
  rw [← hi.mid] at hpos
  refine Nat.pos_of_ne_zero fun h => hpos.ne' ?_
  rw [h, Nat.cast_zero, zero_div]

/-- From 1 on, the first grid has as many digits as the double before the point, and its mantissa
has no more than 16. -/
theorem step_lt_of_whole {i : Interval} (hx : x.Canonical) (hi : i.Of x)
    (hwhole : i.mid / i.den ≠ 0) :
    (10 : ℚ) ^ ((digitCount (i.mid / i.den) : ℤ) - 21) < 1 / 2 * 2 ^ x.exponent := by
  have hden : (0 : ℚ) < i.den := by exact_mod_cast hi.den_pos
  have hcount : (10 : ℚ) ^ ((digitCount (i.mid / i.den) : ℤ) - 1) ≤ (i.mid / i.den : ℕ) := by
    simpa using (decimal_bounds 0 (Nat.pos_of_ne_zero hwhole)).1
  have hfloor : ((i.mid / i.den : ℕ) : ℚ) ≤ i.mid / i.den := by
    rw [le_div_iff₀ hden]
    exact_mod_cast Nat.div_mul_le_self i.mid i.den
  calc (10 : ℚ) ^ ((digitCount (i.mid / i.den) : ℤ) - 21)
      = 10 ^ ((digitCount (i.mid / i.den) : ℤ) - 1) * 10 ^ (-20 : ℤ) := by
        rw [← ten_zpow_add]
        congr 1
        ring
    _ < 2 ^ 53 * 2 ^ x.exponent * 10 ^ (-20 : ℤ) :=
        mul_lt_mul_of_pos_right ((hcount.trans hfloor).trans_lt (hi.mid_lt hx)) (ten_zpow_pos _)
    _ = 2 ^ 53 * 10 ^ (-20 : ℤ) * 2 ^ x.exponent := by ring
    _ ≤ 1 / 2 * 2 ^ x.exponent :=
        mul_le_mul_of_nonneg_right (by norm_num) (two_zpow_pos x.exponent).le

/-- Below 1, the binary zeros after the point are turned into decimal ones, which loses one digit at
most. -/
theorem step_lt_of_fraction {i : Interval} (hx : x.Canonical) (hm : x.mantissa ≠ 0) (hi : i.Of x) :
    (10 : ℚ) ^ (-(((i.den / i.mid).log2 : ℤ) * 30103 / 100000) + 1 - 21) <
      1 / 2 * 2 ^ x.exponent := by
  have hden : (0 : ℚ) < i.den := by exact_mod_cast hi.den_pos
  have hmid := hi.mid_pos hm
  have he := two_zpow_pos x.exponent
  generalize hzeros : (i.den / i.mid).log2 = zeros
  have hvalue : 1 < 2 ^ (zeros + 1) * ((i.mid : ℚ) / i.den) := by
    have hlog : i.den / i.mid < 2 ^ (zeros + 1) := hzeros ▸ Nat.lt_log2_self
    rw [← mul_div_assoc, one_lt_div hden]
    exact_mod_cast (Nat.div_lt_iff_lt_mul hmid).mp hlog
  have hslope : (2 : ℚ) ^ zeros ≤ 10 ^ (zeros * 30103 / 100000 + 1) := by
    exact_mod_cast pow_le_pow_of_slope (by decide) (by decide)
      (by decide +kernel : 2 ^ 100000 ≤ 10 ^ 30103) zeros
  rw [show -((zeros : ℤ) * 30103 / 100000) + 1 - 21 =
    -((zeros * 30103 / 100000 + 1 + 19 : ℕ) : ℤ) by push_cast; ring, zpow_neg, zpow_natCast]
  generalize zeros * 30103 / 100000 + 1 = places at hslope
  rw [inv_lt_iff_one_lt_mul₀ (by positivity)]
  calc (1 : ℚ) < 2 ^ (zeros + 1) * (i.mid / i.den) := hvalue
    _ < 2 ^ (zeros + 1) * (2 ^ 53 * 2 ^ x.exponent) :=
        mul_lt_mul_of_pos_left (hi.mid_lt hx) (by positivity)
    _ = 2 ^ zeros * (2 ^ 54 * 2 ^ x.exponent) := by ring
    _ ≤ 10 ^ places * (1 / 2 * 10 ^ 19 * 2 ^ x.exponent) := by
        refine mul_le_mul hslope ?_ (by positivity) (by positivity)
        exact mul_le_mul_of_nonneg_right (by norm_num) he.le
    _ = 1 / 2 * 2 ^ x.exponent * 10 ^ (places + 19) := by ring

/-- Twenty-one grids on, the steps are below half the distance between two doubles. -/
theorem step_lt {i : Interval} (hx : x.Canonical) (hm : x.mantissa ≠ 0) (hi : i.Of x) :
    (10 : ℚ) ^ (i.firstGrid - 21) < 1 / 2 * 2 ^ x.exponent := by
  unfold Interval.firstGrid
  split
  case isTrue => exact step_lt_of_fraction hx hm hi
  case isFalse hwhole => exact step_lt_of_whole hx hi hwhole

/-- The shortest decimal of a double rounds to the double. -/
theorem shortest_takes (hx : x.Canonical) (hm : x.mantissa ≠ 0) (tie : TieRule) :
    0 < (x.shortest tie).digits ∧
      x.Takes ((x.shortest tie).digits * 10 ^ (x.shortest tie).exponent) := by
  have hi := interval_of hm
  rw [shortest_eq]
  dsimp only
  generalize interval x.mantissa x.exponent = i at hi
  obtain ⟨hlow, hhigh⟩ := Interval.steps_bounds hi (i.firstGrid - (21 : ℕ))
  have hstep := step_lt hx hm hi
  have hlast : i.holds ((i.steps (i.firstGrid - (21 : ℕ))).1 + 1) (i.firstGrid - (21 : ℕ)) = true :=
    (Interval.holds_iff hi _ _).mpr (takes_of_gt hlow (by push_cast at hhigh ⊢; linarith))
  obtain ⟨hpos, hholds⟩ := Interval.search_holds tie (by decide : 21 < 22) hlast
  obtain ⟨hpos', heq⟩ := trimZeros_eq 400 (i.search tie 22 i.firstGrid).exponent hpos
  exact ⟨hpos', heq ▸ (Interval.holds_iff hi _ _).mp hholds⟩

end Double

end ClientGen
