/-!
# Double-precision numbers, exactly

A finite double is a sign, a whole mantissa and a power of two. Decimal literals are rounded to the
nearest double in whole-number arithmetic, so every step can be reasoned about.

* `Double.ofDecimal?` reads `±digits · 10^exponent`, to nearest, a half to the even mantissa, and
  refuses what rounds beyond the largest double.
* `Double.ofInt?` reads whole numbers the same way.
-/

namespace ClientGen

/-- A finite double: `±mantissa · 2^exponent`. The numbers made by `ofDecimal?` have a mantissa
below `2^53`, an exponent from `-1074` to `971`, and a mantissa of at least `2^52` unless the
exponent is `-1074`; so two of them denote the same number of the same sign only if they are
equal. -/
structure Double where
  /-- the sign; zero has one too -/
  negative : Bool
  /-- the whole mantissa -/
  mantissa : Nat
  /-- the power of two -/
  exponent : Int
  deriving DecidableEq, Repr, Inhabited

namespace Double

/-- The least exponent of a double. -/
def leastExponent : Int := -1074

/-- The greatest exponent of a double. -/
def greatestExponent : Int := 971

/-- Zero of either sign. -/
def zero (negative : Bool) : Double := ⟨negative, 0, leastExponent⟩

/-- The quotient `a / b` rounded to the nearest whole number, a half to the even one. -/
def roundDiv (a b : Nat) : Nat :=
  let q := a / b
  let r := a % b
  if 2 * r < b then q
  else if b < 2 * r then q + 1
  else if q % 2 = 0 then q else q + 1

/-- `a / (b · 2^e)` as a fraction, for an exponent of either sign. -/
def scaleFraction (a b : Nat) (e : Int) : Nat × Nat :=
  if e < 0 then (a * Nat.pow 2 (-e).toNat, b) else (a, b * Nat.pow 2 e.toNat)

/-- The exponent at which `a / b` has 53 mantissa bits, never below the least one. -/
def exponentFor (a b : Nat) : Int :=
  let guess : Int := a.log2 - b.log2 - 53
  let (n, d) := scaleFraction a b guess
  let exact := if Nat.pow 2 53 ≤ n / d then guess + 1 else guess
  max exact leastExponent

/-- The double nearest to `±a / b`, for `0 < a` and `0 < b`; `none` when it would be infinite. -/
def ofFraction? (negative : Bool) (a b : Nat) : Option Double :=
  let e := exponentFor a b
  let (n, d) := scaleFraction a b e
  let m := roundDiv n d
  let (m, e) := if m = Nat.pow 2 53 then (Nat.pow 2 52, e + 1) else (m, e)
  if greatestExponent < e then none
  else if m = 0 then some (zero negative)
  else some ⟨negative, m, e⟩

/-- The number of decimal digits; zero has one. -/
def digitCount (n : Nat) : Nat := (Nat.toDigits 10 n).length

/-- The double nearest to `±digits · 10^exponent`; `none` when it would be infinite. Exponents far
outside the range are decided by size, without computing the power. -/
def ofDecimal? (negative : Bool) (digits : Nat) (exponent : Int) : Option Double :=
  if digits = 0 then some (zero negative)
  else
    let size : Int := digitCount digits + exponent
    if 310 < size then none
    else if size < -330 then some (zero negative)
    else if exponent < 0 then ofFraction? negative digits (Nat.pow 10 (-exponent).toNat)
    else ofFraction? negative (digits * Nat.pow 10 exponent.toNat) 1

/-- The double nearest to an integer. -/
def ofInt? (n : Int) : Option Double := ofDecimal? (n < 0) n.natAbs 0

end Double

end ClientGen
