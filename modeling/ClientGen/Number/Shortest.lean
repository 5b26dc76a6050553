import ClientGen.Number.Double

/-!
# The shortest decimal of a double

The reals that round to a given double form an interval around it. Among the decimals in that
interval, `Double.shortest` takes one with the fewest digits and, of those, the nearest to the
double; how an exact tie between two neighbours goes is left to the caller, as is the layout of the
digits (`FloatFormat`).
-/

namespace ClientGen

/-- Which neighbour wins when a double lies halfway between two equally short decimals. -/
inductive TieRule where
  /-- the larger decimal -/
  | up
  /-- the decimal whose last digit is even -/
  | even
  deriving DecidableEq, Repr

/-- A positive decimal `digits · 10^exponent`. -/
structure Decimal where
  /-- the digits as one number -/
  digits : Nat
  /-- the power of ten -/
  exponent : Int
  deriving DecidableEq, Repr, Inhabited

namespace Double

/-- The ends of the rounding interval and the double itself, over one common denominator, together
with whether the ends belong to it. -/
structure Interval where
  /-- numerator of the lower end -/
  low : Nat
  /-- numerator of the double -/
  mid : Nat
  /-- numerator of the upper end -/
  high : Nat
  /-- the common denominator -/
  den : Nat
  /-- do the ends round to the double as well? -/
  closed : Bool
  deriving Repr

/-- The reals that round to `m · 2^q`. Below a power of two the next double is only half as far
away, so the lower end is then nearer. -/
def interval (m : Nat) (q : Int) : Interval :=
  let nearer := m = Nat.pow 2 52 ∧ leastExponent < q
  let (low, mid, high) := (4 * m - (if nearer then 1 else 2), 4 * m, 4 * m + 2)
  let (up, den) := if q < 0 then (1, 4 * Nat.pow 2 (-q).toNat) else (Nat.pow 2 q.toNat, 4)
  ⟨low * up, mid * up, high * up, den, m % 2 = 0⟩

/-- Does `n · 10^p` lie in the interval? -/
def Interval.holds (i : Interval) (n : Nat) (p : Int) : Bool :=
  let (a, b) :=
    if p < 0 then (n * i.den, Nat.pow 10 (-p).toNat) else (n * Nat.pow 10 p.toNat * i.den, 1)
  if i.closed then i.low * b ≤ a && a ≤ i.high * b else i.low * b < a && a < i.high * b

/-- The whole number of steps `10^p` below the double, and how the remainder compares with half a
step. -/
def Interval.steps (i : Interval) (p : Int) : Nat × Ordering :=
  let (a, b) :=
    if p < 0 then (i.mid * Nat.pow 10 (-p).toNat, i.den) else (i.mid, i.den * Nat.pow 10 p.toNat)
  (a / b, compare (2 * (a % b)) b)

/-- The decimal for steps of `10^p`, if one of the two neighbours on that grid lies in the
interval. -/
def Interval.onGrid (i : Interval) (tie : TieRule) (p : Int) : Option Decimal :=
  let (n, half) := i.steps p
  match i.holds n p && n != 0, i.holds (n + 1) p with
  | false, false => none
  | true, false => some ⟨n, p⟩
  | false, true => some ⟨n + 1, p⟩
  | true, true =>
    match half with
    | .lt => some ⟨n, p⟩
    | .gt => some ⟨n + 1, p⟩
    | .eq =>
      match tie with
      | .up => some ⟨n + 1, p⟩
      | .even => some (if n % 2 = 0 then ⟨n, p⟩ else ⟨n + 1, p⟩)

/-- Tries finer and finer grids, from steps of `10^p` on. -/
def Interval.search (i : Interval) (tie : TieRule) : Nat → Int → Decimal
  | 0, p => ⟨(i.steps p).1, p⟩
  | fuel + 1, p =>
    match i.onGrid tie p with
    | some d => d
    | none => i.search tie fuel (p - 1)

/-- The decimal with trailing zeros moved into the exponent. -/
def trimZeros : Nat → Nat → Int → Decimal
  | 0, digits, exponent => ⟨digits, exponent⟩
  | fuel + 1, digits, exponent =>
    if digits % 10 = 0 ∧ digits ≠ 0 then trimZeros fuel (digits / 10) (exponent + 1)
    else ⟨digits, exponent⟩

/-- The shortest decimal that reads back as the magnitude of a double other than zero. No more than
20 grids are tried: 17 digits always suffice, and the first grid is at most two steps too coarse. -/
def shortest (x : Double) (tie : TieRule) : Decimal :=
  let i := interval x.mantissa x.exponent
  let whole := i.mid / i.den
  let top : Int :=
    if whole = 0 then -(((i.den / i.mid).log2 : Int) * 30103 / 100000) + 1
    else digitCount whole
  let d := i.search tie 22 top
  trimZeros 400 d.digits d.exponent

end Double

/-- How the digits of a number are laid out as text. -/
structure FloatFormat where
  /-- which of two equally near decimals is taken -/
  tie : TieRule
  /-- the least power of ten of the first digit that is written positionally -/
  leastPositional : Int
  /-- the power of ten of the first digit from which exponents are written -/
  greatestPositional : Int
  /-- the mark of an exponent that is not negative -/
  positiveMark : String

namespace FloatFormat

/-- Numbers in messages: positional from `1e-4` up to `1e16`, exponents without a plus sign. -/
def message : FloatFormat := ⟨.up, -4, 16, "e"⟩

/-- Numbers in JSON: positional from `1e-5` up to `1e16`, exponents always signed. -/
def json : FloatFormat := ⟨.even, -5, 16, "e+"⟩

/-- The magnitude of a number that is not zero. -/
def magnitude (f : FloatFormat) (d : Decimal) : String :=
  let digits := Nat.toDigits 10 d.digits
  let count : Int := digits.length
  -- the power of ten of the first digit
  let lead := d.exponent + count - 1
  if lead < f.leastPositional ∨ f.greatestPositional ≤ lead then
    let mark := if lead < 0 then "e-" else f.positiveMark
    let fraction := digits.drop 1
    let point := if fraction.isEmpty then [] else '.' :: fraction
    String.ofList (digits.take 1 ++ point) ++ mark ++ toString lead.natAbs
  else if 0 ≤ d.exponent then
    String.ofList (digits ++ List.replicate d.exponent.toNat '0') ++ ".0"
  else if lead < 0 then
    "0." ++ String.ofList (List.replicate (-lead - 1).toNat '0' ++ digits)
  else
    let whole := (lead + 1).toNat
    String.ofList (digits.take whole) ++ "." ++ String.ofList (digits.drop whole)

/-- The text of a double; a whole number keeps one fraction digit, and zero its sign. -/
def render (f : FloatFormat) (x : Double) : String :=
  let sign := if x.negative then "-" else ""
  if x.mantissa = 0 then sign ++ "0.0" else sign ++ f.magnitude (x.shortest f.tie)

end FloatFormat

end ClientGen
