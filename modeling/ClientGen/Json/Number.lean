import ClientGen.Number.Natural
import ClientGen.Number.Shortest

/-!
# JSON numbers

A `Numeral` is a number as it is spelled. Its value is a whole number when it has neither fraction
nor exponent and fits 64 bits, signed if it is negative; any other numeral is a double. Negative
zero is a double. A numeral beyond the doubles has no value.
-/

namespace ClientGen.Json

/-- A number as it is spelled: `±digits · 10^(exponent - scale)`. -/
structure Numeral where
  /-- was there a minus sign? -/
  negative : Bool
  /-- the digits before and after the point, as one number -/
  digits : Nat
  /-- how many of the digits stand after the point -/
  scale : Nat
  /-- the written exponent -/
  exponent : Int
  /-- is there neither a point nor an exponent? -/
  whole : Bool
  deriving DecidableEq, Repr, Inhabited

/-- The value of a numeral. -/
inductive Number where
  /-- an integer from `-2^63` to `2^64 - 1` -/
  | whole (n : Int)
  /-- a double -/
  | real (x : Double)
  deriving DecidableEq, Repr, Inhabited

/-- The value, unless it lies beyond the doubles. -/
def Numeral.value? (n : Numeral) : Option Number :=
  if n.whole ∧ ¬ n.negative ∧ n.digits < Natural.bound64 then some (.whole n.digits)
  else if n.whole ∧ n.negative ∧ 0 < n.digits ∧ n.digits ≤ 9223372036854775808 then
    some (.whole (-n.digits))
  else (Double.ofDecimal? n.negative n.digits (n.exponent - n.scale)).map .real

/-- The double nearest to a number. -/
def Number.toDouble : Number → Double
  | .whole n => (Double.ofInt? n).getD (Double.zero false)
  | .real x => x

/-- The value as a signed 64-bit integer, if it is one. -/
def Number.toInt? : Number → Option Int
  | .whole n => if n ≤ 9223372036854775807 then some n else none
  | .real _ => none

/-- The value as an unsigned 64-bit integer, if it is one. -/
def Number.toNat? : Number → Option Nat
  | .whole n => if 0 ≤ n then some n.toNat else none
  | .real _ => none

/-- The JSON spelling of a number. -/
def Number.render : Number → String
  | .whole n => toString n
  | .real x => FloatFormat.json.render x

end ClientGen.Json
