/-!
# Reading natural numbers

Decimal digits with an optional plus sign in front, below a bound. Leading zeros are allowed; an
empty run of digits is not.
-/

namespace ClientGen.Natural

/-- Above every unsigned 16-bit integer: `2^16`. -/
def bound16 : Nat := 65536

/-- Above every unsigned 64-bit integer: `2^64`. -/
def bound64 : Nat := 18446744073709551616

/-- The number that a run of digits continues, unless another character stands among them. -/
def digits? (acc : Nat) : List Char → Option Nat
  | [] => some acc
  | c :: s => if c.isDigit then digits? (acc * 10 + (c.toNat - '0'.toNat)) s else none

/-- The digits after an optional plus sign. -/
def unsign : List Char → List Char
  | '+' :: s => s
  | s => s

/-- Reads a natural number below `bound`. -/
def parse? (bound : Nat) (s : List Char) : Option Nat :=
  match unsign s with
  | [] => none
  | digits =>
    match digits? 0 digits with
    | some n => if n < bound then some n else none
    | none => none

end ClientGen.Natural
