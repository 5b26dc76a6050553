import ClientGen.Number.Double
import ClientGen.Number.Natural
import ClientGen.Text.Blank

/-!
# YAML

Plain documents of YAML: scalars, sequences and mappings. What a scalar in plain style stands for is
decided by the one who reads it; `readsAsNull`, `readsAsBool?` and `readsAsNumber` are the rules.
-/

namespace ClientGen

/-- A value of YAML. -/
inductive Yaml where
  /-- a scalar, in plain style or in quotes -/
  | scalar (plain : Bool) (text : String)
  | sequence (items : List Yaml)
  | mapping (entries : List (Yaml × Yaml))
  deriving Repr, Inhabited

namespace Yaml

/-- The value of an empty document, or of an empty place. -/
def empty : Yaml := .scalar true ""

/-! ## Plain scalars -/

/-- Does a plain scalar stand for nothing? -/
def readsAsNull (text : String) : Bool := text ∈ ["", "null", "Null", "NULL", "~"]

/-- The switch that a plain scalar stands for. -/
def readsAsBool? : String → Option Bool
  | "true" | "True" | "TRUE" => some true
  | "false" | "False" | "FALSE" => some false
  | _ => none

/-- The value of a digit in a base up to 16. -/
def digit? (base : Nat) (c : Char) : Option Nat :=
  let value :=
    if c.isDigit then c.toNat - '0'.toNat
    else if 'a' ≤ c ∧ c ≤ 'f' then c.toNat - 'a'.toNat + 10
    else if 'A' ≤ c ∧ c ≤ 'F' then c.toNat - 'A'.toNat + 10
    else base
  if value < base then some value else none

/-- The number that digits continue. -/
def digits? (base acc : Nat) : List Char → Option Nat
  | [] => some acc
  | c :: s => (digit? base c).bind fun d => digits? base (acc * base + d) s

/-- The number of a run of digits. -/
def number? (base : Nat) (s : List Char) : Option Nat :=
  if s.isEmpty then none else digits? base 0 s

/-- The number that follows a mark of its base. -/
def marked? : List Char → Option Nat
  | '0' :: 'x' :: s => number? 16 s
  | '0' :: 'o' :: s => number? 8 s
  | '0' :: 'b' :: s => number? 2 s
  | _ => none

/-- The text after a plus sign, unless another sign follows it. -/
def unplus? : List Char → Option (List Char)
  | '+' :: '+' :: _ => none
  | '+' :: '-' :: _ => none
  | '+' :: s => some s
  | s => some s

/-- Digits that start with a needless zero, possibly after a sign: no number. -/
def hasNeedlessZero (s : List Char) : Bool :=
  let unsigned :=
    match s with
    | '+' :: s => s
    | '-' :: s => s
    | s => s
  match unsigned with
  | '0' :: c :: s => (c :: s).all Char.isDigit
  | _ => false

/-- The natural number below a bound that a plain scalar stands for. -/
def readsAsNatural? (bound : Nat) (text : String) : Option Nat := do
  let s ← unplus? text.toList
  if hasNeedlessZero text.toList then none
  let n ← (marked? s).or (number? 10 s)
  if n < bound then some n else none

/-- A decimal numeral: digits with a point, and an exponent. -/
def decimal? (s : List Char) : Option (Nat × Int) := do
  let whole := s.takeWhile Char.isDigit
  let rest := s.dropWhile Char.isDigit
  let (fraction, rest) :=
    match rest with
    | '.' :: rest => (rest.takeWhile Char.isDigit, rest.dropWhile Char.isDigit)
    | rest => ([], rest)
  let n ← number? 10 (whole ++ fraction)
  let exponent ←
    match rest with
    | [] => some 0
    | e :: '-' :: digits =>
      if e = 'e' ∨ e = 'E' then (number? 10 digits).map fun k => -(k : Int) else none
    | e :: '+' :: digits => if e = 'e' ∨ e = 'E' then (number? 10 digits).map Int.ofNat else none
    | e :: digits => if e = 'e' ∨ e = 'E' then (number? 10 digits).map Int.ofNat else none
  return (n, exponent - fraction.length)

/-- Does a numeral, possibly after a minus sign, stand for a finite double? -/
def isFinite (s : List Char) : Bool :=
  let unsigned :=
    match s with
    | '-' :: s => s
    | s => s
  match decimal? unsigned with
  | some (n, exponent) => (Double.ofDecimal? false n exponent).isSome
  | none => false

/-- Does a plain scalar stand for a number? -/
def readsAsNumber (text : String) : Bool :=
  let s := text.toList
  let marked :=
    match s with
    | '-' :: s => (marked? s).any (· ≤ Nat.pow 2 127)
    | s => ((unplus? s).bind marked?).any (· < Nat.pow 2 128)
  let special :=
    text ∈ [".inf", ".Inf", ".INF", "+.inf", "+.Inf", "+.INF", "-.inf", "-.Inf", "-.INF",
      ".nan", ".NaN", ".NAN"]
  marked || special || (!hasNeedlessZero s && (unplus? s).any isFinite)

/-! ## Views -/

/-- The text of a scalar of any style. -/
def text? : Yaml → Option String
  | .scalar _ text => some text
  | _ => none

/-- The text of a scalar, or nothing for one that stands for nothing. -/
def optionalText? : Yaml → Option (Option String)
  | .scalar true text => some (if readsAsNull text then none else some text)
  | .scalar false text => some (some text)
  | _ => none

/-- The items of a sequence; an empty place has none. -/
def items? : Yaml → Option (List Yaml)
  | .sequence items => some items
  | .scalar true "" => some []
  | _ => none

/-- The entries of a mapping; an empty place has none. -/
def entries? : Yaml → Option (List (Yaml × Yaml))
  | .mapping entries => some entries
  | .scalar true "" => some []
  | _ => none

/-- The switch of a plain scalar. -/
def bool? : Yaml → Option Bool
  | .scalar true text => readsAsBool? text
  | _ => none

/-- The unsigned 64-bit integer of a plain scalar. -/
def natural? : Yaml → Option Nat
  | .scalar true text => readsAsNatural? Natural.bound64 text
  | _ => none

end Yaml

end ClientGen
