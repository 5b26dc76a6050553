import ClientGen.Text.LetterRuns

/-!
# Letters, digits and their case

Classes and case forms of characters. Below U+0080 they are the ASCII ones; beyond, they are read
off the runs of `ClientGen.Text.LetterRuns`.
-/

namespace ClientGen.Letter

/-- Membership of a code point in a run `(first, count, step)`. -/
def inRun (code first count step : Nat) : Bool :=
  first ≤ code && code < first + count * step && (code - first) % step == 0

/-- Is the code point in one of the runs? -/
def inRuns (runs : List (Nat × Nat × Nat)) (code : Nat) : Bool :=
  runs.any fun (first, count, step) => inRun code first count step

/-- Is it an ASCII character? -/
def isAscii (c : Char) : Bool := c.toNat < 0x80

/-- A letter or a digit of any script. -/
def isAlphanumeric (c : Char) : Bool :=
  if isAscii c then c.isAlphanum else inRuns alphanumericRuns c.toNat

/-- An upper-case letter of any script. -/
def isUpper (c : Char) : Bool :=
  if isAscii c then c.isUpper else inRuns upperRuns c.toNat

/-- A lower-case letter of any script. -/
def isLower (c : Char) : Bool :=
  if isAscii c then c.isLower else inRuns lowerRuns c.toNat

/-- The other case of a character: the run that holds it gives the distance to a single character,
the list of spelled-out forms gives several; any other character is its own form. -/
def caseForm (runs : List (Nat × Nat × Nat × Int)) (many : List (Nat × List Nat)) (c : Char) :
    List Char :=
  match runs.find? fun (first, count, step, _) => inRun c.toNat first count step with
  | some (_, _, _, distance) => [Char.ofNat (c.toNat + distance).toNat]
  | none =>
    match many.lookup c.toNat with
    | some codes => codes.map Char.ofNat
    | none => [c]

/-- The upper-case form; several characters for a few letters. -/
def toUpper (c : Char) : List Char :=
  if isAscii c then [c.toUpper] else caseForm toUpperRuns toUpperMany c

/-- The lower-case form. -/
def toLower (c : Char) : List Char :=
  if isAscii c then [c.toLower] else caseForm toLowerRuns toLowerMany c

end ClientGen.Letter
