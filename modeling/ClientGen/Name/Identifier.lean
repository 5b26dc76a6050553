import ClientGen.Text.Words

/-!
# Identifiers out of text

* `sanitize` makes an identifier out of any text: other characters are dropped, and what follows a
  dropped one is upper-cased.
* `uniqueName` adds the first free number to a name that is taken.
-/

namespace ClientGen.Name

/-- A character of an identifier. -/
def isIdentifierChar (c : Char) : Bool := c.isAlphanum || c = '_'

/-- Keeps the characters of identifiers. `started` says whether one was kept already, `raise`
whether the next one is upper-cased. -/
def keepIdentifier (started raise : Bool) : List Char → List Char
  | [] => []
  | c :: s =>
    if isIdentifierChar c then (if raise then c.toUpper else c) :: keepIdentifier true false s
    else keepIdentifier started started s

/-- The name of what has no name. -/
def unnamed : List Char := ['U', 'n', 'n', 'a', 'm', 'e', 'd']

/-- The identifier of a text; never empty, and never with a digit in front. -/
def sanitizeChars (s : List Char) : List Char :=
  match keepIdentifier false false s with
  | [] => unnamed
  | c :: kept => if c.isDigit then '_' :: c :: kept else c :: kept

/-- The identifier of a text. -/
def sanitize (s : String) : String := String.ofList (sanitizeChars s.toList)

/-- The identifier of a text in words: `pet-store` becomes `PetStore`. -/
def pascal (s : String) : String := String.ofList (Text.pascalCase (sanitizeChars s.toList))

/-- `base` followed by the first number from `n` on that makes it free, among `fuel` numbers. The
number has no bound. Counted in 32 bits, as a running search does, it is the same one while fewer
than 2147483646 names are taken (`inReach_of_length_lt`). -/
def suffixed (base : String) (taken : List String) : (fuel n : Nat) → String
  | 0, n => base ++ toString n
  | fuel + 1, n =>
    let name := base ++ toString n
    if name ∈ taken then suffixed base taken fuel (n + 1) else name

/-- `base`, or `base` with the first free number from 2 on. Of the numbers that are tried, one more
than there are other taken names, one is free. -/
def uniqueName (base : String) (taken : List String) : String :=
  if base ∈ taken then suffixed base taken taken.length 2 else base

end ClientGen.Name
