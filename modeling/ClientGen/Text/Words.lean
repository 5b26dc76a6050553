import ClientGen.Text.Blank
import ClientGen.Text.Letter

/-!
# Words inside identifiers

Identifiers are split into words at characters that are neither letters nor digits, before an
upper-case letter that follows a lower-case one, and before the last upper-case letter of a run when
a lower-case letter follows (`XMLHttp` is `XML`, `Http`). A digit keeps the case of what stands
before it. `pascalCase` and `camelCase` put the words together again.
-/

namespace ClientGen.Text

/-- The case of the letters read since the last word boundary. -/
inductive WordCase where
  /-- no letter with a case yet -/
  | boundary
  /-- the last cased letter was lower case -/
  | lower
  /-- the last cased letter was upper case -/
  | upper
  deriving DecidableEq, Repr

/-- The case after one more character. -/
def WordCase.after (mode : WordCase) (c : Char) : WordCase :=
  if Letter.isLower c then .lower else if Letter.isUpper c then .upper else mode

/-- Splits a run of letters and digits; `word` is the word being read, in reverse. -/
def splitWords (mode : WordCase) (word : List Char) : List Char → List (List Char)
  | [] => if word.isEmpty then [] else [word.reverse]
  | [c] => [(c :: word).reverse]
  | c :: next :: s =>
    let mode' := mode.after c
    if mode' = .lower ∧ Letter.isUpper next then
      (c :: word).reverse :: splitWords .boundary [] (next :: s)
    else if mode = .upper ∧ Letter.isUpper c ∧ Letter.isLower next then
      word.reverse :: splitWords .boundary [c] (next :: s)
    else splitWords mode' (c :: word) (next :: s)

/-- The words of an identifier. -/
def identifierWords (s : List Char) : List (List Char) :=
  (wordsBy (fun c => !Letter.isAlphanumeric c) s).flatMap (splitWords .boundary [])

/-- Lower-cases a word; a final sigma has its own form. -/
def lowerWord : List Char → List Char
  | [] => []
  | [c] => if c = 'Σ' then ['ς'] else Letter.toLower c
  | c :: s => Letter.toLower c ++ lowerWord s

/-- Upper-cases the first letter of a word and lower-cases the rest. -/
def capitalize : List Char → List Char
  | [] => []
  | c :: s => Letter.toUpper c ++ lowerWord s

/-- `pet_store` becomes `PetStore`. -/
def pascalCase (s : List Char) : List Char :=
  ((identifierWords s).map capitalize).flatten

/-- `pet_store` becomes `petStore`. -/
def camelCase (s : List Char) : List Char :=
  match identifierWords s with
  | [] => []
  | w :: ws => lowerWord w ++ (ws.map capitalize).flatten

end ClientGen.Text
