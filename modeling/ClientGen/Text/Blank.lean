/-!
# White space

The characters with the Unicode property White_Space, and the operations that are phrased with it:
trimming, words, and putting a text on one line.
-/

namespace ClientGen.Text

/-- The Unicode property White_Space. -/
def isBlank (c : Char) : Bool :=
  let n := c.toNat
  (0x9 ≤ n && n ≤ 0xD) || n == 0x20 || n == 0x85 || n == 0xA0 || n == 0x1680 ||
    (0x2000 ≤ n && n ≤ 0x200A) || n == 0x2028 || n == 0x2029 || n == 0x202F || n == 0x205F ||
    n == 0x3000

/-- Drops the characters of a class at both ends. -/
def trimBoth (p : Char → Bool) (s : List Char) : List Char :=
  ((s.dropWhile p).reverse.dropWhile p).reverse

/-- Drops white space at both ends. -/
def trim (s : List Char) : List Char := trimBoth isBlank s

/-- Nothing but white space. -/
def isAllBlank (s : List Char) : Bool := s.all isBlank

/-- Prepends a character to the word that is being read, opening one if there is none. -/
def pushWord (c : Char) : List (List Char) × Bool → List (List Char) × Bool
  | (w :: ws, true) => ((c :: w) :: ws, true)
  | (ws, _) => ([c] :: ws, true)

/-- The maximal runs of characters outside a class, in order. The flag of the fold says whether the
character to the right belongs to the first word. -/
def wordsBy (p : Char → Bool) (s : List Char) : List (List Char) :=
  (s.foldr (fun c acc => if p c then (acc.1, false) else pushWord c acc) ([], false)).1

/-- The maximal runs of characters that are not white space. -/
def words (s : List Char) : List (List Char) := wordsBy isBlank s

/-- The words of a text with single spaces between them. -/
def oneLine (s : String) : String :=
  String.ofList (List.intercalate [' '] (words s.toList))

/-- Documentation on one line; none when there are no words. -/
def oneLine? (s : Option String) : Option String :=
  match s.map oneLine with
  | some "" => none
  | line => line

/-- The pieces between the occurrences of a character; one more piece than occurrences. -/
def splitOnChar (sep : Char) : List Char → List (List Char)
  | [] => [[]]
  | c :: s =>
    match splitOnChar sep s with
    | [] => [[c]]
    | piece :: pieces => if c = sep then [] :: piece :: pieces else (c :: piece) :: pieces

/-- What follows a given beginning, if the text begins so. -/
def dropStart? : List Char → List Char → Option (List Char)
  | [], s => some s
  | _ :: _, [] => none
  | c :: start, d :: s => if c = d then dropStart? start s else none

/-- A text starts so exactly if it is the start and the rest. -/
theorem dropStart?_eq_some_iff {start : List Char} :
    ∀ {s rest : List Char}, dropStart? start s = some rest ↔ s = start ++ rest := by
  induction start with
  | nil =>
    intro s rest
    rw [dropStart?, Option.some.injEq, List.nil_append]
  | cons c start ih =>
    intro s rest
    cases s with
    | nil => simp [dropStart?]
    | cons d s =>
      rw [dropStart?, List.cons_append, List.cons.injEq]
      by_cases hcd : c = d
      · rw [if_pos hcd, ih]
        exact ⟨fun h => ⟨hcd.symm, h⟩, fun h => h.2⟩
      · rw [if_neg hcd]
        exact ⟨fun h => (nomatch h), fun h => absurd h.1.symm hcd⟩

/-- What stands before a given end, if the text ends so. -/
def dropEnd? (ending s : List Char) : Option (List Char) :=
  (dropStart? ending.reverse s.reverse).map List.reverse

end ClientGen.Text
