import ClientGen.Json.Value
import ClientGen.Yaml.Basic

/-!
# Writing YAML

`Yaml.print` writes a JSON value as a block of YAML. Items stand at the column of their key. A
string is written in the plainest style in which it reads back as a string: plain, in single quotes,
in double quotes with escapes, or, when it has several lines, as a block of lines.
-/

namespace ClientGen.Yaml

open Json (Value)

/-! ## Styles -/

/-- A line break of any kind. -/
def isLineBreak (c : Char) : Bool :=
  c = '\n' || c = '\r' || c = '\u0085' || c = '\u2028' || c = '\u2029'

/-- A blank, a tab or a line break. -/
def isSpacing (c : Char) : Bool := c = ' ' || c = '\t' || isLineBreak c

/-- A character that may be written as it is. -/
def isPrintable (c : Char) : Bool :=
  let n := c.toNat
  n == 0xA || (0x20 ≤ n && n ≤ 0x7E) || (0xA0 ≤ n && n ≤ 0xFFFD && n != 0xFEFF)

/-- A character that cannot start a plain scalar. -/
def isLeadingIndicator (c : Char) : Bool :=
  c ∈ ['#', ',', '[', ']', '{', '}', '&', '*', '!', '|', '>', '\x27', '"', '%', '@', '\x60']

/-- Would the start of a text be taken for something else than a plain scalar? -/
def startsOtherwise : List Char → Bool
  | [] => false
  | c :: s =>
    let spaced := s.head?.all isSpacing
    isLeadingIndicator c || ((c = '?' || c = ':' || c = '-') && spaced) ||
      ['-', '-', '-'].isPrefixOf (c :: s) || ['.', '.', '.'].isPrefixOf (c :: s)

/-- Is there a colon before a gap, or a `#` after one? The flag says whether a gap stands before the
text. -/
def hasIndicator (spaced : Bool) : List Char → Bool
  | [] => false
  | c :: s =>
    (c = ':' && s.head?.all isSpacing) || (c = '#' && spaced) || hasIndicator (isSpacing c) s

/-- Does a character of one class stand right before one of another? -/
def hasPair (p q : Char → Bool) : List Char → Bool
  | c :: d :: s => (p c && q d) || hasPair p q (d :: s)
  | _ => false

/-- A blank. -/
def isSpace (c : Char) : Bool := c = ' '

/-- Are there characters that only double quotes can hold, or blanks that only they keep? -/
def needsEscapes (s : List Char) : Bool :=
  !s.all isPrintable || hasPair isSpace isLineBreak s

/-- Can a text stand without quotes? -/
def allowsPlain (s : List Char) : Bool :=
  !needsEscapes s && !s.any isLineBreak && !startsOtherwise s && !hasIndicator true s &&
    s.head? ≠ some ' ' && s.getLast? ≠ some ' '

/-- Can a text stand in single quotes? -/
def allowsSingle (s : List Char) : Bool := !needsEscapes s && !hasPair isLineBreak isSpace s

/-- Can a text stand as a block of lines? -/
def allowsBlock (s : List Char) : Bool := !needsEscapes s && s.getLast? ≠ some ' '

/-- Would a plain scalar be read as something else than a string? -/
def readsOtherwise (text : String) : Bool :=
  readsAsNull text || (readsAsBool? text).isSome || readsAsNumber text ||
    hasNeedlessZero text.toList

/-! ## Scalars -/

/-- A text in single quotes. -/
def singleQuoted (s : List Char) : List Char :=
  '\x27' :: s.flatMap (fun c => if c = '\x27' then ['\x27', '\x27'] else [c]) ++ ['\x27']

/-- The upper-case hexadecimal digit of a number below 16. -/
def upperHexDigit (n : Nat) : Char :=
  if n < 10 then Char.ofNat ('0'.toNat + n) else Char.ofNat ('A'.toNat + (n - 10))

/-- A number in some hexadecimal digits. -/
def hexDigits (width n : Nat) : List Char :=
  (List.range width).reverse.map fun k => upperHexDigit (n / Nat.pow 16 k % 16)

/-- A character inside double quotes. -/
def escapeDouble (c : Char) : List Char :=
  match c with
  | '\x00' => ['\\', '0']
  | '\x07' => ['\\', 'a']
  | '\x08' => ['\\', 'b']
  | '\t' => ['\\', 't']
  | '\n' => ['\\', 'n']
  | '\x0b' => ['\\', 'v']
  | '\x0c' => ['\\', 'f']
  | '\r' => ['\\', 'r']
  | '\x1b' => ['\\', 'e']
  | '"' => ['\\', '"']
  | '\\' => ['\\', '\\']
  | '\u0085' => ['\\', 'N']
  | '\u2028' => ['\\', 'L']
  | '\u2029' => ['\\', 'P']
  | c =>
    let n := c.toNat
    if isPrintable c then [c]
    else if n ≤ 0xFF then '\\' :: 'x' :: hexDigits 2 n
    else if n ≤ 0xFFFF then '\\' :: 'u' :: hexDigits 4 n
    else '\\' :: 'U' :: hexDigits 8 n

/-- A text in double quotes. -/
def doubleQuoted (s : List Char) : List Char := '"' :: s.flatMap escapeDouble ++ ['"']

/-- The mark of a block of lines: how deep it is indented if its start does not show it, and what
becomes of line breaks at its end. -/
def blockMark (s : List Char) : String :=
  let indent := if s.head?.any isSpacing then "2" else ""
  let ending :=
    match s.reverse with
    | [] => "-"
    | [c] => if isLineBreak c then "+" else "-"
    | c :: d :: _ => if !isLineBreak c then "-" else if isLineBreak d then "+" else ""
  "|" ++ indent ++ ending

/-- A string as a scalar: its first line, and the lines after it. -/
def scalarLines (text : String) : String × List String :=
  let s := text.toList
  let single := if allowsSingle s then singleQuoted s else doubleQuoted s
  if s.contains '\n' then
    if allowsBlock s then
      let lines := (Text.splitOnChar '\n' s).map String.ofList
      (blockMark s, if s.getLast? = some '\n' then lines.dropLast else lines)
    else (String.ofList (doubleQuoted s), [])
  else if !readsOtherwise text && allowsPlain s then (text, [])
  else (String.ofList single, [])

/-- Indents a line by one level; an empty line stays empty. -/
def indentLine (line : String) : String := if line.isEmpty then line else "  " ++ line

/-! ## Blocks -/

/-- What follows a key or a dash: the rest of its line, and the lines after it. -/
structure Piece where
  /-- the rest of the line; none for a collection that starts on the next line -/
  head : Option String
  lines : List String
  deriving DecidableEq, Repr

/-- The lines of a key with its value. -/
def keyLines (key : String) (value : Piece) : List String :=
  match value.head with
  | some head => ((scalarLines key).1 ++ ": " ++ head) :: value.lines
  | none => ((scalarLines key).1 ++ ":") :: value.lines

/-- The lines of an item: its first line follows the dash. -/
def itemLines (value : Piece) : List String :=
  match value.head, value.lines with
  | some head, lines => ("- " ++ head) :: lines
  | none, [] => ["-"]
  | none, first :: lines => ("- " ++ first) :: lines.map indentLine

mutual

/-- A value under a key. Items stand at the column of the key, entries are indented. -/
def underKey : Value → Piece
  | .null => ⟨some "null", []⟩
  | .bool b => ⟨some (if b then "true" else "false"), []⟩
  | .number n => ⟨some n.render, []⟩
  | .text s =>
    let (head, lines) := scalarLines s
    ⟨some head, lines.map indentLine⟩
  | .array [] => ⟨some "[]", []⟩
  | .array (v :: vs) => ⟨none, itemsLines (v :: vs)⟩
  | .object [] => ⟨some "\x7b\x7d", []⟩
  | .object (m :: ms) => ⟨none, (entriesLines (m :: ms)).map indentLine⟩
termination_by structural v => v

/-- A value after a dash. -/
def afterDash : Value → Piece
  | .null => ⟨some "null", []⟩
  | .bool b => ⟨some (if b then "true" else "false"), []⟩
  | .number n => ⟨some n.render, []⟩
  | .text s =>
    let (head, lines) := scalarLines s
    ⟨some head, lines.map indentLine⟩
  | .array [] => ⟨some "[]", []⟩
  | .array (v :: vs) => ⟨none, itemsLines (v :: vs)⟩
  | .object [] => ⟨some "\x7b\x7d", []⟩
  | .object (m :: ms) => ⟨none, entriesLines (m :: ms)⟩
termination_by structural v => v

/-- The lines of items. -/
def itemsLines : List Value → List String
  | [] => []
  | v :: vs => itemLines (afterDash v) ++ itemsLines vs
termination_by structural vs => vs

/-- The lines of entries. -/
def entriesLines : List (String × Value) → List String
  | [] => []
  | (key, v) :: ms => keyLines key (underKey v) ++ entriesLines ms
termination_by structural ms => ms

end

/-- The text of a value. -/
def print (value : Value) : String :=
  let lines :=
    match value with
    | .array (v :: vs) => itemsLines (v :: vs)
    | .object (m :: ms) => entriesLines (m :: ms)
    | value =>
      let piece := underKey value
      piece.head.getD "" :: piece.lines
  String.join (lines.map (· ++ "\n"))

end ClientGen.Yaml
