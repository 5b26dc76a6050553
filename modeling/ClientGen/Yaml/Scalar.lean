import ClientGen.Yaml.Basic

/-!
# Scalars in YAML texts

A `Cursor` stands somewhere in a text. Scalars are read off a cursor: in plain style, or in single
or double quotes. A line break inside a scalar counts as a blank, and an empty line as a line break.

A text is made ready by `Cursor.ofText?`, which refuses control characters and leaves one kind of
line break.
-/

namespace ClientGen.Yaml

/-- A place in a text. -/
structure Cursor where
  /-- the text from here on -/
  rest : List Char
  line : Nat := 0
  column : Nat := 0
  deriving Repr

/-- A character that texts may contain. -/
def isAllowed (c : Char) : Bool :=
  let n := c.toNat
  n == 0x9 || n == 0xA || n == 0xD || (0x20 ≤ n && n ≤ 0x7E) || n == 0x85 ||
    (0xA0 ≤ n && n ≤ 0xFFFD) || 0x10000 ≤ n

/-- Writes every line break the same way. -/
def unifyBreaks : List Char → List Char
  | '\r' :: '\n' :: s => '\n' :: unifyBreaks s
  | '\r' :: s => '\n' :: unifyBreaks s
  | '\u0085' :: s => '\n' :: unifyBreaks s
  | c :: s => c :: unifyBreaks s
  | [] => []

/-- The start of a text, unless there are control characters in it. A mark of the byte order is
skipped. -/
def Cursor.ofText? (text : String) : Option Cursor :=
  let s :=
    match text.toList with
    | '\ufeff' :: s => s
    | s => s
  if s.all isAllowed then some { rest := unifyBreaks s } else none

namespace Cursor

/-- The cursor after the next character. -/
def next (c : Cursor) : Cursor :=
  match c.rest with
  | [] => c
  | '\n' :: s => ⟨s, c.line + 1, 0⟩
  | _ :: s => ⟨s, c.line, c.column + 1⟩

/-- The cursor after some more characters. -/
def advance (c : Cursor) : Nat → Cursor
  | 0 => c
  | n + 1 => c.next.advance n

/-- A blank, a line break or the end. -/
def isGap : List Char → Bool
  | [] => true
  | c :: _ => c = ' ' || c = '\t' || c = '\n'

/-- Is the next character this one, with a gap after it? -/
def atIndicator (c : Cursor) (indicator : Char) : Bool :=
  match c.rest with
  | d :: s => d = indicator && isGap s
  | [] => false

/-- Is this a line that starts with a mark of three characters? -/
def atMarker (c : Cursor) (mark : Char) : Bool :=
  match c.rest with
  | x :: y :: z :: s => c.column = 0 && x = mark && y = mark && z = mark && isGap s
  | _ => false

/-- Does the document end here? -/
def atEnd (c : Cursor) : Bool := c.rest.isEmpty || c.atMarker '-' || c.atMarker '.'

/-- Skips blanks, comments and line breaks. Tabs count as blanks only where no key could stand:
inside brackets, and `tabs` says whether on this line. -/
def skipGap (flow : Bool) : (tabs comment : Bool) → List Char → (line column : Nat) → Cursor
  | _, _, [], line, column => ⟨[], line, column⟩
  | tabs, comment, c :: s, line, column =>
    if c = '\n' then skipGap flow flow false s (line + 1) 0
    else if comment || c = ' ' || (c = '\t' && (tabs || flow)) then
      skipGap flow tabs comment s line (column + 1)
    else if c = '#' then skipGap flow tabs true s line (column + 1)
    else ⟨c :: s, line, column⟩

/-- The next place with something on it. -/
def skip (c : Cursor) (flow tabs : Bool) : Cursor := skipGap flow tabs false c.rest c.line c.column

end Cursor

/-! ## Plain style -/

/-- The characters that end a plain scalar inside brackets. -/
def isFlowIndicator (c : Char) : Bool :=
  c = ',' || c = '[' || c = ']' || c = '{' || c = '}'

/-- Can a plain scalar start here? -/
def startsPlain (flow : Bool) : List Char → Bool
  | [] => false
  | c :: s =>
    if c = '-' then !(s.head?.any fun d => d = ' ' || d = '\t')
    else if c = '?' || c = ':' then !flow && !Cursor.isGap s
    else !(c = ' ' || c = '\t' || c = '\n' || isFlowIndicator c || c = '#' || c = '&' || c = '*' ||
      c = '!' || c = '|' || c = '>' || c = '\x27' || c = '"' || c = '%' || c = '@' || c = '\x60')

/-- The characters of a plain scalar up to the next gap or indicator, and what follows. Inside
brackets a colon must not stand right before an indicator. -/
def plainRun (flow : Bool) : List Char → Option (List Char × List Char)
  | [] => some ([], [])
  | c :: s =>
    if c = ' ' || c = '\t' || c = '\n' then some ([], c :: s)
    else if c = ':' && flow && s.head?.any (fun d => isFlowIndicator d || d = '?') then none
    else if c = ':' && Cursor.isGap s then some ([], c :: s)
    else if flow && isFlowIndicator c then some ([], c :: s)
    else (plainRun flow s).map fun (run, rest) => (c :: run, rest)

/-- A gap inside a scalar: blanks on one line, or line breaks. -/
inductive Fold where
  | blanks (reversed : List Char)
  /-- line breaks after the first; `visible` tells whether the first one counts -/
  | breaks (visible : Bool) (more : Nat)
  deriving Repr

namespace Fold

/-- The gap with one more character. -/
def push (c : Char) : Fold → Fold
  | .blanks reversed => if c = '\n' then .breaks true 0 else .blanks (c :: reversed)
  | .breaks visible more => if c = '\n' then .breaks visible (more + 1) else .breaks visible more

/-- What the gap stands for. -/
def text : Fold → List Char
  | .blanks reversed => reversed.reverse
  | .breaks true 0 => [' ']
  | .breaks _ more => List.replicate more '\n'

/-- Is there a line break in it? -/
def isBreak : Fold → Bool
  | .blanks _ => false
  | .breaks _ _ => true

end Fold

/-- The gap at a cursor, and the cursor after it. Indentation must not be made of tabs. -/
def gapAt (margin : Nat) : Fold → List Char → (line column : Nat) → Option (Fold × Cursor)
  | gap, [], line, column => some (gap, ⟨[], line, column⟩)
  | gap, c :: s, line, column =>
    if c = '\n' then gapAt margin (gap.push c) s (line + 1) 0
    else if c = '\t' && gap.isBreak && column < margin then none
    else if c = ' ' || c = '\t' then gapAt margin (gap.push c) s line (column + 1)
    else some (gap, ⟨c :: s, line, column⟩)

/-- A scalar in plain style. Its further lines must not start left of `margin`, unless it stands
inside brackets. -/
def plainFrom (flow : Bool) (margin : Nat) : (fuel : Nat) → Cursor → Option (List Char × Cursor)
  | 0, _ => none
  | fuel + 1, c => do
    let (run, rest) ← plainRun flow c.rest
    let stop : Cursor := ⟨rest, c.line, c.column + run.length⟩
    let (gap, resume) ← gapAt margin (.blanks []) stop.rest stop.line stop.column
    let (following, _) ← plainRun flow resume.rest
    if following.isEmpty || rest.length = resume.rest.length || resume.rest.head? = some '#' ||
        resume.atEnd || (!flow && gap.isBreak && resume.column < margin) then
      return (run, stop)
    let (more, final) ← plainFrom flow margin fuel resume
    return (run ++ gap.text ++ more, final)

/-- A scalar in plain style. -/
def plain (flow : Bool) (margin : Nat) (c : Cursor) : Option (Yaml × Cursor) := do
  if !startsPlain flow c.rest then none
  let (text, final) ← plainFrom flow margin (c.rest.length + 1) c
  return (.scalar true (String.ofList text), final)

/-! ## Quoted styles -/

/-- Where a reader of a quoted scalar is. -/
inductive QuoteMode where
  | body
  /-- after a single quote, which ends the scalar unless another one follows -/
  | quote
  /-- after a backslash -/
  | escape
  /-- inside a code of some more hexadecimal digits -/
  | code (left value : Nat)
  deriving Repr

/-- The character that an escape stands for. -/
def escaped? (c : Char) : Option Char :=
  match c with
  | '0' => some '\x00'
  | 'a' => some '\x07'
  | 'b' => some '\x08'
  | 't' => some '\t'
  | '\t' => some '\t'
  | 'n' => some '\n'
  | 'v' => some '\x0b'
  | 'f' => some '\x0c'
  | 'r' => some '\r'
  | 'e' => some '\x1b'
  | ' ' => some ' '
  | '"' => some '"'
  | '/' => some '/'
  | '\\' => some '\\'
  | 'N' => some '\u0085'
  | '_' => some '\u00a0'
  | 'L' => some '\u2028'
  | 'P' => some '\u2029'
  | _ => none

/-- How many hexadecimal digits follow an escape. -/
def codeLength? : Char → Option Nat
  | 'x' => some 2
  | 'u' => some 4
  | 'U' => some 8
  | _ => none

/-- The character of a code, if it is one. -/
def charOf? (code : Nat) : Option Char := if code.isValidChar then some (Char.ofNat code) else none

/-- The text of a quoted scalar after its opening quote, and the cursor after the closing one. -/
def quotedFrom (single : Bool) : QuoteMode → Fold → List Char → (line column : Nat) →
    Option (List Char × Cursor)
  | .quote, gap, [], line, column => some (gap.text, ⟨[], line, column⟩)
  | _, _, [], _, _ => none
  | mode, gap, c :: s, line, column =>
    let here : Cursor := ⟨c :: s, line, column⟩
    let go (text : List Char) (mode : QuoteMode) : Option (List Char × Cursor) :=
      (quotedFrom single mode (.blanks []) s line (column + 1)).map fun (t, final) =>
        (text ++ t, final)
    match mode with
    | .quote =>
      if c = '\x27' then go (gap.text ++ ['\x27']) .body else some (gap.text, here)
    | .escape =>
      if c = '\n' then
        (quotedFrom single .body (.breaks false 0) s (line + 1) 0).map fun (t, final) =>
          (gap.text ++ t, final)
      else
        match escaped? c, codeLength? c with
        | some d, _ => go (gap.text ++ [d]) .body
        | none, some left => go gap.text (.code left 0)
        | none, none => none
    | .code left value => do
      let d ← digit? 16 c
      let value := value * 16 + d
      if left = 1 then go [← charOf? value] .body else go [] (.code (left - 1) value)
    | .body =>
      if c = '\n' then quotedFrom single .body (gap.push c) s (line + 1) 0
      else if c = ' ' || c = '\t' then quotedFrom single .body (gap.push c) s line (column + 1)
      else if here.atMarker '-' || here.atMarker '.' then none
      else if single && c = '\x27' then quotedFrom single .quote gap s line (column + 1)
      else if !single && c = '"' then some (gap.text, here.next)
      else if !single && c = '\\' then quotedFrom single .escape gap s line (column + 1)
      else go (gap.text ++ [c]) .body

/-- A scalar in quotes, with the cursor at its opening quote. -/
def quoted (single : Bool) (c : Cursor) : Option (Yaml × Cursor) := do
  let start := c.next
  let (text, final) ← quotedFrom single .body (.blanks []) start.rest start.line start.column
  return (.scalar false (String.ofList text), final)

end ClientGen.Yaml
