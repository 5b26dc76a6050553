import ClientGen.Json.Fault
import ClientGen.Json.Number

/-!
# The tokens of a JSON text

`tokenize` walks a text once, character by character, in a `Mode` that says what is being read. It
never fails: where the text stops being JSON, the last token is `broken` and nothing follows.

A member that nobody asks for is skipped rather than read, and skipping checks less than reading. So
a token keeps apart what only readers refuse: a string whose escapes pair no surrogates has no
content, and a broken token has one fault for readers (`strict`) and one for those who skip it
(`lenient`).
-/

namespace ClientGen.Json

/-- One token. -/
inductive Token where
  | openObject
  | closeObject
  | openArray
  | closeArray
  | comma
  | colon
  | null
  | bool (value : Bool)
  | number (numeral : Numeral)
  /-- a string; `none` when a surrogate escape stands alone in it -/
  | text (content : Option String)
  /-- where the text stops being JSON; `isText` says whether that is inside a string -/
  | broken (isText : Bool) (strict lenient : Fault)
  deriving DecidableEq, Repr

/-- Where in a numeral the reading stands. -/
inductive NumeralPart where
  /-- after the minus sign -/
  | sign
  /-- after a leading zero -/
  | zero
  /-- in the digits before the point -/
  | whole
  /-- after the point -/
  | point
  /-- in the digits after the point -/
  | fraction
  /-- after the exponent mark -/
  | mark
  /-- after the sign of the exponent -/
  | markSign
  /-- in the digits of the exponent -/
  | exponent
  deriving DecidableEq, Repr

/-- Where in a string the reading stands. -/
inductive TextPart where
  /-- between characters -/
  | plain
  /-- after a backslash -/
  | escape
  /-- after `\u`, with the count of bytes seen and the value of the hexadecimal digits, unless one
  was no such digit; `lead` is the leading surrogate before it -/
  | hex (lead : Option Nat) (seen : Nat) (value : Option Nat)
  /-- after a leading surrogate -/
  | lead (code : Nat)
  /-- after a leading surrogate and a backslash -/
  | leadEscape (code : Nat)
  deriving DecidableEq, Repr

/-- What is being read. -/
inductive Mode where
  /-- between tokens -/
  | between
  /-- inside `null`, `true` or `false`: the characters still to come, and the token they make -/
  | word (rest : List Char) (token : Token)
  /-- inside a numeral; `negativeExponent` is the sign of its exponent -/
  | number (part : NumeralPart) (numeral : Numeral) (negativeExponent : Bool)
  /-- inside a string: its characters so far in reverse, and whether its surrogates pair -/
  | text (part : TextPart) (content : List Char) (sound : Bool)
  /-- after a broken token -/
  | stopped
  deriving DecidableEq, Repr

/-- The white space of JSON. -/
def isSpace (c : Char) : Bool := c = ' ' || c = '\n' || c = '\t' || c = '\r'

/-- The value of a decimal digit. -/
def digit? (c : Char) : Option Nat :=
  if '0' ≤ c ∧ c ≤ '9' then some (c.toNat - '0'.toNat) else none

/-- The value of a hexadecimal digit. -/
def hexDigit? (c : Char) : Option Nat :=
  if '0' ≤ c ∧ c ≤ '9' then some (c.toNat - '0'.toNat)
  else if 'a' ≤ c ∧ c ≤ 'f' then some (c.toNat - 'a'.toNat + 10)
  else if 'A' ≤ c ∧ c ≤ 'F' then some (c.toNat - 'A'.toNat + 10)
  else none

/-- The character that a one-letter escape stands for. -/
def escape? (c : Char) : Option Char :=
  match c with
  | '"' => some '"'
  | '\\' => some '\\'
  | '/' => some '/'
  | 'b' => some '\x08'
  | 'f' => some '\x0c'
  | 'n' => some '\n'
  | 'r' => some '\r'
  | 't' => some '\t'
  | _ => none

/-- A malformed text, for readers and for those who skip. -/
def Mode.malformed (isText : Bool) : List Token × Mode :=
  ([.broken isText .malformed .malformed], .stopped)

/-- One character between tokens. -/
def Mode.start (c : Char) : List Token × Mode :=
  if isSpace c then ([], .between)
  else
    match c with
    | '{' => ([.openObject], .between)
    | '}' => ([.closeObject], .between)
    | '[' => ([.openArray], .between)
    | ']' => ([.closeArray], .between)
    | ',' => ([.comma], .between)
    | ':' => ([.colon], .between)
    | '"' => ([], .text .plain [] true)
    | 'n' => ([], .word ['u', 'l', 'l'] .null)
    | 't' => ([], .word ['r', 'u', 'e'] (.bool true))
    | 'f' => ([], .word ['a', 'l', 's', 'e'] (.bool false))
    | '-' => ([], .number .sign ⟨true, 0, 0, 0, true⟩ false)
    | '0' => ([], .number .zero ⟨false, 0, 0, 0, true⟩ false)
    | _ =>
      match digit? c with
      | some d => ([], .number .whole ⟨false, d, 0, 0, true⟩ false)
      | none => Mode.malformed false

/-- The numeral ends before this character, which begins the next token. -/
def Mode.endNumeral (n : Numeral) (c : Char) : List Token × Mode :=
  let (tokens, mode) := Mode.start c
  (.number n :: tokens, mode)

/-- What may follow the digits of a numeral: a point if there was none yet, or an exponent. -/
def Mode.afterDigits (pointAllowed : Bool) (n : Numeral) (c : Char) : List Token × Mode :=
  if c = '.' ∧ pointAllowed then ([], .number .point { n with whole := false } false)
  else if c = 'e' ∨ c = 'E' then ([], .number .mark { n with whole := false } false)
  else Mode.endNumeral n c

/-- Appends a digit of the exponent. -/
def Numeral.pushExponent (n : Numeral) (negativeExponent : Bool) (d : Nat) : Numeral :=
  let size := n.exponent.natAbs * 10 + d
  { n with exponent := if negativeExponent then -size else size }

/-- One character inside a numeral. -/
def Mode.stepNumber (part : NumeralPart) (n : Numeral) (negativeExponent : Bool) (c : Char) :
    List Token × Mode :=
  match part, digit? c with
  | .sign, some 0 => ([], .number .zero n false)
  | .sign, some d => ([], .number .whole { n with digits := d } false)
  | .sign, none => Mode.malformed false
  | .zero, some _ => Mode.malformed false
  | .zero, none => Mode.afterDigits true n c
  | .whole, some d => ([], .number .whole { n with digits := n.digits * 10 + d } false)
  | .whole, none => Mode.afterDigits true n c
  | .point, some d =>
    ([], .number .fraction { n with digits := n.digits * 10 + d, scale := 1 } false)
  | .point, none => Mode.malformed false
  | .fraction, some d =>
    ([], .number .fraction { n with digits := n.digits * 10 + d, scale := n.scale + 1 } false)
  | .fraction, none => Mode.afterDigits false n c
  | .mark, some d => ([], .number .exponent (n.pushExponent false d) false)
  | .mark, none =>
    if c = '+' then ([], .number .markSign n false)
    else if c = '-' then ([], .number .markSign n true)
    else Mode.malformed false
  | .markSign, some d =>
    ([], .number .exponent (n.pushExponent negativeExponent d) negativeExponent)
  | .markSign, none => Mode.malformed false
  | .exponent, some d =>
    ([], .number .exponent (n.pushExponent negativeExponent d) negativeExponent)
  | .exponent, none => Mode.endNumeral n c

/-- A code unit that an escape has given, after the leading surrogate `lead` if there is one. A
leading surrogate waits for its partner; any other surrogate without one makes the string
unsound. -/
def Mode.pushUnit (lead : Option Nat) (unit : Nat) (content : List Char) (sound : Bool) : Mode :=
  match lead with
  | some high =>
    if 0xDC00 ≤ unit ∧ unit ≤ 0xDFFF then
      let code := 0x10000 + (high - 0xD800) * 0x400 + (unit - 0xDC00)
      .text .plain (Char.ofNat code :: content) sound
    else .text .plain content false
  | none =>
    if 0xD800 ≤ unit ∧ unit ≤ 0xDBFF then .text (.lead unit) content sound
    else if 0xDC00 ≤ unit ∧ unit ≤ 0xDFFF then .text .plain content false
    else .text .plain (Char.ofNat unit :: content) sound

/-- One character of a string that is not part of an escape. -/
def Mode.stepPlain (content : List Char) (sound : Bool) (c : Char) : List Token × Mode :=
  if c = '"' then
    ([.text (if sound then some (String.ofList content.reverse) else none)], .between)
  else if c = '\\' then ([], .text .escape content sound)
  else if c.toNat < 0x20 then
    ([.broken true .malformed .malformed], .stopped)
  else ([], .text .plain (c :: content) sound)

/-- The character after a backslash. -/
def Mode.stepEscape (content : List Char) (sound : Bool) (c : Char) : List Token × Mode :=
  if c = 'u' then ([], .text (.hex none 0 (some 0)) content sound)
  else
    match escape? c with
    | some d => ([], .text .plain (d :: content) sound)
    | none => Mode.malformed true

/-- One character inside a string. Four bytes are taken after `\u`, whatever they are. -/
def Mode.stepText (part : TextPart) (content : List Char) (sound : Bool) (c : Char) :
    List Token × Mode :=
  match part with
  | .plain => Mode.stepPlain content sound c
  | .escape => Mode.stepEscape content sound c
  | .hex lead seen value =>
    let seen := seen + c.utf8Size
    let value := do return (← value) * 16 + (← hexDigit? c)
    if seen < 4 then ([], .text (.hex lead seen value) content sound)
    else
      match value with
      | some unit => ([], Mode.pushUnit lead unit content sound)
      | none => Mode.malformed true
  | .lead code =>
    if c = '\\' then ([], .text (.leadEscape code) content sound)
    else Mode.stepPlain content false c
  | .leadEscape code =>
    if c = 'u' then ([], .text (.hex (some code) 0 (some 0)) content sound)
    else Mode.stepEscape content false c

/-- One character: the tokens it completes, and what is being read after it. -/
def Mode.step (mode : Mode) (c : Char) : List Token × Mode :=
  match mode with
  | .between => Mode.start c
  | .word [] token =>
    let (tokens, mode) := Mode.start c
    (token :: tokens, mode)
  | .word (d :: rest) token =>
    if c = d then
      match rest with
      | [] => ([token], .between)
      | _ :: _ => ([], .word rest token)
    else Mode.malformed false
  | .number part n negativeExponent => Mode.stepNumber part n negativeExponent c
  | .text part content sound => Mode.stepText part content sound c
  | .stopped => ([], .stopped)

/-- The tokens that the end of the text completes. Where a numeral lacks a digit, readers find the
text too short, while those who skip it call it malformed. -/
def Mode.finish : Mode → List Token
  | .between => []
  | .word [] token => [token]
  | .word _ _ => [.broken false .endOfText .endOfText]
  | .number part n _ =>
    match part with
    | .zero | .whole | .fraction | .exponent => [.number n]
    | .sign | .point | .mark | .markSign => [.broken false .endOfText .malformed]
  | .text _ _ sound => [.broken true (if sound then .endOfText else .malformed) .endOfText]
  | .stopped => []

/-- The tokens of the characters, read from a given mode on. -/
def lex : Mode → List Char → List Token
  | mode, [] => mode.finish
  | mode, c :: s =>
    let (tokens, mode) := mode.step c
    tokens ++ lex mode s

/-- The tokens of a text. -/
def tokenize (s : String) : List Token := lex .between s.toList

end ClientGen.Json
