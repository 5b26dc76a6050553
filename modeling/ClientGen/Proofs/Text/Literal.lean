import ClientGen.Proofs.Json.Lexer
import ClientGen.TypeScript.Name

/-!
# Reading string literals

A string is written as a literal with the escapes of JSON, whatever the language. What a literal
stands for is up to the language that reads it: `LiteralRules` says what a language takes after a
backslash, and what it takes as it is.

* **One character** (`readInside_escapeChar`): an escaped character is read as the character.
* **Literals** (`readLiteral?_quote`): a literal is read as the string it was written for, if the
  language takes the escapes of JSON, and as they are the characters that JSON does not escape.
-/

namespace ClientGen.Text

open Json (escapeChar quoteChars hexDigit hexDigit? hexDigit?_hexDigit)

/-- How a language reads what stands between the quotes of a literal. -/
structure LiteralRules where
  /-- what a letter after a backslash stands for -/
  escape? : Char → Option Char
  /-- may the character stand for itself? Quotes and backslashes never do. -/
  isPlain : Char → Bool

/-- The character with a code of four hexadecimal digits; none for half of a surrogate pair. -/
def ofHex? (a b c d : Char) : Option Char := do
  let code := (((← hexDigit? a) * 16 + (← hexDigit? b)) * 16 + (← hexDigit? c)) * 16 +
    (← hexDigit? d)
  if code.isValidChar then some (Char.ofNat code) else none

/-- Reads up to the closing quote, after which there must be nothing. -/
def readInside (rules : LiteralRules) : List Char → Option (List Char)
  | [] => none
  | c :: s =>
    if c = '"' then if s.isEmpty then some [] else none
    else if c = '\\' then
      match s with
      | [] => none
      | e :: s =>
        if e = 'u' then
          match s with
          | h₁ :: h₂ :: h₃ :: h₄ :: s =>
            (ofHex? h₁ h₂ h₃ h₄).bind fun c => (readInside rules s).map (c :: ·)
          | _ => none
        else (rules.escape? e).bind fun c => (readInside rules s).map (c :: ·)
    else if rules.isPlain c then (readInside rules s).map (c :: ·)
    else none

/-- The string that a literal stands for. -/
def readLiteral? (rules : LiteralRules) (literal : String) : Option String :=
  match literal.toList with
  | '"' :: s => (readInside rules s).map String.ofList
  | _ => none

/-- The language takes the escapes that strings are written with. -/
def LiteralRules.TakesEscapes (rules : LiteralRules) : Prop :=
  ∀ e c, Json.escape? e = some c → e ≠ '/' → rules.escape? e = some c

section

variable {rules : LiteralRules}

theorem readInside_plain {c : Char} (hquote : c ≠ '"') (hslash : c ≠ '\\')
    (hplain : rules.isPlain c = true) (s : List Char) :
    readInside rules (c :: s) = (readInside rules s).map (c :: ·) := by
  rw [readInside.eq_def]
  simp [hquote, hslash, hplain]

theorem readInside_escape {e c : Char} (hcode : e ≠ 'u') (he : rules.escape? e = some c)
    (s : List Char) : readInside rules ('\\' :: e :: s) = (readInside rules s).map (c :: ·) := by
  rw [readInside.eq_def]
  simp [hcode, he]

theorem readInside_code {h₁ h₂ h₃ h₄ c : Char} (hc : ofHex? h₁ h₂ h₃ h₄ = some c)
    (s : List Char) : readInside rules ('\\' :: 'u' :: h₁ :: h₂ :: h₃ :: h₄ :: s) =
      (readInside rules s).map (c :: ·) := by
  rw [readInside.eq_def]
  simp [hc]

theorem ofHex?_hexDigit {n : Nat} (hn : n < 32) :
    ofHex? '0' '0' (hexDigit (n / 16)) (hexDigit (n % 16)) = some (Char.ofNat n) := by
  have hzero : hexDigit? '0' = some 0 := rfl
  have hsum : n / 16 * 16 + n % 16 = n := by omega
  have hvalid : n.isValidChar := .inl (by omega)
  simp [ofHex?, hzero, hexDigit?_hexDigit (n / 16) (by omega),
    hexDigit?_hexDigit (n % 16) (by omega), hsum, hvalid]

/-- **One character**: escaped or not, it is read as itself. -/
theorem readInside_escapeChar (hrules : rules.TakesEscapes) {c : Char}
    (hplain : 0x20 ≤ c.toNat → rules.isPlain c = true) (s : List Char) :
    readInside rules (escapeChar c ++ s) = (readInside rules s).map (c :: ·) := by
  unfold escapeChar
  split
  case h_8 hquote hslash _ _ _ _ _ =>
    split
    case isTrue hlow =>
      have hhex := ofHex?_hexDigit hlow
      rw [Char.ofNat_toNat] at hhex
      exact readInside_code hhex s
    case isFalse hhigh => exact readInside_plain hquote hslash (hplain (by omega)) s
  all_goals exact readInside_escape (by decide) (hrules _ _ rfl (by decide)) s

/-- **A literal is read as the string it was written for**, by induction on the string. -/
theorem readInside_escaped (hrules : rules.TakesEscapes) {s : List Char}
    (hplain : ∀ c ∈ s, 0x20 ≤ c.toNat → rules.isPlain c = true) :
    readInside rules (s.flatMap escapeChar ++ ['"']) = some s := by
  induction s with
  | nil => rfl
  | cons c s ih =>
    obtain ⟨hc, hs⟩ := List.forall_mem_cons.mp hplain
    rw [List.flatMap_cons, List.append_assoc, readInside_escapeChar hrules hc, ih hs,
      Option.map_some]

theorem readLiteral?_quote (hrules : rules.TakesEscapes) {s : String}
    (hplain : ∀ c ∈ s.toList, 0x20 ≤ c.toNat → rules.isPlain c = true) :
    readLiteral? rules (Json.quote s) = some s := by
  have hinside := readInside_escaped hrules hplain
  rw [readLiteral?, Json.quote, String.toList_ofList, quoteChars]
  simp [hinside]

end

end ClientGen.Text

namespace ClientGen.TypeScript

open Text (LiteralRules readLiteral?)

/-- TypeScript takes the escapes of JSON, and everything as it is but the ends of lines. -/
def literalRules : LiteralRules where
  escape? := Json.escape?
  isPlain c := c ≠ '\n' && c ≠ '\r'

/-- **Literals are read as what they were written for.** -/
theorem readLiteral?_stringLiteral (s : String) :
    readLiteral? literalRules (stringLiteral s) = some s := by
  refine Text.readLiteral?_quote (fun e c he _ => he) fun c _ hc => ?_
  have hbreaks : c ≠ '\n' ∧ c ≠ '\r' := by
    refine ⟨?_, ?_⟩ <;> rintro rfl <;> exact absurd hc (by decide)
  simpa [literalRules] using hbreaks

end ClientGen.TypeScript
