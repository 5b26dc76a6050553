import ClientGen.CSharp.Name
import ClientGen.Proofs.Text.Literal
import Mathlib.Data.Bool.AllAny

/-!
# String literals of C#

A literal of C# ends with its line, and C# knows five characters that end a line. The escapes of
JSON cover two of them, `\n` and `\r`. The other three (`rawBreaks`) are written as they are.

* **Quotes** (`isQuoted_stringLiteral`): a literal has no quote but the ones around it. A scan that
  skips what follows a backslash counts two.
* **Lines** (`mem_stringLiteral_iff`): the characters that end a line in a literal are those of
  `rawBreaks` in the string.
* **Values** (`readLiteral?_stringLiteral_acrossLines`): ends of lines apart, a literal is read as
  the string it was written for.

So a literal is one of C# exactly if the string has none of `rawBreaks` (`stringLiteral_denotes`),
and there are strings without a literal (`not_denotes_separator`).
-/

namespace ClientGen.CSharp

open Json (escapeChar quoteChars hexDigit)
open Text (LiteralRules readLiteral?)

/-! ## The language -/

/-- The characters that end a line. -/
def lineBreaks : List Char := ['\n', '\r', '\x85', '\u2028', '\u2029']

/-- What a letter after a backslash stands for. -/
def simpleEscape? : Char → Option Char
  | '\x27' => some '\x27'
  | '"' => some '"'
  | '\\' => some '\\'
  | '0' => some '\x00'
  | 'a' => some '\x07'
  | 'b' => some '\x08'
  | 'f' => some '\x0c'
  | 'n' => some '\n'
  | 'r' => some '\r'
  | 't' => some '\t'
  | 'v' => some '\x0b'
  | _ => none

/-- C# takes everything as it is but the ends of lines. Of the escapes by number there is only `\u`
here, since no literal is written with another. -/
def literalRules : LiteralRules where
  escape? := simpleEscape?
  isPlain c := c ∉ lineBreaks

/-- The same, if lines did not matter. -/
def acrossLines : LiteralRules := { literalRules with isPlain := fun _ => true }

/-- The number of quotes that do not stand after a backslash. -/
def bareQuotes : (escaped : Bool) → List Char → Nat
  | _, [] => 0
  | true, _ :: s => bareQuotes false s
  | false, c :: s =>
    if c = '\\' then bareQuotes true s
    else if c = '"' then bareQuotes false s + 1
    else bareQuotes false s

/-- A text in quotes, with no other quote in it. -/
structure IsQuoted (literal : String) : Prop where
  opened : literal.toList.head? = some '"'
  closed : literal.toList.getLast? = some '"'
  quotes : bareQuotes false literal.toList = 2

/-- A literal for a string. -/
structure Denotes (literal s : String) : Prop extends IsQuoted literal where
  oneLine : ∀ c ∈ literal.toList, c ∉ lineBreaks
  value : readLiteral? literalRules literal = some s

/-! ## Quotes -/

/-- **One character** has no bare quote, and does not escape what comes after it. -/
theorem bareQuotes_escapeChar (c : Char) (s : List Char) :
    bareQuotes false (escapeChar c ++ s) = bareQuotes false s := by
  unfold escapeChar
  split
  case h_8 hquote hslash _ _ _ _ _ =>
    split
    case isTrue hlow =>
      have hdigit : ∀ n < 16, hexDigit n ≠ '\\' ∧ hexDigit n ≠ '"' := by decide
      have hhigh := hdigit (c.toNat / 16) (by omega)
      have hrest := hdigit (c.toNat % 16) (by omega)
      simp [bareQuotes, hhigh, hrest]
    case isFalse => simp [bareQuotes, if_neg hquote, if_neg hslash]
  all_goals rfl

theorem bareQuotes_escaped (s : List Char) :
    bareQuotes false (s.flatMap escapeChar ++ ['"']) = 1 := by
  induction s with
  | nil => rfl
  | cons c s ih => rw [List.flatMap_cons, List.append_assoc, bareQuotes_escapeChar, ih]

theorem toList_stringLiteral (s : String) :
    (stringLiteral s).toList = '"' :: (s.toList.flatMap escapeChar ++ ['"']) := by
  rw [stringLiteral, Json.quote, String.toList_ofList]
  rfl

theorem isQuoted_stringLiteral (s : String) : IsQuoted (stringLiteral s) where
  opened := by rw [toList_stringLiteral, List.head?_cons]
  closed := by simp [toList_stringLiteral, List.getLast?_cons]
  quotes := by simp [toList_stringLiteral, bareQuotes, bareQuotes_escaped]

/-! ## Lines -/

/-- The ends of lines that are not escaped. -/
def rawBreaks : List Char := ['\x85', '\u2028', '\u2029']

theorem mem_rawBreaks_iff {c : Char} : c ∈ rawBreaks ↔ c ∈ lineBreaks ∧ 0x20 ≤ c.toNat := by
  constructor
  · intro h
    simp only [rawBreaks, List.mem_cons, List.not_mem_nil, or_false] at h
    rcases h with rfl | rfl | rfl <;> decide
  · rintro ⟨h, hhigh⟩
    simp only [lineBreaks, List.mem_cons, List.not_mem_nil, or_false] at h
    rcases h with rfl | rfl | rfl | rfl | rfl <;> revert hhigh <;> decide

/-- **One character** stays as it is, or it is written with no end of a line. -/
theorem escapeChar_cases (c : Char) :
    (escapeChar c = [c] ∧ 0x20 ≤ c.toNat) ∨
      ((∀ b ∈ escapeChar c, b ∉ lineBreaks) ∧ c ∉ rawBreaks) := by
  unfold escapeChar
  split
  case h_8 =>
    split
    case isTrue hlow =>
      have hdigit : ∀ n < 16, hexDigit n ∉ lineBreaks := by decide
      refine .inr ⟨?_, fun hc => absurd (mem_rawBreaks_iff.mp hc).2 (by omega)⟩
      simp only [List.forall_mem_cons]
      exact ⟨by decide, by decide, by decide, by decide, hdigit _ (by omega), hdigit _ (by omega),
        by simp⟩
    case isFalse hhigh => exact .inl ⟨rfl, by omega⟩
  all_goals exact .inr (by simp [lineBreaks, rawBreaks])

theorem mem_escapeChar_iff {b : Char} (hb : b ∈ lineBreaks) (c : Char) :
    b ∈ escapeChar c ↔ b = c ∧ c ∈ rawBreaks := by
  rcases escapeChar_cases c with ⟨hself, hhigh⟩ | ⟨hnone, hraw⟩
  · rw [hself, List.mem_singleton]
    constructor
    · rintro rfl
      exact ⟨rfl, mem_rawBreaks_iff.mpr ⟨hb, hhigh⟩⟩
    · exact And.left
  · exact ⟨fun h => absurd hb (hnone b h), fun h => absurd h.2 hraw⟩

theorem mem_stringLiteral_iff {b : Char} (hb : b ∈ lineBreaks) (s : String) :
    b ∈ (stringLiteral s).toList ↔ b ∈ s.toList ∧ b ∈ rawBreaks := by
  have hquote : b ≠ '"' := by
    rintro rfl
    exact absurd hb (by decide)
  simp only [toList_stringLiteral, List.mem_cons, List.mem_append, List.mem_flatMap,
    List.not_mem_nil, or_false, hquote, false_or, mem_escapeChar_iff hb]
  constructor
  · rintro ⟨c, hc, rfl, hraw⟩
    exact ⟨hc, hraw⟩
  · rintro ⟨hmem, hraw⟩
    exact ⟨b, hmem, rfl, hraw⟩

/-! ## Values -/

theorem simpleEscape?_of_escape? {e c : Char} (h : Json.escape? e = some c) (hslash : e ≠ '/') :
    simpleEscape? e = some c := by
  unfold Json.escape? at h
  split at h
  case h_3 => exact absurd rfl hslash
  case h_9 => cases h
  all_goals exact h

theorem readLiteral?_stringLiteral_acrossLines (s : String) :
    readLiteral? acrossLines (stringLiteral s) = some s :=
  Text.readLiteral?_quote (fun _ _ => simpleEscape?_of_escape?) fun _ _ _ => rfl

/-! ## Literals -/

theorem denotes_stringLiteral {s : String} (h : ∀ c ∈ s.toList, c ∉ rawBreaks) :
    Denotes (stringLiteral s) s where
  toIsQuoted := isQuoted_stringLiteral s
  oneLine c hc hbreak := by
    obtain ⟨hmem, hraw⟩ := (mem_stringLiteral_iff hbreak s).mp hc
    exact h c hmem hraw
  value := by
    refine Text.readLiteral?_quote (fun _ _ => simpleEscape?_of_escape?) fun c hc hhigh => ?_
    exact decide_eq_true fun hbreak => h c hc (mem_rawBreaks_iff.mpr ⟨hbreak, hhigh⟩)

/-- **Literals denote their strings, lines apart.** The literal of a string is in quotes, has no
other bare quote, and is read as the string if ends of lines are taken as they are. The ends of
lines in it are those of the string that are not escaped; so it is a literal for the string exactly
if the string has none of these. -/
theorem stringLiteral_denotes (s : String) :
    IsQuoted (stringLiteral s) ∧
      readLiteral? acrossLines (stringLiteral s) = some s ∧
      (∀ b ∈ lineBreaks, b ∈ (stringLiteral s).toList ↔ b ∈ s.toList ∧ b ∈ rawBreaks) ∧
      (Denotes (stringLiteral s) s ↔ ∀ c ∈ s.toList, c ∉ rawBreaks) := by
  refine ⟨isQuoted_stringLiteral s, readLiteral?_stringLiteral_acrossLines s,
    fun b hb => mem_stringLiteral_iff hb s, fun h c hc hraw => ?_, denotes_stringLiteral⟩
  have hbreak := (mem_rawBreaks_iff.mp hraw).1
  exact h.oneLine c ((mem_stringLiteral_iff hbreak s).mpr ⟨hc, hraw⟩) hbreak

/-- A quote, a backslash, a line feed and a control character, each escaped. -/
theorem stringLiteral_denotes_escapes :
    stringLiteral "\"\\\n\x01é" = "\"\\\"\\\\\\n\\u0001é\"" ∧
      '\n' ∈ lineBreaks ∧ '\n' ∉ (stringLiteral "\"\\\n\x01é").toList ∧
      Denotes (stringLiteral "\"\\\n\x01é") "\"\\\n\x01é" := by
  obtain ⟨-, -, hlines, hdenotes⟩ := stringLiteral_denotes "\"\\\n\x01é"
  have hmem : '\n' ∈ lineBreaks := by decide
  refine ⟨by decide, hmem, fun h => ?_, hdenotes.mpr (List.all_iff_forall_prop.mp (by decide))⟩
  exact absurd ((hlines '\n' hmem).mp h).2 (by decide)

/-- **Not every string has a literal**: a line separator is written as it is, and ends the line. -/
theorem not_denotes_separator : ¬ Denotes (stringLiteral "a\u2028b") "a\u2028b" := by
  intro h
  exact h.oneLine '\u2028' (by decide) (by decide)

end ClientGen.CSharp
