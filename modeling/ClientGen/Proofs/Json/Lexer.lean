import Mathlib.Tactic.IntervalCases
import ClientGen.Json.Value

/-!
# What pieces of text do to the lexer

* `Mode.Reads`: what a piece of text does to the mode, whatever follows it. Pieces are put together
  with `Reads.append`, so each part of the format has one lemma of its own.
* `reads_quoteChars`: a string in quotes is one token with that string as its content.
* `reads_wholePart`, `reads_fixed` and `reads_mark`: the parts of numerals, with the number that
  they add up to.
-/

namespace ClientGen.Json

/-- From mode `m` on, the text completes the tokens and leaves mode `m'`, whatever follows. -/
def Mode.Reads (m : Mode) (s : List Char) (tokens : List Token) (m' : Mode) : Prop :=
  ∀ rest, lex m (s ++ rest) = tokens ++ lex m' rest

namespace Mode.Reads

variable {m m' m'' : Mode} {c : Char} {s s' : List Char} {tokens tokens' : List Token}

theorem nil : m.Reads [] [] m := fun _ => rfl

theorem cons (h : m.step c = (tokens, m')) (h' : m'.Reads s tokens' m'') :
    m.Reads (c :: s) (tokens ++ tokens') m'' := by
  intro rest
  rw [List.cons_append, lex, h]
  dsimp only
  rw [h', List.append_assoc]

theorem append (h : m.Reads s tokens m') (h' : m'.Reads s' tokens' m'') :
    m.Reads (s ++ s') (tokens ++ tokens') m'' := by
  intro rest
  rw [List.append_assoc, h, h', List.append_assoc]

theorem single (h : m.step c = (tokens, m')) : m.Reads [c] tokens m' := by
  intro rest
  rw [List.singleton_append, lex, h]

/-- A character that completes no token. -/
theorem silent (m' : Mode) (h : m.step c = ([], m')) (h' : m'.Reads s tokens m'') :
    m.Reads (c :: s) tokens m'' := cons h h'

end Mode.Reads

open Mode (Reads)

/-! ## Strings -/

theorem hexDigit?_hexDigit : ∀ n < 16, hexDigit? (hexDigit n) = some n := by decide

theorem utf8Size_hexDigit : ∀ n < 16, (hexDigit n).utf8Size = 1 := by decide

/-- Four hexadecimal digits, of which only the last two count. -/
theorem reads_hex {n : ℕ} (hn : n < 32) (content : List Char) :
    Reads (.text (.hex none 0 (some 0)) content true)
      ['0', '0', hexDigit (n / 16), hexDigit (n % 16)] []
      (.text .plain (Char.ofNat n :: content) true) := by
  have hhigh := hexDigit?_hexDigit (n / 16) (by omega)
  have hlow := hexDigit?_hexDigit (n % 16) (by omega)
  have hsum : n / 16 * 16 + n % 16 = n := by omega
  refine .silent (.text (.hex none 1 (some 0)) content true) (by rfl) ?_
  refine .silent (.text (.hex none 2 (some 0)) content true) (by rfl) ?_
  -- a control character is below 32, so its code unit is never half of a pair
  refine .silent (.text (.hex none 3 (some (n / 16))) content true) ?_ ?_
  · simp [Mode.step, Mode.stepText, hhigh, utf8Size_hexDigit (n / 16) (by omega)]
  refine .single ?_
  have hunit : Mode.pushUnit none n content true = .text .plain (Char.ofNat n :: content) true := by
    unfold Mode.pushUnit
    rw [if_neg (by omega), if_neg (by omega)]
  simp [Mode.step, Mode.stepText, hlow, utf8Size_hexDigit (n % 16) (by omega), hsum, hunit]

theorem reads_escapeChar (c : Char) (content : List Char) :
    Reads (.text .plain content true) (escapeChar c) [] (.text .plain (c :: content) true) := by
  unfold escapeChar
  split
  case h_8 hquote hslash _ _ _ _ _ =>
    split
    case isTrue hlow =>
      refine .silent (.text .escape content true) (by rfl) ?_
      refine .silent (.text (.hex none 0 (some 0)) content true) (by rfl) ?_
      have := reads_hex hlow content
      rwa [Char.ofNat_toNat] at this
    case isFalse hhigh =>
      refine .single ?_
      rw [Mode.step, Mode.stepText, Mode.stepPlain, if_neg hquote, if_neg hslash, if_neg hhigh]
  all_goals exact .silent (.text .escape content true) (by rfl) (.single (by rfl))

theorem reads_escaped (s content : List Char) :
    Reads (.text .plain content true) (s.flatMap escapeChar) []
      (.text .plain (s.reverse ++ content) true) := by
  induction s generalizing content with
  | nil => exact .nil
  | cons c s ih =>
    rw [List.flatMap_cons, List.reverse_cons, List.append_assoc]
    exact (reads_escapeChar c content).append (ih (c :: content))

theorem reads_quoteChars (s : String) :
    Reads .between (quoteChars s.toList) [.text (some s)] .between := by
  refine .silent (.text .plain [] true) (by rfl) ?_
  refine (reads_escaped s.toList []).append (.single ?_)
  simp [Mode.step, Mode.stepText, Mode.stepPlain]

/-! ## Numerals -/

theorem digit?_of_isDigit {c : Char} (h : c.isDigit = true) :
    digit? c = some (c.toNat - '0'.toNat) := by
  have h' : '0' ≤ c ∧ c ≤ '9' := by
    rw [Char.isDigit, Bool.and_eq_true, decide_eq_true_eq, decide_eq_true_eq] at h
    exact h
  rw [digit?, if_pos h']

/-- Digits before the point. -/
theorem reads_whole (n : Numeral) {s : List Char} (hs : ∀ c ∈ s, c.isDigit = true) :
    Reads (.number .whole n false) s []
      (.number .whole { n with digits := Nat.ofDigitChars 10 s n.digits } false) := by
  induction s generalizing n with
  | nil => exact .nil
  | cons c s ih =>
    rw [Nat.ofDigitChars_cons, Nat.mul_comm]
    refine .silent _ ?_ (ih { n with digits := n.digits * 10 + (c.toNat - '0'.toNat) }
      fun x hx => hs x (List.mem_cons_of_mem c hx))
    simp only [Mode.step, Mode.stepNumber, digit?_of_isDigit (hs c List.mem_cons_self)]

/-- Digits after the point and a first digit. -/
theorem reads_fraction (n : Numeral) {s : List Char} (hs : ∀ c ∈ s, c.isDigit = true) :
    Reads (.number .fraction n false) s []
      (.number .fraction { n with
        digits := Nat.ofDigitChars 10 s n.digits, scale := n.scale + s.length } false) := by
  induction s generalizing n with
  | nil => exact .nil
  | cons c s ih =>
    rw [Nat.ofDigitChars_cons, Nat.mul_comm, List.length_cons, Nat.add_comm s.length,
      ← Nat.add_assoc]
    refine .silent _ ?_ (ih { n with
      digits := n.digits * 10 + (c.toNat - '0'.toNat), scale := n.scale + 1 }
      fun x hx => hs x (List.mem_cons_of_mem c hx))
    simp only [Mode.step, Mode.stepNumber, digit?_of_isDigit (hs c List.mem_cons_self)]

/-- The digits after the point. -/
theorem reads_point (n : Numeral) {s : List Char} (hs : ∀ c ∈ s, c.isDigit = true) (hne : s ≠ []) :
    Reads (.number .point n false) s []
      (.number .fraction { n with
        digits := Nat.ofDigitChars 10 s n.digits, scale := s.length } false) := by
  obtain _ | ⟨c, s⟩ := s
  · exact absurd rfl hne
  · rw [Nat.ofDigitChars_cons, Nat.mul_comm, List.length_cons, Nat.add_comm s.length]
    refine .silent _ ?_ (reads_fraction { n with
      digits := n.digits * 10 + (c.toNat - '0'.toNat), scale := 1 }
      fun x hx => hs x (List.mem_cons_of_mem c hx))
    simp only [Mode.step, Mode.stepNumber, digit?_of_isDigit (hs c List.mem_cons_self)]

/-- An exponent from its size and sign. -/
def signedExponent (negative : Bool) (size : ℕ) : ℤ := if negative then -size else size

theorem natAbs_signedExponent (negative : Bool) (size : ℕ) :
    (signedExponent negative size).natAbs = size := by
  cases negative <;> simp [signedExponent]

/-- The digits of the exponent after the first. -/
theorem reads_exponent (n : Numeral) (negative : Bool) {s : List Char}
    (hs : ∀ c ∈ s, c.isDigit = true) (size : ℕ) :
    Reads (.number .exponent { n with exponent := signedExponent negative size } negative) s []
      (.number .exponent { n with
        exponent := signedExponent negative (Nat.ofDigitChars 10 s size) } negative) := by
  induction s generalizing size with
  | nil => exact .nil
  | cons c s ih =>
    rw [Nat.ofDigitChars_cons, Nat.mul_comm]
    refine .silent _ ?_ (ih (fun x hx => hs x (List.mem_cons_of_mem c hx))
      (size * 10 + (c.toNat - '0'.toNat)))
    simp only [Mode.step, Mode.stepNumber, digit?_of_isDigit (hs c List.mem_cons_self),
      Numeral.pushExponent, natAbs_signedExponent]
    rfl

/-- The digits of the exponent after its sign. -/
theorem reads_markSign (n : Numeral) (negative : Bool) {s : List Char}
    (hs : ∀ c ∈ s, c.isDigit = true) (hne : s ≠ []) (hn : n.exponent = 0) :
    Reads (.number .markSign n negative) s []
      (.number .exponent { n with
        exponent := signedExponent negative (Nat.ofDigitChars 10 s 0) } negative) := by
  obtain _ | ⟨c, s⟩ := s
  · exact absurd rfl hne
  · rw [Nat.ofDigitChars_cons, Nat.mul_comm]
    refine .silent _ ?_ (reads_exponent n negative (fun x hx => hs x (List.mem_cons_of_mem c hx))
      (0 * 10 + (c.toNat - '0'.toNat)))
    simp only [Mode.step, Mode.stepNumber, digit?_of_isDigit (hs c List.mem_cons_self),
      Numeral.pushExponent, hn]
    rfl

/-- The digits before the point: a lone zero, or digits that do not begin with one. -/
inductive IsWholePart : List Char → Prop
  | zero : IsWholePart ['0']
  | digits {c : Char} {s : List Char} (hc : c ≠ '0') (hs : ∀ x ∈ c :: s, x.isDigit = true) :
    IsWholePart (c :: s)

theorem exists_of_isDigit {c : Char} (h : c.isDigit = true) :
    ∃ k < 10, c = Char.ofNat (48 + k) := by
  rw [Char.isDigit, Bool.and_eq_true, decide_eq_true_eq, decide_eq_true_eq] at h
  have hlow : 48 ≤ c.toNat := h.1
  have hhigh : c.toNat ≤ 57 := h.2
  refine ⟨c.toNat - 48, by omega, ?_⟩
  rw [Nat.add_sub_of_le hlow, Char.ofNat_toNat]

/-- A digit other than zero begins a numeral, without a sign before it or with one. -/
theorem step_firstDigit {c : Char} (hc : c ≠ '0') (h : c.isDigit = true) :
    Mode.between.step c = ([], .number .whole ⟨false, c.toNat - '0'.toNat, 0, 0, true⟩ false) ∧
      Mode.step (.number .sign ⟨true, 0, 0, 0, true⟩ false) c =
        ([], .number .whole ⟨true, c.toNat - '0'.toNat, 0, 0, true⟩ false) := by
  -- a digit is one of ten characters, and the mode after each of them can be computed
  obtain ⟨k, hk, rfl⟩ := exists_of_isDigit h
  interval_cases k
  · exact absurd rfl hc
  all_goals exact ⟨rfl, rfl⟩

/-- The sign of a number. -/
def signChars (negative : Bool) : List Char := if negative then ['-'] else []

/-- The parts of a numeral that may be followed by a point. -/
def NumeralPart.IsWhole (part : NumeralPart) : Prop := part = .zero ∨ part = .whole

theorem reads_wholePart (negative : Bool) {s : List Char} (h : IsWholePart s) :
    ∃ part : NumeralPart, part.IsWhole ∧
      Reads .between (signChars negative ++ s) []
        (.number part ⟨negative, Nat.ofDigitChars 10 s 0, 0, 0, true⟩ false) := by
  cases h with
  | zero =>
    refine ⟨.zero, .inl rfl, ?_⟩
    cases negative with
    | false => exact .single rfl
    | true => exact .silent (.number .sign ⟨true, 0, 0, 0, true⟩ false) rfl (.single rfl)
  | @digits c s hc hs =>
    obtain ⟨hplain, hsign⟩ := step_firstDigit hc (hs c List.mem_cons_self)
    have hrest := fun x hx => hs x (List.mem_cons_of_mem c hx)
    refine ⟨.whole, .inr rfl, ?_⟩
    rw [Nat.ofDigitChars_cons, Nat.mul_zero, Nat.zero_add]
    cases negative with
    | false => exact .silent _ hplain (reads_whole _ hrest)
    | true =>
      exact .silent (.number .sign ⟨true, 0, 0, 0, true⟩ false) rfl
        (.silent _ hsign (reads_whole _ hrest))

/-- Digits on both sides of a point. -/
theorem reads_fixed (negative : Bool) {s t : List Char} (hs : IsWholePart s)
    (ht : ∀ c ∈ t, c.isDigit = true) (hne : t ≠ []) :
    Reads .between (signChars negative ++ s ++ '.' :: t) []
      (.number .fraction ⟨negative, Nat.ofDigitChars 10 (s ++ t) 0, t.length, 0, false⟩ false) := by
  obtain ⟨part, hpart, hreads⟩ := reads_wholePart negative hs
  rw [Nat.ofDigitChars_append]
  refine hreads.append (.silent (.number .point
    ⟨negative, Nat.ofDigitChars 10 s 0, 0, 0, false⟩ false) ?_ (reads_point _ ht hne))
  obtain rfl | rfl := hpart <;> rfl

/-- A mark with its sign and the digits of the exponent. -/
theorem reads_mark {part : NumeralPart} (hpart : part.IsWhole ∨ part = .fraction) {n : Numeral}
    (hn : n.exponent = 0) (negative : Bool) {s : List Char} (hs : ∀ c ∈ s, c.isDigit = true)
    (hne : s ≠ []) :
    Reads (.number part n false) ('e' :: (if negative then '-' else '+') :: s) []
      (.number .exponent { n with
        whole := false, exponent := signedExponent negative (Nat.ofDigitChars 10 s 0) }
        negative) := by
  refine .silent (.number .mark { n with whole := false } false) ?_ ?_
  · obtain (rfl | rfl) | rfl := hpart <;> rfl
  · refine .silent (.number .markSign { n with whole := false } negative) ?_
      (reads_markSign _ negative hs hne hn)
    cases negative <;> rfl

end ClientGen.Json
