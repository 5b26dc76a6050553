import ClientGen.Proofs.Json.Lexer
import ClientGen.Proofs.Number.Shortest

/-!
# The tokens of a written value

Written text read back, up to its tokens.

* `Number.reads_render`: the spelling of a number is one numeral, and the number is what it denotes.
  A numeral is only known to end by what follows it (`EndsNumeral`).
* `Value.lexes_of_fits` and `tokenize_compact`: the text of a value has the tokens of the value.
-/

namespace ClientGen.Json

open Mode (Reads)

/-! ## The spelling of numbers -/

theorem isDigit_of_mem_toDigits {n : ℕ} {c : Char} (h : c ∈ Nat.toDigits 10 n) : c.isDigit = true :=
  Nat.isDigit_of_mem_toDigits (by decide : 0 < 10) (by decide) h

theorem digitChar_ne_zero : ∀ n < 10, 0 < n → Nat.digitChar n ≠ '0' := by decide

/-- The digits of a number do not begin with a zero. -/
theorem toDigits_eq_cons (n : ℕ) (hn : 0 < n) : ∃ c s, Nat.toDigits 10 n = c :: s ∧ c ≠ '0' := by
  induction n using Nat.strongRecOn with
  | ind n ih =>
    rcases Nat.lt_or_ge n 10 with hlt | hge
    · exact ⟨_, [], Nat.toDigits_of_lt_base hlt, digitChar_ne_zero n hlt hn⟩
    · -- all but the last digit are those of `n / 10`
      obtain ⟨c, s, hs, hc⟩ := ih (n / 10) (by omega) (by omega)
      refine ⟨c, s ++ [Nat.digitChar (n % 10)], ?_, hc⟩
      rw [Nat.toDigits_of_base_le (by decide) hge, hs, List.cons_append]

theorem isWholePart_append {n : ℕ} (hn : 0 < n) {s : List Char} (hs : ∀ c ∈ s, c.isDigit = true) :
    IsWholePart (Nat.toDigits 10 n ++ s) := by
  obtain ⟨c, t, ht, hc⟩ := toDigits_eq_cons n hn
  have hdigits : ∀ x ∈ Nat.toDigits 10 n ++ s, x.isDigit = true := fun x hx =>
    (List.mem_append.mp hx).elim isDigit_of_mem_toDigits (hs x)
  rw [ht, List.cons_append] at hdigits ⊢
  exact .digits hc hdigits

theorem isWholePart_toDigits (n : ℕ) : IsWholePart (Nat.toDigits 10 n) := by
  rcases Nat.eq_zero_or_pos n with rfl | hn
  · exact .zero
  · simpa using isWholePart_append hn (List.forall_mem_nil _)

/-- The numeral that ends in this mode, if it ends here. -/
inductive Completes : Mode → Numeral → Prop
  | zero (n : Numeral) (b : Bool) : Completes (.number .zero n b) n
  | whole (n : Numeral) (b : Bool) : Completes (.number .whole n b) n
  | fraction (n : Numeral) (b : Bool) : Completes (.number .fraction n b) n
  | exponent (n : Numeral) (b : Bool) : Completes (.number .exponent n b) n

/-- The character does not continue a numeral. -/
def EndsNumeral (c : Char) : Prop := digit? c = none ∧ c ≠ '.' ∧ c ≠ 'e' ∧ c ≠ 'E'

theorem lex_of_completes {m : Mode} {n : Numeral} (h : Completes m n) {rest : List Char}
    (hrest : ∀ c ∈ rest.head?, EndsNumeral c) : lex m rest = .number n :: lex .between rest := by
  obtain _ | ⟨c, rest⟩ := rest
  · cases h <;> rfl
  · obtain ⟨hdigit, hpoint, he, hE⟩ := hrest c rfl
    have hstep : m.step c = Mode.endNumeral n c := by
      cases h <;> simp [Mode.step, Mode.stepNumber, Mode.afterDigits, hdigit, hpoint, he, hE]
    rw [lex, lex, hstep]
    rfl

/-- The numeral of a number that is no whole number: the sign, and the size as a rational. -/
structure Numeral.Spells (n : Numeral) (negative : Bool) (v : ℚ) : Prop where
  negative_eq : n.negative = negative
  whole_eq : n.whole = false
  value_eq : (n.digits : ℚ) * 10 ^ (n.exponent - n.scale) = v

theorem isDigit_of_mem_zeros {k : ℕ} {c : Char} (h : c ∈ List.replicate k '0') :
    c.isDigit = true := by
  rw [List.eq_of_mem_replicate h]
  rfl

/-- A text that reads as one numeral, which spells the number. -/
def IsSpelling (negative : Bool) (v : ℚ) (s : List Char) : Prop :=
  ∃ m n, Reads .between s [] m ∧ Completes m n ∧ n.Spells negative v

theorem isSpelling_fixed (negative : Bool) {s t : List Char} {v : ℚ} (hs : IsWholePart s)
    (ht : ∀ c ∈ t, c.isDigit = true) (hne : t ≠ [])
    (hv : (Nat.ofDigitChars 10 (s ++ t) 0 : ℚ) * 10 ^ (0 - t.length : ℤ) = v) :
    IsSpelling negative v (signChars negative ++ s ++ '.' :: t) :=
  ⟨_, _, reads_fixed negative hs ht hne, .fraction _ _, rfl, rfl, hv⟩

theorem signedExponent_natAbs (e : ℤ) :
    signedExponent (decide (e < 0)) (Nat.ofDigitChars 10 (Nat.toDigits 10 e.natAbs) 0) = e := by
  rw [Nat.ofDigitChars_ten_toDigits, signedExponent]
  by_cases h : e < 0
  · rw [if_pos (decide_eq_true h)]
    omega
  · rw [if_neg (by simpa using h)]
    omega

/-- One digit, more digits after a point if there are any, and an exponent. -/
theorem isSpelling_exponent (negative : Bool) {digits : ℕ} (hd : 0 < digits) (lead : ℤ) :
    IsSpelling negative (digits * 10 ^ (lead + 1 - Double.digitCount digits))
      (signChars negative ++ ((Nat.toDigits 10 digits).take 1 ++
        (if ((Nat.toDigits 10 digits).drop 1).isEmpty then []
          else '.' :: (Nat.toDigits 10 digits).drop 1)) ++
        'e' :: (if lead < 0 then '-' else '+') :: Nat.toDigits 10 lead.natAbs) := by
  obtain ⟨c, s, hs, hc⟩ := toDigits_eq_cons digits hd
  have hcount : (Double.digitCount digits : ℤ) = s.length + 1 := by
    rw [Double.digitCount, hs, List.length_cons, Nat.cast_succ]
  have hdigits : ∀ x ∈ c :: s, x.isDigit = true := fun x hx =>
    isDigit_of_mem_toDigits (n := digits) (hs ▸ hx)
  have hvalue : Nat.ofDigitChars 10 (c :: s) 0 = digits := hs ▸ Nat.ofDigitChars_ten_toDigits
  have hmark {part : NumeralPart} (hpart : part.IsWhole ∨ part = .fraction) {n : Numeral}
      (hn : n.exponent = 0) := reads_mark hpart hn (decide (lead < 0))
        (fun x => isDigit_of_mem_toDigits (n := lead.natAbs)) Nat.toDigits_ne_nil
  simp only [decide_eq_true_eq, signedExponent_natAbs] at hmark
  rw [hs, hcount]
  simp only [List.take_succ_cons, List.take_zero, List.drop_succ_cons, List.drop_zero]
  -- a single digit is written without a point
  obtain _ | ⟨d, s⟩ := s
  · obtain ⟨part, hpart, hreads⟩ := reads_wholePart negative (.digits hc hdigits)
    refine ⟨_, _, hreads.append (hmark (.inl hpart) rfl), .exponent _ _, rfl, rfl, ?_⟩
    rw [hvalue]
    simp
  · have hlead : IsWholePart [c] := .digits hc (by simpa using hdigits c List.mem_cons_self)
    have hfixed := reads_fixed negative hlead
      (fun x hx => hdigits x (List.mem_cons_of_mem c hx)) (List.cons_ne_nil d s)
    rw [← List.append_assoc]
    refine ⟨_, _, hfixed.append (hmark (.inr rfl) rfl), .exponent _ _, rfl, rfl, ?_⟩
    dsimp only
    rw [List.singleton_append, hvalue]
    congr 2
    ring

/-- All digits before the point, filled up with zeros. -/
theorem isSpelling_padded (negative : Bool) {digits : ℕ} (hd : 0 < digits) (k : ℕ) :
    IsSpelling negative (digits * 10 ^ (k : ℤ))
      (signChars negative ++ (Nat.toDigits 10 digits ++ List.replicate k '0') ++ ['.', '0']) := by
  refine isSpelling_fixed negative (isWholePart_append hd fun _ => isDigit_of_mem_zeros)
    (t := ['0']) (by simp) (by simp) ?_
  rw [Nat.ofDigitChars_append, Nat.ofDigitChars_append, Nat.ofDigitChars_ten_toDigits,
    Nat.ofDigitChars_replicate_zero]
  simp [Nat.ofDigitChars_cons]
  ring

/-- All digits after the point, behind zeros. -/
theorem isSpelling_leading (negative : Bool) (digits k : ℕ) :
    IsSpelling negative (digits * 10 ^ (-((k : ℤ) + Double.digitCount digits)))
      (signChars negative ++ ['0'] ++ '.' :: (List.replicate k '0' ++ Nat.toDigits 10 digits)) := by
  refine isSpelling_fixed negative .zero (fun c hc =>
    (List.mem_append.mp hc).elim isDigit_of_mem_zeros isDigit_of_mem_toDigits)
    (List.append_ne_nil_of_right_ne_nil _ Nat.toDigits_ne_nil) ?_
  rw [Nat.ofDigitChars_append, Nat.ofDigitChars_append, Nat.ofDigitChars_replicate_zero]
  simp [Nat.ofDigitChars_cons, Nat.ofDigitChars_ten_toDigits, Double.digitCount]

/-- Digits on both sides of the point. -/
theorem isSpelling_split (negative : Bool) {digits k : ℕ} (hd : 0 < digits) (hk : 0 < k)
    (hlt : k < Double.digitCount digits) :
    IsSpelling negative (digits * 10 ^ ((k : ℤ) - Double.digitCount digits))
      (signChars negative ++ (Nat.toDigits 10 digits).take k ++
        '.' :: (Nat.toDigits 10 digits).drop k) := by
  have hwhole : IsWholePart ((Nat.toDigits 10 digits).take k) := by
    obtain ⟨c, s, hs, hc⟩ := toDigits_eq_cons digits hd
    have hdigits : ∀ x ∈ (Nat.toDigits 10 digits).take k, x.isDigit = true := fun x hx =>
      isDigit_of_mem_toDigits (List.mem_of_mem_take hx)
    obtain _ | k := k
    · omega
    · rw [hs, List.take_succ_cons] at hdigits ⊢
      exact .digits hc hdigits
  refine isSpelling_fixed negative hwhole
    (fun x hx => isDigit_of_mem_toDigits (List.mem_of_mem_drop hx)) ?_ ?_
  · rwa [Ne, List.drop_eq_nil_iff, not_le]
  · rw [List.take_append_drop, Nat.ofDigitChars_ten_toDigits, List.length_drop]
    congr 2
    unfold Double.digitCount at hlt ⊢
    omega

/-- The spelling of a decimal, whichever layout it has. -/
theorem isSpelling_magnitude (negative : Bool) (d : Decimal) (hd : 0 < d.digits) :
    IsSpelling negative (d.digits * 10 ^ d.exponent)
      (signChars negative ++ (FloatFormat.json.magnitude d).toList) := by
  have hpos : 0 < Double.digitCount d.digits := Nat.length_toDigits_pos
  unfold FloatFormat.magnitude
  dsimp only
  rw [show ((Nat.toDigits 10 d.digits).length : ℤ) = Double.digitCount d.digits from rfl]
  -- `lead` is the power of ten of the first digit; it decides between the layouts
  generalize hlead : d.exponent + (Double.digitCount d.digits : ℤ) - 1 = lead
  split
  case isTrue =>
    have h := isSpelling_exponent negative hd lead
    rw [show lead + 1 - (Double.digitCount d.digits : ℤ) = d.exponent by omega] at h
    convert h using 1
    have hmark : (if lead < 0 then "e-" else FloatFormat.json.positiveMark).toList =
        ['e', if lead < 0 then '-' else '+'] := by
      split <;> rfl
    simp [hmark]
  case isFalse =>
    split
    case isTrue hexp =>
      have h := isSpelling_padded negative hd d.exponent.toNat
      rw [Int.toNat_of_nonneg hexp] at h
      simpa using h
    case isFalse hexp =>
      split
      case isTrue hneg =>
        have h := isSpelling_leading negative d.digits (-lead - 1).toNat
        rw [show -(((-lead - 1).toNat : ℤ) + Double.digitCount d.digits) = d.exponent by omega] at h
        simpa using h
      case isFalse hnonneg =>
        have h := isSpelling_split negative hd (k := (lead + 1).toNat) (by omega) (by omega)
        rw [show ((lead + 1).toNat : ℤ) - Double.digitCount d.digits = d.exponent by omega] at h
        simpa using h

/-- The numbers that are the value of some numeral. -/
def Number.Sound : Number → Prop
  | .whole n => -9223372036854775808 ≤ n ∧ n < 18446744073709551616
  | .real x => x.Canonical

theorem Number.sound_of_value? {n : Numeral} {v : Number} (h : n.value? = some v) : v.Sound := by
  unfold Numeral.value? at h
  split at h
  case isTrue hwhole =>
    cases h
    have hlt : n.digits < 18446744073709551616 := hwhole.2.2
    exact ⟨by omega, by exact_mod_cast hlt⟩
  case isFalse =>
    split at h
    case isTrue hwhole =>
      cases h
      exact ⟨by omega, by omega⟩
    case isFalse =>
      obtain ⟨x, hx, rfl⟩ := Option.map_eq_some_iff.mp h
      exact Double.canonical_of_ofDecimal? hx

/-- The numeral that a number is spelled as. -/
def Number.numeral (n : Number) : Numeral :=
  match tokenize n.render with
  | [.number m] => m
  | _ => default

theorem toList_toString (n : ℤ) :
    (toString n).toList = signChars (decide (n < 0)) ++ Nat.toDigits 10 n.natAbs := by
  cases n with
  | ofNat n =>
    change (Nat.repr n).toList = _
    rw [Nat.toList_repr]
    rfl
  | negSucc n =>
    change ("-" ++ Nat.repr (n + 1)).toList = _
    rw [String.toList_append, Nat.toList_repr, decide_eq_true (Int.negSucc_lt_zero n)]
    rfl

theorem value?_whole {n : ℤ} (h : Number.Sound (.whole n)) :
    Numeral.value? ⟨decide (n < 0), n.natAbs, 0, 0, true⟩ = some (.whole n) := by
  obtain ⟨hlow, hhigh⟩ := h
  unfold Numeral.value?
  by_cases hn : n < 0
  · have hpos : 0 < n.natAbs ∧ n.natAbs ≤ 9223372036854775808 := by omega
    rw [if_neg (by simp [hn]), if_pos ⟨rfl, by simpa using hn, hpos⟩]
    simp only [Option.some.injEq, Number.whole.injEq]
    omega
  · have hlt : n.natAbs < 18446744073709551616 := by omega
    rw [if_pos ⟨rfl, by simpa using hn, hlt⟩]
    simp only [Option.some.injEq, Number.whole.injEq]
    omega

theorem value?_of_spells {x : Double} (hx : x.Canonical) {n : Numeral} {v : ℚ}
    (hn : n.Spells x.negative v) (hv : if x.mantissa = 0 then v = 0 else 0 < v ∧ x.Takes v) :
    n.value? = some (.real x) := by
  unfold Numeral.value?
  rw [if_neg (by simp [hn.whole_eq]), if_neg (by simp [hn.whole_eq]), hn.negative_eq]
  suffices h : Double.ofDecimal? x.negative n.digits (n.exponent - n.scale) = some x by
    rw [h, Option.map_some]
  have hvalue := hn.value_eq
  -- zero has a double of its own for each sign; all other numbers are rounded
  split at hv
  case isTrue hm =>
    have hdigits : n.digits = 0 := by
      rw [hv] at hvalue
      exact_mod_cast (mul_eq_zero.mp hvalue).resolve_right (Double.ten_zpow_pos _).ne'
    have hexponent : x.exponent = Double.leastExponent := by
      have := hx.normal
      rw [hm] at this
      exact this.resolve_left (by norm_num)
    rw [Double.ofDecimal?, if_pos hdigits]
    cases x
    simp_all [Double.zero]
  case isFalse hm =>
    obtain ⟨hpos, htakes⟩ := hv
    rw [← hvalue] at hpos htakes
    refine Double.ofDecimal?_of_takes hx hm ?_ htakes
    exact_mod_cast (pos_iff_pos_of_mul_pos hpos).mpr (Double.ten_zpow_pos _)

/-- The spelling of a double spells a number that the double takes. -/
theorem exists_isSpelling_render {x : Double} (hx : x.Canonical) : ∃ v,
    (if x.mantissa = 0 then v = 0 else 0 < v ∧ x.Takes v) ∧
      IsSpelling x.negative v (FloatFormat.json.render x).toList := by
  have hsign : (if x.negative then "-" else "").toList = signChars x.negative := by
    cases x.negative <;> rfl
  unfold FloatFormat.render
  dsimp only
  split
  case isTrue =>
    have hvalue : (Nat.ofDigitChars 10 ['0', '0'] 0 : ℚ) * 10 ^ (0 - 1 : ℤ) = 0 := by
      simp [Nat.ofDigitChars_cons]
    refine ⟨0, rfl, ?_⟩
    rw [String.toList_append, hsign, show "0.0".toList = ['0'] ++ ['.', '0'] from rfl,
      ← List.append_assoc]
    exact isSpelling_fixed x.negative .zero (t := ['0']) (by simp) (by simp) hvalue
  case isFalse hm =>
    obtain ⟨hpos, htakes⟩ := Double.shortest_takes hx hm FloatFormat.json.tie
    refine ⟨_, ⟨?_, htakes⟩, ?_⟩
    · exact mul_pos (by exact_mod_cast hpos) (Double.ten_zpow_pos _)
    · rw [String.toList_append, hsign]
      exact isSpelling_magnitude x.negative _ hpos

/-- A number is spelled as one numeral, and has the value of that numeral. -/
theorem Number.exists_spelling {n : Number} (h : n.Sound) : ∃ m k,
    Reads .between n.render.toList [] m ∧ Completes m k ∧ k.value? = some n := by
  cases n with
  | whole n =>
    obtain ⟨part, hpart, hreads⟩ := reads_wholePart (decide (n < 0)) (isWholePart_toDigits n.natAbs)
    rw [Nat.ofDigitChars_ten_toDigits, ← toList_toString] at hreads
    refine ⟨_, _, hreads, ?_, value?_whole h⟩
    obtain rfl | rfl := hpart
    · exact .zero _ _
    · exact .whole _ _
  | real x =>
    obtain ⟨v, hv, m, k, hreads, hm, hk⟩ := exists_isSpelling_render h
    exact ⟨m, k, hreads, hm, value?_of_spells h hk hv⟩

theorem Number.reads_render {n : Number} (h : n.Sound) : ∃ m,
    Reads .between n.render.toList [] m ∧ Completes m n.numeral ∧ n.numeral.value? = some n := by
  obtain ⟨m, k, hreads, hm, hk⟩ := Number.exists_spelling h
  have htokens : tokenize n.render = [.number k] := by
    rw [tokenize, ← List.append_nil n.render.toList, hreads]
    exact lex_of_completes hm (by simp)
  have hnumeral : n.numeral = k := by
    rw [Number.numeral, htokens]
  exact ⟨m, hreads, hnumeral ▸ hm, hnumeral ▸ hk⟩

/-! ## Values -/

mutual

/-- The tokens of a value. -/
def Value.tokens : Value → List Token
  | .null => [.null]
  | .bool b => [.bool b]
  | .number n => [.number n.numeral]
  | .text s => [.text (some s)]
  | .array [] => [.openArray, .closeArray]
  | .array (v :: vs) => .openArray :: v.tokens ++ Value.itemTokens vs ++ [.closeArray]
  | .object [] => [.openObject, .closeObject]
  | .object ((k, v) :: ms) =>
    .openObject :: .text (some k) :: .colon :: v.tokens ++ Value.memberTokens ms ++ [.closeObject]
termination_by structural v => v

/-- The tokens of the items after the first, each with its comma. -/
def Value.itemTokens : List Value → List Token
  | [] => []
  | v :: vs => .comma :: v.tokens ++ Value.itemTokens vs
termination_by structural vs => vs

/-- The tokens of the members after the first, each with its comma. -/
def Value.memberTokens : List (String × Value) → List Token
  | [] => []
  | (k, v) :: ms => .comma :: .text (some k) :: .colon :: v.tokens ++ Value.memberTokens ms
termination_by structural ms => ms

end

/-- Every number in the value is sound, and no more than `room` arrays and objects are open inside
each other. -/
def Value.Fits : ℕ → Value → Prop
  | _, .null => True
  | _, .bool _ => True
  | _, .number n => n.Sound
  | _, .text _ => True
  | 0, .array _ => False
  | 0, .object _ => False
  | room + 1, .array vs => ∀ v ∈ vs, v.Fits room
  | room + 1, .object ms => ∀ m ∈ ms, m.2.Fits room

/-- What may follow a value: nothing, or a character that cannot continue it. -/
def EndsValue (rest : List Char) : Prop := ∀ c ∈ rest.head?, EndsNumeral c

theorem endsValue_cons {c : Char} (h : c = ',' ∨ c = ']' ∨ c = '}') (rest : List Char) :
    EndsValue (c :: rest) := by
  rintro _ ⟨⟩
  obtain rfl | rfl | rfl := h <;> exact ⟨rfl, by decide, by decide, by decide⟩

/-- The text of the value has its tokens, wherever the value may end. -/
def Value.Lexes (v : Value) : Prop :=
  ∀ rest, EndsValue rest → lex .between (v.compactChars ++ rest) = v.tokens ++ lex .between rest

theorem lex_compactItems {vs : List Value} (hvs : ∀ v ∈ vs, v.Lexes) (rest : List Char) :
    EndsValue (Value.compactItems vs ++ ']' :: rest) ∧
      lex .between (Value.compactItems vs ++ ']' :: rest) =
        Value.itemTokens vs ++ .closeArray :: lex .between rest := by
  induction vs with
  | nil => exact ⟨endsValue_cons (.inr (.inl rfl)) rest, rfl⟩
  | cons v vs ih =>
    obtain ⟨hends, hlex⟩ := ih fun w hw => hvs w (List.mem_cons_of_mem v hw)
    refine ⟨endsValue_cons (.inl rfl) _, ?_⟩
    simp only [Value.compactItems, Value.itemTokens, List.cons_append, List.append_assoc]
    change Token.comma :: lex .between _ = _
    rw [hvs v List.mem_cons_self _ hends, hlex]

theorem lex_compactMembers {ms : List (String × Value)} (hms : ∀ m ∈ ms, m.2.Lexes)
    (rest : List Char) :
    EndsValue (Value.compactMembers ms ++ '}' :: rest) ∧
      lex .between (Value.compactMembers ms ++ '}' :: rest) =
        Value.memberTokens ms ++ .closeObject :: lex .between rest := by
  induction ms with
  | nil => exact ⟨endsValue_cons (.inr (.inr rfl)) rest, rfl⟩
  | cons m ms ih =>
    obtain ⟨hends, hlex⟩ := ih fun w hw => hms w (List.mem_cons_of_mem m hw)
    obtain ⟨k, v⟩ := m
    refine ⟨endsValue_cons (.inl rfl) _, ?_⟩
    simp only [Value.compactMembers, Value.memberTokens, List.cons_append, List.append_assoc]
    change Token.comma :: lex .between _ = _
    rw [reads_quoteChars]
    change Token.comma :: Token.text (some k) :: Token.colon :: lex .between _ = _
    rw [hms (k, v) List.mem_cons_self _ hends, hlex]

theorem Value.lexes_of_fits : ∀ {room : ℕ} {v : Value}, v.Fits room → v.Lexes
  | _, .null, _ => fun _ _ => rfl
  | _, .bool true, _ => fun _ _ => rfl
  | _, .bool false, _ => fun _ _ => rfl
  | _, .text s, _ => fun rest _ => reads_quoteChars s rest
  | _, .number n, h => by
    intro rest hrest
    rw [Value.Fits] at h
    obtain ⟨m, hreads, hm, -⟩ := Number.reads_render h
    rw [Value.compactChars, hreads]
    exact lex_of_completes hm hrest
  | _ + 1, .array [], _ => fun _ _ => rfl
  | room + 1, .array (v :: vs), h => by
    intro rest _
    have hall : ∀ w ∈ v :: vs, w.Lexes := fun w hw => lexes_of_fits (h w hw)
    obtain ⟨hends, hlex⟩ := lex_compactItems (fun w hw => hall w (List.mem_cons_of_mem v hw)) rest
    simp only [Value.compactChars, Value.tokens, List.cons_append, List.append_assoc,
      List.nil_append]
    change Token.openArray :: lex .between _ = _
    rw [hall v List.mem_cons_self _ hends, hlex]
  | _ + 1, .object [], _ => fun _ _ => rfl
  | room + 1, .object ((k, v) :: ms), h => by
    intro rest _
    have hall : ∀ m ∈ (k, v) :: ms, m.2.Lexes := fun m hm => lexes_of_fits (h m hm)
    obtain ⟨hends, hlex⟩ :=
      lex_compactMembers (fun m hm => hall m (List.mem_cons_of_mem (k, v) hm)) rest
    simp only [Value.compactChars, Value.tokens, List.cons_append, List.append_assoc,
      List.nil_append]
    change Token.openObject :: lex .between _ = _
    rw [reads_quoteChars]
    change Token.openObject :: Token.text (some k) :: Token.colon :: lex .between _ = _
    rw [hall (k, v) List.mem_cons_self _ hends, hlex]

/-- A value that was written has its own tokens. -/
theorem tokenize_compact {room : ℕ} {v : Value} (h : v.Fits room) :
    tokenize v.compact = v.tokens := by
  have hlex := Value.lexes_of_fits h [] (by rintro _ ⟨⟩)
  rw [List.append_nil] at hlex
  rw [tokenize, Value.compact, String.toList_ofList, hlex]
  exact List.append_nil _

end ClientGen.Json
