import ClientGen.Proofs.Json.Value

/-!
# Values over several lines

White space between tokens does not count (`reads_spaces`). So the text of a value over several
lines has the tokens of the value (`Value.spreads_of_fits`), as its compact text has, and says the
same node, with whatever white space after it (`parse_pretty`).
-/

namespace ClientGen.Json

open Mode (Reads)

/-! ## White space -/

theorem reads_spaces {s : List Char} (h : ∀ c ∈ s, isSpace c = true) :
    Reads .between s [] .between := by
  induction s with
  | nil => exact .nil
  | cons c s ih =>
    obtain ⟨hc, hs⟩ := List.forall_mem_cons.mp h
    exact .silent .between (by simp [Mode.step, Mode.start, hc]) (ih hs)

theorem isSpace_of_mem_newLine {level : ℕ} {c : Char} (h : c ∈ newLine level) :
    isSpace c = true := by
  rcases List.mem_cons.mp h with rfl | h
  · rfl
  · rw [List.eq_of_mem_replicate h]
    rfl

/-- A line break is read over. -/
theorem lex_newLine (level : ℕ) (rest : List Char) :
    lex .between (newLine level ++ rest) = lex .between rest :=
  reads_spaces (fun _ => isSpace_of_mem_newLine) rest

/-- A value may end before a line break. -/
theorem endsValue_newLine (level : ℕ) (rest : List Char) : EndsValue (newLine level ++ rest) := by
  rintro _ ⟨⟩
  exact ⟨rfl, by decide, by decide, by decide⟩

/-! ## Values -/

/-- The text of the value over several lines has its tokens, wherever the value may end. -/
def Value.Spreads (v : Value) : Prop :=
  ∀ (level : ℕ) (rest : List Char), EndsValue rest →
    lex .between (v.prettyChars level ++ rest) = v.tokens ++ lex .between rest

theorem lex_prettyItems {vs : List Value} (hvs : ∀ v ∈ vs, v.Spreads) (level outer : ℕ)
    (rest : List Char) :
    EndsValue (Value.prettyItems vs level ++ (newLine outer ++ ']' :: rest)) ∧
      lex .between (Value.prettyItems vs level ++ (newLine outer ++ ']' :: rest)) =
        Value.itemTokens vs ++ .closeArray :: lex .between rest := by
  induction vs with
  | nil => exact ⟨endsValue_newLine outer _, lex_newLine outer _⟩
  | cons v vs ih =>
    obtain ⟨hends, hlex⟩ := ih fun w hw => hvs w (List.mem_cons_of_mem v hw)
    refine ⟨endsValue_cons (.inl rfl) _, ?_⟩
    simp only [Value.prettyItems, Value.itemTokens, List.cons_append, List.append_assoc]
    change Token.comma :: lex .between _ = _
    rw [lex_newLine, hvs v List.mem_cons_self level _ hends, hlex]

theorem lex_prettyMembers {ms : List (String × Value)} (hms : ∀ m ∈ ms, m.2.Spreads)
    (level outer : ℕ) (rest : List Char) :
    EndsValue (Value.prettyMembers ms level ++ (newLine outer ++ '}' :: rest)) ∧
      lex .between (Value.prettyMembers ms level ++ (newLine outer ++ '}' :: rest)) =
        Value.memberTokens ms ++ .closeObject :: lex .between rest := by
  induction ms with
  | nil => exact ⟨endsValue_newLine outer _, lex_newLine outer _⟩
  | cons m ms ih =>
    obtain ⟨hends, hlex⟩ := ih fun w hw => hms w (List.mem_cons_of_mem m hw)
    obtain ⟨k, v⟩ := m
    refine ⟨endsValue_cons (.inl rfl) _, ?_⟩
    simp only [Value.prettyMembers, Value.memberTokens, List.cons_append, List.append_assoc]
    change Token.comma :: lex .between _ = _
    rw [lex_newLine, reads_quoteChars]
    change Token.comma :: Token.text (some k) :: Token.colon ::
      lex .between (v.prettyChars level ++ _) = _
    rw [hms (k, v) List.mem_cons_self level _ hends, hlex]

theorem Value.spreads_of_fits : ∀ {room : ℕ} {v : Value}, v.Fits room → v.Spreads
  | _, .null, _ => fun _ _ _ => rfl
  | _, .bool true, _ => fun _ _ _ => rfl
  | _, .bool false, _ => fun _ _ _ => rfl
  | _, .text s, _ => fun _ rest _ => reads_quoteChars s rest
  | _, .number n, h => by
    intro _ rest hrest
    rw [Value.Fits] at h
    obtain ⟨m, hreads, hm, -⟩ := Number.reads_render h
    rw [Value.prettyChars, hreads]
    exact lex_of_completes hm hrest
  | _ + 1, .array [], _ => fun _ _ _ => rfl
  | room + 1, .array (v :: vs), h => by
    intro level rest _
    have hall : ∀ w ∈ v :: vs, w.Spreads := fun w hw => spreads_of_fits (h w hw)
    obtain ⟨hends, hlex⟩ :=
      lex_prettyItems (fun w hw => hall w (List.mem_cons_of_mem v hw)) (level + 1) level rest
    simp only [Value.prettyChars, Value.tokens, List.cons_append, List.append_assoc,
      List.nil_append]
    change Token.openArray :: lex .between _ = _
    rw [lex_newLine, hall v List.mem_cons_self _ _ hends, hlex]
  | _ + 1, .object [], _ => fun _ _ _ => rfl
  | room + 1, .object ((k, v) :: ms), h => by
    intro level rest _
    have hall : ∀ m ∈ (k, v) :: ms, m.2.Spreads := fun m hm => spreads_of_fits (h m hm)
    obtain ⟨hends, hlex⟩ :=
      lex_prettyMembers (fun m hm => hall m (List.mem_cons_of_mem (k, v) hm)) (level + 1) level rest
    simp only [Value.prettyChars, Value.tokens, List.cons_append, List.append_assoc,
      List.nil_append]
    change Token.openObject :: lex .between _ = _
    rw [lex_newLine, reads_quoteChars]
    change Token.openObject :: Token.text (some k) :: Token.colon ::
      lex .between (v.prettyChars (level + 1) ++ _) = _
    rw [hall (k, v) List.mem_cons_self _ _ hends, hlex]

/-- **The text of a value over several lines** says its node, and nothing but white space may stand
after it. -/
theorem parse_pretty {room : ℕ} {v : Value} (h : v.Fits room) {blank : String}
    (hblank : ∀ c ∈ blank.toList, isSpace c = true) :
    parse (v.pretty ++ blank) = (v.node, []) := by
  have hends : EndsValue blank.toList := by
    intro c hc
    have hspace := hblank c (List.mem_of_mem_head? hc)
    simp only [isSpace, Bool.or_eq_true, decide_eq_true_eq] at hspace
    rcases hspace with ((rfl | rfl) | rfl) | rfl <;> exact ⟨rfl, by decide, by decide, by decide⟩
  have htokens : tokenize (v.pretty ++ blank) = v.tokens := by
    have hrest := reads_spaces hblank []
    rw [List.append_nil] at hrest
    rw [tokenize, String.toList_append, Value.pretty, String.toList_ofList,
      Value.spreads_of_fits h 0 _ hends, hrest]
    exact List.append_nil _
  have hbuild := build_tokens v [] []
  rw [List.append_nil] at hbuild
  rw [parse, htokens, hbuild]
  rfl

end ClientGen.Json
