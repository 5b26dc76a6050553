import ClientGen.CSharp.CodeBlock

/-!
# The lines of code

Writing code adds lines after those that are there and leaves the depth as it was
(`CodeBlock.add_eq`). Which lines these are depends on the depth alone, and only through their
indentation; behind it the text of a line is found again (`bareText_indentation`).
-/

namespace ClientGen.CSharp

mutual

/-- The lines of code at a depth. -/
def Code.linesAt : Code → (depth : Nat) → List String
  | .line text, depth => [indentation depth ++ text]
  | .block heading body closing, depth =>
    [indentation depth ++ heading, indentation depth ++ openBrace] ++
      Code.allLinesAt body (depth + 1) ++ [indentation depth ++ closing]
termination_by structural code => code

/-- The lines of pieces of code at a depth. -/
def Code.allLinesAt : List Code → (depth : Nat) → List String
  | [], _ => []
  | code :: codes, depth => code.linesAt depth ++ Code.allLinesAt codes depth
termination_by structural codes => codes

end

mutual

/-- **Writing adds lines** at the depth that is there, and keeps it. -/
theorem CodeBlock.add_eq : ∀ (code : Code) (b : CodeBlock),
    CodeBlock.add code b = ⟨b.lines ++ code.linesAt b.depth, b.depth⟩
  | .line text, b => by simp [CodeBlock.add, CodeBlock.line, Code.linesAt]
  | .block heading body closing, b => by
    simp [CodeBlock.add, CodeBlock.addAll_eq body, CodeBlock.closeWith, CodeBlock.openBlock,
      CodeBlock.line, Code.linesAt]
termination_by structural code => code

theorem CodeBlock.addAll_eq : ∀ (codes : List Code) (b : CodeBlock),
    CodeBlock.addAll codes b = ⟨b.lines ++ Code.allLinesAt codes b.depth, b.depth⟩
  | [], b => by simp [CodeBlock.addAll, Code.allLinesAt]
  | code :: codes, b => by
    simp [CodeBlock.addAll, CodeBlock.add_eq code, CodeBlock.addAll_eq codes, Code.allLinesAt]
termination_by structural codes => codes

end

theorem Code.allLinesAt_append (codes codes' : List Code) (depth : Nat) :
    Code.allLinesAt (codes ++ codes') depth =
      Code.allLinesAt codes depth ++ Code.allLinesAt codes' depth := by
  induction codes with
  | nil => rfl
  | cons code codes ih => simp [Code.allLinesAt, ih]

/-- A line without its indentation. -/
def bareText (line : String) : List Char := line.toList.dropWhile (· = ' ')

/-- Text that does not begin with a blank is found again behind any indentation. -/
theorem bareText_indentation (depth : Nat) (text : String) (h : text.toList.head? ≠ some ' ') :
    bareText (indentation depth ++ text) = text.toList := by
  rw [bareText, indentation, String.toList_append, String.toList_ofList,
    List.dropWhile_append_of_pos (by simp)]
  cases htext : text.toList with
  | nil => rfl
  | cons c s =>
    have hc : c ≠ ' ' := fun hc => h (by rw [htext, hc, List.head?_cons])
    simp [hc]

end ClientGen.CSharp
