/-!
# Indented code

Lines of code with the depth of the braces around them. `Code` is code with its blocks as a tree;
written out, every block opens and closes its own braces.
-/

namespace ClientGen.CSharp

/-- What opens a block. -/
def openBrace : String := "\x7b"

/-- What closes a block. -/
def closeBrace : String := "\x7d"

/-- Lines of code so far, and how many blocks are open. -/
structure CodeBlock where
  lines : List String := []
  depth : Nat := 0
  deriving DecidableEq, Repr, Inhabited

/-- Four blanks per open block. -/
def indentation (depth : Nat) : String := String.ofList (List.replicate (4 * depth) ' ')

namespace CodeBlock

/-- Adds a line. -/
def line (b : CodeBlock) (text : String) : CodeBlock :=
  { b with lines := b.lines ++ [indentation b.depth ++ text] }

/-- Opens a block. -/
def openBlock (b : CodeBlock) : CodeBlock := { b.line openBrace with depth := b.depth + 1 }

/-- Closes a block with the given text; where no block is open, the depth stays zero. -/
def closeWith (b : CodeBlock) (closing : String) : CodeBlock :=
  { b with depth := b.depth - 1 }.line closing

/-- Closes a block. -/
def close (b : CodeBlock) : CodeBlock := b.closeWith closeBrace

end CodeBlock

/-- Code as a tree. -/
inductive Code where
  | line (text : String)
  /-- a line, a block in braces, and the line that closes it -/
  | block (heading : String) (body : List Code) (closing : String)
  deriving Repr

/-- A block that a plain brace closes. -/
def Code.braced (heading : String) (body : List Code) : Code := .block heading body closeBrace

mutual

/-- Writes code after what is there. -/
def CodeBlock.add : Code → CodeBlock → CodeBlock
  | .line text, b => b.line text
  | .block heading body closing, b =>
    (CodeBlock.addAll body (b.line heading).openBlock).closeWith closing
termination_by structural code => code

/-- Writes pieces of code one after the other. -/
def CodeBlock.addAll : List Code → CodeBlock → CodeBlock
  | [], b => b
  | code :: codes, b => CodeBlock.addAll codes (CodeBlock.add code b)
termination_by structural codes => codes

end

/-- The lines of code. -/
def codeLines (codes : List Code) : List String := (CodeBlock.addAll codes {}).lines

end ClientGen.CSharp
