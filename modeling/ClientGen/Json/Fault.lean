/-!
# Why a JSON text cannot be read

Reading stops at the first problem in text order. Three kinds of problem are told apart.
-/

namespace ClientGen.Json

/-- The kind of the first problem in a text. -/
inductive Fault where
  /-- the text ends too early -/
  | endOfText
  /-- the text is no JSON, is nested too deeply, or holds a number that no double can take -/
  | malformed
  /-- the text is JSON so far, but not what is expected at this place -/
  | mismatch
  deriving DecidableEq, Repr

/-- A description for people. -/
def Fault.message : Fault → String
  | .endOfText => "the text ends too early"
  | .malformed => "the text is malformed"
  | .mismatch => "a value does not have the expected form"

end ClientGen.Json
