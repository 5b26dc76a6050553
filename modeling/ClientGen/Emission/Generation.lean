import ClientGen.Emission.Registry
import ClientGen.Warning

/-!
# What emission produces

One text for a batch of specifications, with an account of those that are in it and those that
failed.
-/

namespace ClientGen

/-- The version of this program. -/
def generatorVersion : String := "0.3.0"

/-- The first line of every output. -/
def generatedHeader : String := "Generated by swg " ++ generatorVersion

/-- What emission depends on besides the specifications. -/
structure EmitOptions where
  /-- the namespace of the output -/
  space : String := "swg"
  /-- seconds that generated clients wait -/
  timeout : Nat := 30
  /-- replaces the address of every specification -/
  baseUrl : Option String := none
  deriving DecidableEq, Repr, Inhabited

/-- A specification that was not emitted. -/
structure SpecFailure where
  sourceId : String
  title : String
  error : EmitError
  deriving DecidableEq, Repr

/-- The failure for people. -/
def SpecFailure.message (f : SpecFailure) : String :=
  f.sourceId ++ " (" ++ f.title ++ "): " ++ f.error.message

/-- The failure of a specification. -/
def SpecFailure.of (spec : Specification) (error : EmitError) : SpecFailure :=
  ⟨spec.sourceId, spec.info.title, error⟩

/-- The output for a batch. -/
structure Generation where
  /-- the text; none when no specification was emitted -/
  content : Option String := none
  /-- the sources of the specifications in the text -/
  emitted : List String := []
  failures : List SpecFailure := []
  diagnostics : List Diagnostic := []
  deriving Repr, Inhabited

/-- Lines as one text. -/
def joinLines (lines : List String) : String := "\n".intercalate lines

end ClientGen
