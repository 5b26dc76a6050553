/-!
# Why a specification is not emitted

A failure stops the specification that it belongs to, and no other.
-/

namespace ClientGen

/-- Why a specification is not emitted. -/
inductive EmitError where
  /-- a definition is used that the specification does not have -/
  | unresolvedReference (name context : String)
  /-- a type is already declared with another shape -/
  | nameCollision (name : String)
  deriving DecidableEq, Repr

/-- The error for people. -/
def EmitError.message : EmitError → String
  | .unresolvedReference name context =>
    "unresolved reference to definition `" ++ name ++ "` in " ++ context
  | .nameCollision name => "type `" ++ name ++ "` is declared with conflicting shapes"

end ClientGen
