import ClientGen.Emission.Error
import ClientGen.Table

/-!
# Registries of type names

A registry holds the type names of one output with the shapes they were declared with, in the order
of their declaration. The first declaration of a name stays; a registry only ever grows. Work on one
specification happens on a copy, which replaces the registry when the work succeeds.
-/

namespace ClientGen

/-- The declared names with their shapes, in order. -/
structure Registry where
  entries : Table String := []
  deriving DecidableEq, Repr, Inhabited

/-- What became of a declaration. -/
inductive Registration where
  /-- the name is new -/
  | fresh
  /-- the name is there with the same shape -/
  | duplicate
  /-- the name is there with another shape -/
  | collision
  deriving DecidableEq, Repr

namespace Registry

/-- The registry without names. -/
def empty : Registry := {}

/-- The declared names in order. -/
def names (r : Registry) : List String := r.entries.names

/-- The shape that a name was declared with. -/
def shape? (r : Registry) (name : String) : Option String := r.entries.get? name

/-- Is the name declared? -/
def contains (r : Registry) (name : String) : Bool := r.entries.has name

/-- How many names are declared. -/
def size (r : Registry) : Nat := r.entries.length

/-- Declares a name, unless it is there already. -/
def register (r : Registry) (name shape : String) : Registration × Registry :=
  match r.shape? name with
  | some existing => if existing = shape then (.duplicate, r) else (.collision, r)
  | none => (.fresh, ⟨r.entries ++ [(name, shape)]⟩)

/-- Declares a name; a collision is an error. The answer says whether the name is new. -/
def claim (r : Registry) (name shape : String) : Except EmitError (Bool × Registry) :=
  match r.register name shape with
  | (.fresh, r) => .ok (true, r)
  | (.duplicate, r) => .ok (false, r)
  | (.collision, _) => .error (.nameCollision name)

/-- Declares a name as far as possible, whatever becomes of it. -/
def reserve (r : Registry) (name shape : String) : Registry := (r.register name shape).2

end Registry

/-! ## Stacks of registries -/

/-- Registries staged on top of each other; there is always one. -/
structure RegistryStack where
  top : Registry := .empty
  below : List Registry := []
  deriving DecidableEq, Repr, Inhabited

namespace RegistryStack

/-- The number of registries. -/
def height (s : RegistryStack) : Nat := s.below.length + 1

/-- Replaces the top. -/
def setTop (s : RegistryStack) (r : Registry) : RegistryStack := { s with top := r }

/-- Puts a copy of the top on the stack. -/
def stage (s : RegistryStack) : RegistryStack := ⟨s.top, s.top :: s.below⟩

/-- The top replaces the registry below it. -/
def commit? (s : RegistryStack) : Option RegistryStack :=
  match s.below with
  | [] => none
  | _ :: below => some ⟨s.top, below⟩

/-- Drops the top. -/
def discard? (s : RegistryStack) : Option RegistryStack :=
  match s.below with
  | [] => none
  | r :: below => some ⟨r, below⟩

/-- Are the two registries on top equal, as sets of declarations? -/
def same? (s : RegistryStack) : Option Bool :=
  match s.below with
  | [] => none
  | r :: _ =>
    some (r.size = s.top.size ∧ r.entries.all fun (name, shape) => s.top.shape? name = some shape)

end RegistryStack

end ClientGen
