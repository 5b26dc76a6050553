import ClientGen.CSharp.Emission
import ClientGen.TypeScript.Emission

/-!
# Emission in any language

`generate` emits a batch of specifications in a language, starting from no declared names;
`generateWith` starts from a registry and gives the registry after it.
-/

namespace ClientGen

/-- Emits a batch after what the registry holds already. -/
def generateWith (language : Language) (options : EmitOptions) (specs : List Specification)
    (registry : Registry) : List Warning × Generation × Registry :=
  match language with
  | .csharp => CSharp.generateWith options specs registry
  | .typescript => TypeScript.generateWith options specs registry

/-- Emits a batch. -/
def generate (language : Language) (options : EmitOptions) (specs : List Specification) :
    List Warning × Generation :=
  let (warnings, generation, _) := generateWith language options specs .empty
  (warnings, generation)

end ClientGen
