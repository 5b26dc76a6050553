import ClientGen.CSharp.Text
import ClientGen.Emission.Batch

/-!
# Emitting C#

`emitSpec` plans one specification and claims its names in a registry; `batch` does so for several.
A specification that fails leaves no trace in the registry or in the document.
-/

namespace ClientGen.CSharp

/-- The types that every document declares itself. -/
def supportTypes : List String := ["ResponseKind", "NoContent", "APIResponse", "QueryString"]

/-- The shape that these types are registered with. -/
def supportShape : String := "<support>"

/-- The shape that a client is registered with. -/
def clientShape (spec : Specification) : String := "<client " ++ spec.sourceId ++ ">"

/-- What one specification adds to a document. -/
structure Part where
  /-- the models that are not declared yet -/
  models : List Model
  client : Client
  deriving DecidableEq, Repr

/-- Claims the names of models; the answer holds those that are new. -/
def claimModels : Registry → List Model → Except EmitError (List Model × Registry)
  | registry, [] => .ok ([], registry)
  | registry, m :: ms => do
    let (fresh, registry) ← registry.claim m.name m.shape
    let (rest, registry) ← claimModels registry ms
    return (if fresh then m :: rest else rest, registry)

/-- The models and the client of a specification. -/
def planSpec (spec : Specification) (options : EmitOptions) : Plan Client := do
  planDefinitions spec
  planClient spec options

/-- Claims what a plan has declared. -/
def claimPart (spec : Specification) (registry : Registry) (models : List Model) (client : Client) :
    Except EmitError (Part × Registry) := do
  let (_, registry) ← registry.claim (clientName spec) (clientShape spec)
  let (fresh, registry) ← claimModels registry models
  return (⟨fresh, client⟩, registry)

/-- Plans a specification and claims its names. -/
def emitSpec (spec : Specification) (options : EmitOptions) (registry : Registry) :
    List Warning × Except EmitError (Part × Registry) :=
  let plan := planSpec spec options
  (plan.warnings, plan.outcome.bind (claimPart spec registry plan.models))

/-- What C# does with a specification; its findings are worth a warning once it is emitted. -/
def emitter (options : EmitOptions) : Emitter Registry Part where
  language := .csharp
  emit spec registry :=
    match emitSpec spec options registry with
    | (warnings, .ok emitted) => (warnings ++ spec.diagnostics.map .ambiguous, .ok emitted)
    | failed => failed

/-- The registry of a document that declares nothing but its own types yet. -/
def withSupport (registry : Registry) : Registry :=
  supportTypes.foldl (fun r name => r.reserve name supportShape) registry

/-- Emits a batch after what the registry holds already. -/
def batch (options : EmitOptions) (specs : List Specification) (registry : Registry) :
    Batch Registry Part :=
  emitBatch (emitter options) (withSupport registry) specs

/-- The models that a batch declares, in order. -/
def declared (b : Batch Registry Part) : List Model := b.parts.flatMap (·.models)

/-- The text of what was emitted. -/
def content? (options : EmitOptions) (b : Batch Registry Part) : Option String :=
  if b.emitted.isEmpty then none
  else some (documentText options (declared b) (b.parts.map (·.client)))

/-- The document of a batch, after what the registry holds already. -/
def generateWith (options : EmitOptions) (specs : List Specification) (registry : Registry) :
    List Warning × Generation × Registry :=
  let b := batch options specs registry
  (b.warnings, b.generation (content? options b), b.names)

end ClientGen.CSharp
