import ClientGen.Emission.Batch
import ClientGen.TypeScript.Declaration

/-!
# Emitting TypeScript

`emitModule` claims the names of one specification in a registry and gives its declarations their
final form; `batch` does so for several. A specification that fails leaves no trace in the registry
or in the document.
-/

namespace ClientGen.TypeScript

/-- The interface that every module declares for its operations. -/
def apiName : String := "API"

/-- The name of the module of a specification. -/
def moduleName (spec : Specification) : String := normalize spec.info.title

/-- A module. -/
structure Module where
  name : String
  declarations : List TypeDecl
  methods : List MethodDecl
  deriving Repr

/-- Names in use: the registry, and the module that declares each name. -/
structure Names where
  registry : Registry
  owners : Table String := []

/-- Claims the names of declarations for a module; the answer holds those that are new. No
declaration may take the name of the interface of operations. -/
def Names.claim (moduleName : String) : Names → List Declaration →
    Except EmitError (List Declaration × Names)
  | names, [] => .ok ([], names)
  | names, d :: ds => do
    if d.name = apiName then throw (.nameCollision apiName)
    let (fresh, registry) ← names.registry.claim d.name d.shape
    if fresh then
      let (rest, names) ← claim moduleName ⟨registry, names.owners.put d.name moduleName⟩ ds
      return (d :: rest, names)
    else claim moduleName ⟨registry, names.owners⟩ ds

/-- The module of a specification, and the names after it. -/
def emitModule (spec : Specification) (names : Names) : Except EmitError (Module × Names) := do
  let name := moduleName spec
  let (declared, names) ← names.claim name (planned spec)
  let scope : Scope := ⟨spec.definitions, name, names.owners⟩
  let declarations ← declared.mapM scope.declare
  let methods ← scope.methods spec
  return (⟨name, declarations, methods⟩, names)

/-! ## Text -/

/-- Keeps text from closing the comment around it. -/
def escapeComment : List Char → List Char
  | '*' :: '/' :: s => '*' :: '\\' :: '/' :: escapeComment s
  | c :: s => c :: escapeComment s
  | [] => []

/-- Documentation in a comment, indented. -/
def commentLines (indent : String) : Option String → List String
  | some text => [indent ++ "/** " ++ String.ofList (escapeComment text.toList) ++ " */"]
  | none => []

/-- The lines of a field. -/
def FieldDecl.lines (f : FieldDecl) : List String :=
  commentLines "            " f.description ++
    ["            " ++ f.name ++ (if f.optional then "?" else "") ++ ": " ++ f.type.text ++ ";"]

/-- The lines of a declaration. -/
def TypeDecl.lines : TypeDecl → List String
  | .interface name description fields index =>
    commentLines "        " description ++
      ["        export interface " ++ name ++ " \x7b"] ++
      fields.flatMap FieldDecl.lines ++
      index.toList.map (fun type => "            [key: string]: " ++ type.text ++ ";") ++
      ["        \x7d"]
  | .enum name description members =>
    commentLines "        " description ++
      ["        export enum " ++ name ++ " \x7b"] ++
      members.map (fun m => "            " ++ m.name ++ " = " ++ m.value ++ ",") ++
      ["        \x7d"]
  | .array name description target =>
    commentLines "        " description ++
      ["        export interface " ++ name ++ " extends Array<" ++ target.text ++ "> \x7b\x7d"]
  | .alias name description target =>
    commentLines "        " description ++
      ["        export type " ++ name ++ " = " ++ target.text ++ ";"]

/-- The lines of a method. -/
def MethodDecl.lines (m : MethodDecl) : List String :=
  let summary :=
    match m.summary with
    | some text => " " ++ String.ofList (escapeComment text.toList)
    | none => ""
  let deprecated := if m.deprecated then " @deprecated" else ""
  let comment :=
    if m.summary.isSome || m.deprecated then ["            /**" ++ summary ++ deprecated ++ " */"]
    else []
  comment ++
    ["            " ++ m.name ++ "(" ++ m.params ++ "): PromiseLike<" ++ m.returnType.text ++ ">;"]

/-- The lines of a module. -/
def Module.lines (m : Module) : List String :=
  ["    export module " ++ m.name ++ " \x7b"] ++
    m.declarations.flatMap (fun d => d.lines ++ [""]) ++
    ["        export interface " ++ apiName ++ " \x7b",
     "            setToken(value: string, headerOrQueryName: string, isQuery: boolean): void;"] ++
    m.methods.flatMap MethodDecl.lines ++
    ["        \x7d", "    \x7d"]

/-- Groups of lines with an empty line between them. -/
def spacedModules : List Module → List String
  | [] => []
  | [m] => m.lines
  | m :: ms => m.lines ++ "" :: spacedModules ms

/-- The text of a document. -/
def documentText (options : EmitOptions) (modules : List Module) : String :=
  joinLines
    (["// " ++ generatedHeader,
      "// Changes to this file will be lost when it is regenerated.",
      "namespace " ++ Name.normalizePath anyType options.space ++ " \x7b"] ++
      spacedModules modules ++ ["\x7d"]) ++ "\n"

/-! ## Batches -/

/-- What TypeScript does with a specification. -/
def emitter : Emitter Names Module where
  language := .typescript
  emit spec names := ([], emitModule spec names)

/-- Emits a batch after what the registry holds already. -/
def batch (specs : List Specification) (registry : Registry) : Batch Names Module :=
  emitBatch emitter ⟨registry, []⟩ specs

/-- The text of what was emitted. -/
def content? (options : EmitOptions) (b : Batch Names Module) : Option String :=
  if b.emitted.isEmpty then none else some (documentText options b.parts)

/-- The document of a batch, after what the registry holds already. -/
def generateWith (options : EmitOptions) (specs : List Specification) (registry : Registry) :
    List Warning × Generation × Registry :=
  let b := batch specs registry
  (b.warnings, b.generation (content? options b), b.names.registry)

end ClientGen.TypeScript
