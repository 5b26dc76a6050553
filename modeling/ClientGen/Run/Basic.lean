import ClientGen.Emission.Generate
import ClientGen.Resolve.Document
import ClientGen.Run.Error
import ClientGen.Source

/-!
# Runs

A run checks its configuration, loads and parses all sources, and writes one document per language.
Sources that cannot be parsed and specifications that cannot be emitted are reported; they do not
stop the run. Before anything is written, the outputs are checked for files in the way.

* `outputPaths` says where each language goes.
* `run` does the work and answers with a `Report`.
-/

namespace ClientGen

/-- A written document. -/
structure Output where
  language : Language
  path : String
  /-- the sources of the specifications in it -/
  emitted : List String
  deriving DecidableEq, Repr

/-- What came of one language. -/
structure Emitted where
  output : Output
  failures : List SpecFailure
  diagnostics : List Diagnostic
  deriving DecidableEq, Repr

/-- What came of a run. -/
structure Report where
  outputs : List Output := []
  parseFailures : List (String × DocumentError) := []
  emitFailures : List (Language × SpecFailure) := []
  /-- each finding once -/
  diagnostics : List Diagnostic := []
  /-- the path of the settings, if they were kept -/
  settings : Option String := none
  deriving Repr, Inhabited

/-- Did anything fail? -/
def Report.hasFailures (r : Report) : Bool := !r.parseFailures.isEmpty || !r.emitFailures.isEmpty

/-! ## Before the run -/

/-- The target of a configuration that can be run. -/
def Config.checkedTarget (config : Config) : Except RunError String :=
  if config.sources.isEmpty then .error (.invalidConfig .noSources)
  else if config.languages.isEmpty then .error (.invalidConfig .noLanguage)
  else
    match config.target with
    | some target =>
      if Text.isAllBlank target.toList then .error (.invalidConfig .noTarget) else .ok target
    | none => .error (.invalidConfig .noTarget)

/-- Where each language is written. A single language takes the target as it is if it has an
extension; otherwise the extension of the language is put after it. -/
def outputPaths (target : String) (languages : Languages) : List (Language × String) :=
  match languages.toList with
  | [language] =>
    if (Path.extension? target).isSome then [(language, target)]
    else [(language, Path.withExtension target language.extension)]
  | selected =>
    selected.map fun language => (language, Path.withExtension target language.extension)

/-- The sources that could not be parsed, in order. -/
def parseFailuresOf (sources : List ParsedSource) : List (String × DocumentError) :=
  sources.filterMap fun source =>
    match source.outcome with
    | .ok _ => none
    | .error e => some (source.sourceId, e)

/-- A list with each member once, at its first place. -/
def distinct {α : Type} [DecidableEq α] (l : List α) : List α :=
  l.foldl (fun seen a => if a ∈ seen then seen else seen ++ [a]) []

/-- The report of a run without settings. -/
def Report.of (parsed : List ParsedSource) (emitted : List Emitted) : Report where
  outputs := emitted.map (·.output)
  parseFailures := parseFailuresOf parsed
  emitFailures := emitted.flatMap fun e => e.failures.map ((e.output.language, ·))
  diagnostics := distinct (emitted.flatMap (·.diagnostics))

/-! ## The run -/

/-- Work that may stop and warn. Warnings before an error are kept. -/
abbrev RunM (m : Type → Type) := ExceptT RunError (StateT (List Warning) m)

section

variable {m : Type → Type} [Monad m] [Storage m]

/-- Notes warnings. -/
def warnAll (warnings : List Warning) : RunM m Unit := modify (· ++ warnings)

/-- Goes on with a result, or stops with the error that its problem means. -/
def orStop {ε α : Type} (toError : ε → RunError) (action : m (Except ε α)) : RunM m α := do
  match ← (action : m (Except ε α)) with
  | .ok a => return a
  | .error e => throw (toError e)

/-- Stops at the first output that is there already. -/
def checkConflicts : List (Language × String) → RunM m Unit
  | [] => return ()
  | (_, path) :: paths => do
    if ← (Storage.isPresent path : m Bool) then throw (.conflict path)
    checkConflicts paths

/-- Loads a source. -/
def loadSource (load : Loader m) (source : String) : RunM m (String × String) := do
  return (source, ← orStop (.unavailable source) (load source))

/-- Writes a file, with the directories on the way to it. -/
def writeOutput (path content : String) : RunM m Unit := do
  match Path.parent? path with
  | some parent => orStop (.write path) (Storage.createDirectories (m := m) parent)
  | none => pure ()
  orStop (.write path) (Storage.writeText (m := m) path content)

/-- Emits and writes one language. -/
def emitOutput (options : EmitOptions) (specs : List Specification) (language : Language)
    (path : String) : RunM m Emitted := do
  let (warnings, generation) := generate language options specs
  warnAll warnings
  if generation.content.isNone then warnAll [.emptyOutput language path]
  writeOutput path (generation.content.getD "")
  return ⟨⟨language, path, generation.emitted⟩, generation.failures, generation.diagnostics⟩

/-- Keeps the settings of a run, if that is wanted. -/
def keepSettings (config : Config) (target : String) : RunM m (Option String) := do
  if config.saveSettings then
    let path := settingsPath target
    orStop .settings (saveSettings (m := m) path config)
    return some path
  else return none

/-- Loads, parses and emits every source of a configuration. -/
def run (load : Loader m) (config : Config) : RunM m Report := do
  let target ← config.checkedTarget
  let paths := outputPaths target config.languages
  unless config.allowOverride do checkConflicts paths
  let texts ← config.sources.mapM (loadSource load)
  let (warnings, parsed) := parseBatch texts
  warnAll warnings
  let specs := specificationsOf parsed
  let emitted ← paths.mapM fun (language, path) => emitOutput config.emitOptions specs language path
  let settings ← keepSettings config target
  return { Report.of parsed emitted with settings }

end

end ClientGen
