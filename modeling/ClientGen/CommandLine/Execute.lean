import ClientGen.CommandLine.Command
import ClientGen.ConfigFile
import ClientGen.Run.Basic
import ClientGen.Yaml.Printer

/-!
# Doing what a command says

`Command.execute` does the work of a command on a storage. What it has to say goes to two texts, of
which one holds results and the other holds messages; a failure is a message of its own.
-/

namespace ClientGen.CommandLine

open Json (Value)

/-- What a command has said so far. -/
structure Console where
  /-- results -/
  stdout : String := ""
  /-- messages -/
  stderr : String := ""
  warnings : List Warning := []
  deriving Repr, Inhabited

/-- Work that speaks and may fail with a message. -/
abbrev CommandM (m : Type → Type) := ExceptT String (StateT Console m)

/-- A message with the one of its cause. -/
def withCause (message : String) : Option String → String
  | some cause => message ++ ": " ++ cause
  | none => message

/-- The message of an error with that of its cause. -/
def documentFailure (source : String) (error : DocumentError) : String :=
  let cause? :=
    match error with
    | .unreadable fault => some fault.message
    | _ => none
  withCause ("failed to parse " ++ source ++ ": " ++ error.message) cause?

/-! ## Texts -/

/-- The lines about a run. -/
def reportLines (report : Report) : List String :=
  (report.outputs.map fun o =>
    "  wrote " ++ o.path ++ " (" ++ o.language.name ++ ", " ++ toString o.emitted.length ++
      " of the sources)") ++
  (report.settings.toList.map fun path => "  wrote " ++ path) ++
  (report.diagnostics.map fun d => "  warning: " ++ d.message) ++
  (report.parseFailures.map fun (source, e) => "  error: " ++ source ++ ": " ++ e.message) ++
  (report.emitFailures.map fun (language, f) => "  error: " ++ language.name ++ ": " ++ f.message)

/-- The lines about a valid document. -/
def validLines (spec : Specification) : List String :=
  ["Valid Swagger " ++ spec.swagger ++ " document: " ++ spec.info.title,
   "  Version: " ++ spec.info.version,
   "  Paths: " ++ toString spec.paths.length,
   "  Operations: " ++ toString spec.operations.length,
   "  Definitions: " ++ toString spec.definitions.length] ++
  spec.diagnostics.map fun d => "  warning: " ++ d.message

/-- What kind of definition a schema is, in summaries. -/
def summaryKind : Schema → String
  | .object _ _ _ _ => "object"
  | .array _ _ _ => "array"
  | .primitive p => if p.isStringEnum then "enum" else "primitive"
  | .reference _ => "alias"

/-- An operation in a summary. -/
def summarizeOperation (op : Operation) : Value :=
  let success :=
    match op.canonicalSuccess?.bind (·.status.code?) with
    | some code => .number (.whole code)
    | none => .null
  .object [
    ("method", .text op.method.upper),
    ("name", .text op.label),
    ("oauth", .bool op.oauthSecured),
    ("path", .text op.path),
    ("success", success),
    ("tags", .array (op.tags.map .text))]

/-- The summary of a specification, with members in the order of their names. -/
def summarize (spec : Specification) : Value :=
  .object [
    ("base_url", .text spec.baseUrl),
    ("definitions", .array (spec.definitions.map fun (name, schema) =>
      .object [("kind", .text (summaryKind schema)), ("name", .text name)])),
    ("info", .object [("title", .text spec.info.title), ("version", .text spec.info.version)]),
    ("operations", .array (spec.operations.map fun (_, op) => summarizeOperation op))]

/-- The text of a summary. -/
def SummaryFormat.write (format : SummaryFormat) (summary : Value) : String :=
  match format with
  | .yaml => Yaml.print summary
  | .json => summary.pretty ++ "\n"

/-! ## Commands -/

section

variable {m : Type → Type} [Monad m] [Storage m]

/-- Says a line. -/
def say (line : String) : CommandM m Unit :=
  modify fun c => { c with stderr := c.stderr ++ line ++ "\n" }

/-- Says lines. -/
def sayAll (lines : List String) : CommandM m Unit := lines.forM say

/-- Notes warnings. -/
def noteAll (warnings : List Warning) : CommandM m Unit :=
  modify fun c => { c with warnings := c.warnings ++ warnings }

/-- The configuration that `generate` starts from. -/
def startConfig (settings : Option String) : CommandM m Config := do
  match settings with
  | some path =>
    match ← (loadSettings path : m _) with
    | .ok config => return config
    | .error e => throw (withCause e.message e.cause?)
  | none =>
    match ← (loadConfig configFileName : m _) with
    | .ok config => return config.getD {}
    | .error e => throw e.message

/-- Writes clients. -/
def executeGenerate (options : GenerateOptions) : CommandM m Unit := do
  let config := options.apply (← startConfig options.settings)
  say ("Generating " ++ toString config.sources.length ++ " source(s)")
  let (outcome, warnings) ← ((run fileLoader config).run.run [] : m _)
  noteAll warnings
  match outcome with
  | .error e => throw (withCause e.message e.cause?)
  | .ok report =>
    sayAll (reportLines report)
    if report.hasFailures then
      throw (toString report.parseFailures.length ++ " source(s) failed to parse, " ++
        toString report.emitFailures.length ++ " emission(s) failed")
    say "Generation successful."

/-- Loads and parses a document; the answer is a specification or why there is none. -/
def loadSpecification (source : String) : CommandM m (Except String Specification) := do
  match ← (fileLoader source : m _) with
  | .error reason => return .error (RunError.unavailable source reason).message
  | .ok text =>
    let parsed := Specification.parse source text
    noteAll parsed.warnings
    return parsed.outcome.mapError (documentFailure source)

/-- Checks one document; the answer says whether it is valid. -/
def validateOne (source : String) : CommandM m Bool := do
  match ← loadSpecification source with
  | .ok spec =>
    sayAll (validLines spec)
    return true
  | .error message =>
    say ("Invalid " ++ source ++ ": " ++ message)
    return false

/-- Checks documents. -/
def executeValidate (inputs : List String) : CommandM m Unit := do
  let results ← inputs.mapM validateOne
  let failed := results.countP (! ·)
  if failed > 0 then
    throw (toString failed ++ " of " ++ toString inputs.length ++ " document(s) failed validation")
  say "Validation successful."

/-- Summarizes a document. -/
def executeInspect (input : String) (format : SummaryFormat) : CommandM m Unit := do
  match ← loadSpecification input with
  | .ok spec => modify fun c => { c with stdout := c.stdout ++ format.write (summarize spec) }
  | .error message => throw message

/-- Writes a configuration file. -/
def executeInit (force : Bool) : CommandM m Unit := do
  if (← (Storage.isPresent configFileName : m Bool)) && !force then
    throw (configFileName ++ " already exists. Use --force to overwrite.")
  match ← (Storage.writeText configFileName configTemplate : m _) with
  | .ok () => say ("Created " ++ configFileName)
  | .error e => throw e.message

/-- Does what a command says. -/
def Command.act : Command → CommandM m Unit
  | .generate options => executeGenerate options
  | .validate inputs => executeValidate inputs
  | .inspect input format => executeInspect input format
  | .init force => executeInit force
  | .completions _ => throw "completions are not available"

/-- What a command says, and how it fails if it does. -/
def Command.execute (command : Command) : m (Option String × Console) := do
  let (outcome, console) ← command.act.run.run {}
  match outcome with
  | .ok () => return (none, console)
  | .error message => return (some message, console)

end

end ClientGen.CommandLine
