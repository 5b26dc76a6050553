import ClientGen.CommandLine.Grammar
import ClientGen.Config

/-!
# Commands

The commands with their options, and `Command.parse`, which reads one off the arguments of the
program.
-/

namespace ClientGen.CommandLine

/-- How a summary is written. -/
inductive SummaryFormat where
  | yaml
  | json
  deriving DecidableEq, Repr, Inhabited

/-- What the command line says about a run; it goes before what files say. -/
structure GenerateOptions where
  inputs : List String := []
  target : Option String := none
  /-- settings to start from -/
  settings : Option String := none
  languages : List Language := []
  space : Option String := none
  timeout : Option Nat := none
  allowOverride : Bool := false
  saveSettings : Bool := false
  baseUrl : Option String := none
  deriving DecidableEq, Repr, Inhabited

/-- A command. -/
inductive Command where
  /-- writes clients -/
  | generate (options : GenerateOptions)
  /-- checks documents -/
  | validate (inputs : List String)
  /-- summarizes a document -/
  | inspect (input : String) (format : SummaryFormat)
  /-- writes a configuration file; `force` replaces one -/
  | init (force : Bool)
  /-- asks for completions of a shell -/
  | completions (shell : String)
  deriving DecidableEq, Repr

/-- The configuration with what the command line says. -/
def GenerateOptions.apply (options : GenerateOptions) (config : Config) : Config where
  sources := if options.inputs.isEmpty then config.sources else options.inputs
  target := options.target.or config.target
  languages :=
    if options.languages.isEmpty then config.languages else .ofList options.languages
  space := options.space.getD config.space
  timeout := options.timeout.getD config.timeout
  allowOverride := config.allowOverride || options.allowOverride
  saveSettings := config.saveSettings || options.saveSettings
  baseUrl := options.baseUrl.or config.baseUrl

/-! ## Grammars -/

/-- The option that every command has. -/
def helpOption : OptionSpec := { name := "help", letter := some 'h', kind := .help }

/-- The options of the program itself. -/
def programGrammar : Grammar where
  options := [helpOption, { name := "version", letter := some 'V', kind := .version }]

/-- The options of `generate`. -/
def generateGrammar : Grammar where
  options :=
    [{ name := "input", letter := some 'i', kind := .many .text },
     { name := "target", letter := some 't', kind := .single .text },
     { name := "settings", kind := .single .path },
     { name := "language", letter := some 'l',
       kind := .many (.choice (Language.all.map Language.name)) },
     { name := "namespace", kind := .single .text },
     { name := "http-timeout", kind := .single .natural },
     { name := "allow-override", kind := .flag },
     { name := "save-settings", kind := .flag },
     { name := "base-url", kind := .single .text },
     helpOption]

/-- The options of `validate`. -/
def validateGrammar : Grammar where
  options :=
    [{ name := "input", letter := some 'i', kind := .many .text, required := true }, helpOption]

/-- The options of `inspect`. -/
def inspectGrammar : Grammar where
  options :=
    [{ name := "input", letter := some 'i', kind := .single .text, required := true },
     { name := "format", kind := .single (.choice ["yaml", "json"]) },
     helpOption]

/-- The options of `init`. -/
def initGrammar : Grammar where
  options := [{ name := "force", kind := .flag }, helpOption]

/-- The options of `completions`. -/
def completionsGrammar : Grammar where
  options := [helpOption]
  positional := some
    { name := "shell", kind := .single (.choice ["bash", "elvish", "fish", "powershell", "zsh"])
      required := true }

/-! ## Reading -/

/-- The values of an option. -/
def Given.values (given : Given) (name : String) : List String :=
  given.filterMap fun (n, value) => if n = name then some value else none

/-- The value of an option. -/
def Given.value? (given : Given) (name : String) : Option String := (Given.values given name).head?

/-- Was an option given? -/
def Given.has (given : Given) (name : String) : Bool := given.any (·.1 = name)

/-- The options of `generate` as given. -/
def GenerateOptions.ofGiven (given : Given) : GenerateOptions where
  inputs := Given.values given "input"
  target := Given.value? given "target"
  settings := Given.value? given "settings"
  languages := (Given.values given "language").filterMap Language.ofName?
  space := Given.value? given "namespace"
  timeout := (Given.value? given "http-timeout").bind fun s =>
    Natural.parse? Natural.bound64 s.toList
  allowOverride := Given.has given "allow-override"
  saveSettings := Given.has given "save-settings"
  baseUrl := Given.value? given "base-url"

/-- The format of a name. -/
def SummaryFormat.ofName : String → SummaryFormat
  | "json" => .json
  | _ => .yaml

/-- The reader of the options of a command. -/
def commandOf? : String → Option (List String → Except UsageError Command)
  | "generate" => some fun args => do
    return .generate (.ofGiven (← generateGrammar.parse args))
  | "validate" => some fun args => do
    return .validate (Given.values (← validateGrammar.parse args) "input")
  | "inspect" => some fun args => do
    let given ← inspectGrammar.parse args
    return .inspect ((Given.value? given "input").getD "")
      (.ofName ((Given.value? given "format").getD "yaml"))
  | "init" => some fun args => do
    return .init (Given.has (← initGrammar.parse args) "force")
  | "completions" => some fun args => do
    return .completions ((Given.value? (← completionsGrammar.parse args) "shell").getD "")
  | _ => none

/-- Is it the name of a command? -/
def isCommand (name : String) : Bool := name = "help" || (commandOf? name).isSome

/-- What is asked for after `help`: nothing, or a command. -/
def helpFor : List String → UsageError
  | [] => .help
  | [name] => if isCommand name then .help else .unknownCommand name
  | name :: other :: _ => if isCommand name then .unknownCommand other else .unknownCommand name

/-- Reads a command off the arguments of the program. -/
def Command.parse : List String → Except UsageError Command
  | [] => .error .nothing
  | argument :: arguments =>
    match argument.toList with
    | ['-', '-'] =>
      match arguments with
      | [] => .error .nothing
      | name :: _ =>
        if isCommand name then .error (.unknownArgument name) else .error (.unknownCommand name)
    | '-' :: _ :: _ => do
      let _ ← programGrammar.step {} argument
      throw .nothing
    | _ =>
      if argument = "help" then .error (helpFor arguments)
      else
        match commandOf? argument with
        | some read => read arguments
        | none => .error (.unknownCommand argument)

end ClientGen.CommandLine
