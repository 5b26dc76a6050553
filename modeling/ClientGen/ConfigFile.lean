import ClientGen.Config
import ClientGen.Storage.Basic
import ClientGen.Yaml.Reader

/-!
# The configuration of a project

A file in the working directory, written in YAML, holds the configuration that runs start from.
-/

namespace ClientGen

/-- The name of the file. -/
def configFileName : String := ".swg.yaml"

/-- The text of a new file. -/
def configTemplate : String :=
  "# swg configuration\n" ++
  "sources:\n" ++
  "  - swagger.json\n" ++
  "  # - https://petstore.swagger.io/v2/swagger.json\n" ++
  "target: generated/Client\n" ++
  "languages: [csharp, typescript]   # csharp | typescript\n" ++
  "namespace: swg\n" ++
  "http_timeout_seconds: 30\n" ++
  "allow_override: false\n" ++
  "save_settings: false\n" ++
  "# base_url: https://api.example.com\n"

/-- A sequence of texts. -/
def Yaml.texts? (y : Yaml) : Option (List String) := do
  (← y.items?).mapM Yaml.text?

/-- A sequence of languages. -/
def Yaml.languages? (y : Yaml) : Option Languages := do
  let languages ← (← y.items?).mapM fun item => item.text?.bind Language.ofName?
  return .ofList languages

/-- Reads the value of a field into a configuration; a value under another name is left alone. -/
def Config.setYaml (config : Config) (name : String) (y : Yaml) : Option Config :=
  match name with
  | "sources" => y.texts?.map fun v => { config with sources := v }
  | "target" => y.optionalText?.map fun v => { config with target := v }
  | "languages" => y.languages?.map fun v => { config with languages := v }
  | "namespace" => y.text?.map fun v => { config with space := v }
  | "http_timeout_seconds" => y.natural?.map fun v => { config with timeout := v }
  | "allow_override" => y.bool?.map fun v => { config with allowOverride := v }
  | "save_settings" => y.bool?.map fun v => { config with saveSettings := v }
  | "base_url" => y.optionalText?.map fun v => { config with baseUrl := v }
  | _ => some config

/-- The names of the fields. -/
def Config.fieldNames : List String := Config.fields.map (·.name)

/-- Reads entries into a configuration. No field may be given twice. -/
def Config.readEntries (seen : List String) (config : Config) : List (Yaml × Yaml) → Option Config
  | [] => some config
  | (key, value) :: entries => do
    let name ← key.text?
    if name ∈ fieldNames ∧ name ∈ seen then none
    readEntries (name :: seen) (← config.setYaml name value) entries

/-- Reads the text of a configuration. -/
def Config.ofYaml? (text : String) : Option Config := do
  Config.readEntries [] {} (← (← Yaml.ofText? text).entries?)

/-- Why the file is refused. -/
inductive ConfigFileError where
  | inaccessible (path : String) (error : FileError)
  | unreadable (path : String)
  deriving DecidableEq, Repr

/-- The error for people. -/
def ConfigFileError.message : ConfigFileError → String
  | .inaccessible path error => "failed to read config " ++ path ++ ": " ++ error.message
  | .unreadable path => "failed to parse config " ++ path ++ ": it is not a configuration"

/-- The configuration in a file; none when there is no file. -/
def loadConfig {m : Type → Type} [Monad m] [Storage m] (path : String) :
    m (Except ConfigFileError (Option Config)) := do
  if !(← Storage.isPresent path) then return .ok none
  match ← Storage.readText path with
  | .error e => return .error (.inaccessible path e)
  | .ok text =>
    match Config.ofYaml? text with
    | some config => return .ok (some config)
    | none => return .error (.unreadable path)

end ClientGen
