import ClientGen.Emission.Generation
import ClientGen.Json.Reader

/-!
# Configurations

What a run depends on: where documents come from, where the output goes, and how it looks. A
configuration is read from JSON with every field optional, and written with every field present.
-/

namespace ClientGen

open Json (RecordField Reader Value readRecord)

/-- The configuration of a run. -/
structure Config where
  /-- paths of files, or addresses -/
  sources : List String := []
  /-- the path of the output -/
  target : Option String := none
  languages : Languages := .both
  /-- the namespace of the output -/
  space : String := "swg"
  /-- seconds that generated clients wait -/
  timeout : Nat := 30
  /-- may output replace files? -/
  allowOverride : Bool := false
  /-- is the configuration kept beside the output? -/
  saveSettings : Bool := false
  /-- replaces the address of every specification -/
  baseUrl : Option String := none
  deriving DecidableEq, Repr, Inhabited

namespace Config

/-- What emission depends on. -/
def emitOptions (config : Config) : EmitOptions := ⟨config.space, config.timeout, config.baseUrl⟩

/-- Reads a language by its name. -/
def readLanguage : Reader Language := Reader.choice Language.ofName?

/-- The fields of a configuration. -/
def fields : List (RecordField Config) :=
  [.defaulting "sources" (.list .text) fun c v => { c with sources := v },
   .defaulting "target" (.optional .text) fun c v => { c with target := v },
   .defaulting "languages" (.list readLanguage) fun c v => { c with languages := .ofList v },
   .defaulting "namespace" .text fun c v => { c with space := v },
   .defaulting "http_timeout_seconds" .natural fun c v => { c with timeout := v },
   .defaulting "allow_override" .bool fun c v => { c with allowOverride := v },
   .defaulting "save_settings" .bool fun c v => { c with saveSettings := v },
   .defaulting "base_url" (.optional .text) fun c v => { c with baseUrl := v }]

/-- Reads a configuration. -/
def read : Reader Config := readRecord fields {}

/-- A text that may be absent. -/
def optionalText : Option String → Value
  | some s => .text s
  | none => .null

/-- A configuration as a value. -/
def toValue (config : Config) : Value :=
  .object [
    ("sources", .array (config.sources.map .text)),
    ("target", optionalText config.target),
    ("languages", .array (config.languages.toList.map fun l => .text l.name)),
    ("namespace", .text config.space),
    ("http_timeout_seconds", .number (.whole config.timeout)),
    ("allow_override", .bool config.allowOverride),
    ("save_settings", .bool config.saveSettings),
    ("base_url", optionalText config.baseUrl)]

end Config

end ClientGen
