import ClientGen.Config
import ClientGen.Number.Natural
import ClientGen.Storage.Basic

/-!
# Settings

The configuration of a run, kept in a file beside its output together with the version of the
generator. Settings of a newer version are refused; only the first two parts of a version count.
-/

namespace ClientGen

open Json (RecordField Reader Value readRecord)

/-- Why settings are refused. -/
inductive SettingsError where
  /-- the file cannot be read or written -/
  | inaccessible (path : String) (error : FileError)
  /-- the text cannot be read -/
  | unreadable (path : String) (fault : Json.Fault)
  | invalidVersion (version : String)
  /-- the settings are newer than this program -/
  | incompatible (found running : String)
  deriving DecidableEq, Repr

/-- The error for people. -/
def SettingsError.message : SettingsError → String
  | .inaccessible path error => "failed to access settings " ++ path ++ ": " ++ error.message
  | .unreadable path fault => "failed to parse settings " ++ path ++ ": " ++ fault.message
  | .invalidVersion version => "invalid generator version `" ++ version ++ "`"
  | .incompatible found running =>
    "settings were written by swg " ++ found ++ ", which is newer than this swg " ++ running

/-- The error that caused this one, if it tells of one. -/
def SettingsError.cause? : SettingsError → Option String
  | .inaccessible _ error => some error.message
  | .unreadable _ fault => some fault.message
  | _ => none

/-! ## Versions -/

/-- The parts of a version that count. -/
structure Version where
  major : Nat
  minor : Nat
  deriving DecidableEq, Repr

/-- Is a version newer than another? -/
def Version.isNewer (v w : Version) : Bool :=
  w.major < v.major || (v.major = w.major && w.minor < v.minor)

/-- Reads a part of a version. -/
def Version.part? (s : List Char) : Option Nat := Natural.parse? Natural.bound64 s

/-- Reads a version: the first two of its parts, the second of which may be missing. -/
def Version.ofText? (text : String) : Option Version :=
  match Text.splitOnChar '.' (Text.trim text.toList) with
  | [] => none
  | [major] => do return ⟨← part? major, 0⟩
  | major :: minor :: _ => do return ⟨← part? major, ← part? minor⟩

/-- Reads a version that must be one. -/
def Version.ofText (text : String) : Except SettingsError Version :=
  match Version.ofText? text with
  | some v => .ok v
  | none => .error (.invalidVersion text)

/-- Refuses settings of a version that is newer than the running one. -/
def checkCompatible (found running : String) : Except SettingsError Unit := do
  let v ← Version.ofText found
  let w ← Version.ofText running
  if v.isNewer w then throw (.incompatible found running)

/-! ## Texts -/

/-- Settings as written; both fields are required. -/
structure SettingsObject where
  version : Option String := none
  config : Option Config := none
  deriving Repr

namespace SettingsObject

/-- The fields of settings. -/
def fields : List (RecordField SettingsObject) :=
  [.required "generator_version" .text fun s v => { s with version := some v },
   .required "config" Config.read fun s v => { s with config := some v }]

/-- Reads settings. -/
def read : Reader (String × Config) := fun room node => do
  let s ← readRecord fields {} room node
  match s.version, s.config with
  | some version, some config => return (version, config)
  | _, _ => throw .mismatch

end SettingsObject

/-- The text that settings are kept as. -/
def Config.settingsText (config : Config) : String :=
  let value : Value :=
    .object [("generator_version", .text generatorVersion), ("config", config.toValue)]
  value.pretty ++ "\n"

/-- The configuration in the text of settings. -/
def Config.ofSettingsText (path text : String) : Except SettingsError Config := do
  let (version, config) ← (Json.decode SettingsObject.read text).mapError (.unreadable path)
  checkCompatible version generatorVersion
  return config

/-! ## Files -/

/-- The path of the settings for a target. -/
def settingsPath (target : String) : String := target ++ ".swg.json"

section

variable {m : Type → Type} [Monad m] [Storage m]

/-- Keeps a configuration as settings. -/
def saveSettings (path : String) (config : Config) : m (Except SettingsError Unit) := do
  let written ← Storage.writeText path config.settingsText
  return written.mapError (.inaccessible path)

/-- Reads the settings of a file. -/
def loadSettings (path : String) : m (Except SettingsError Config) := do
  match ← Storage.readText path with
  | .ok text => return Config.ofSettingsText path text
  | .error e => return .error (.inaccessible path e)

end

end ClientGen
