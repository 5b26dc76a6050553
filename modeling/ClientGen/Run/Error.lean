import ClientGen.Settings

/-!
# Why a run stops

Each error but `write` stops a run before anything is emitted, unless the settings cannot be kept at
its end.
-/

namespace ClientGen

/-- What is wrong with a configuration. -/
inductive ConfigProblem where
  | noSources
  | noLanguage
  | noTarget
  deriving DecidableEq, Repr

/-- The problem for people. -/
def ConfigProblem.message : ConfigProblem → String
  | .noSources => "no sources given"
  | .noLanguage => "no target language selected"
  | .noTarget => "no target path given"

/-- Why a run stops. -/
inductive RunError where
  | invalidConfig (problem : ConfigProblem)
  /-- an output is there already, and must not be replaced -/
  | conflict (path : String)
  /-- a source cannot be loaded -/
  | unavailable (source reason : String)
  /-- an output cannot be written -/
  | write (path : String) (error : FileError)
  | settings (error : SettingsError)
  deriving DecidableEq, Repr

/-- The error for people. -/
def RunError.message : RunError → String
  | .invalidConfig problem => "invalid configuration: " ++ problem.message
  | .conflict path => path ++ " already exists; pass --allow-override to replace it"
  | .unavailable source reason => "source " ++ source ++ " is unavailable: " ++ reason
  | .write path error => "failed to write " ++ path ++ ": " ++ error.message
  | .settings error => error.message

/-- The error that caused this one, if it tells of one. -/
def RunError.cause? : RunError → Option String
  | .write _ error => some error.message
  | .settings error => error.cause?
  | _ => none

end ClientGen
