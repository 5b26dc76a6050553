import ClientGen.Document.Error
import ClientGen.Emission.Error
import ClientGen.Language
import ClientGen.Specification.Basic

/-!
# Warnings

What is worth telling and stops nothing, from reading a document to writing the output.
-/

namespace ClientGen

/-- A warning. -/
inductive Warning where
  /-- an array does not say what it holds -/
  | arrayWithoutItems (path : String)
  /-- only strings can have listed values -/
  | enumIgnored (path : String) (kind : PrimitiveKind)
  /-- a default does not fit its type -/
  | defaultIgnored (path : String) (value : Json.Value) (kind : PrimitiveKind)
  | bodyWithoutSchema (path : String)
  /-- an operation has no success code -/
  | noSuccess (sourceId label : String)
  | tagWithoutName
  | externalDocsWithoutUrl
  /-- a source is left out -/
  | refused (sourceId : String) (error : DocumentError)
  /-- a body parameter of an operation whose method sends none -/
  | bodyIgnored (sourceId label : String)
  | ambiguous (diagnostic : Diagnostic)
  /-- a specification is left out -/
  | notEmitted (sourceId : String) (language : Language) (error : EmitError)
  /-- no specification was emitted at all -/
  | emptyOutput (language : Language) (path : String)
  deriving Repr

/-- The warning for people. -/
def Warning.message : Warning → String
  | .arrayWithoutItems path => path ++ ": array without `items`, treating elements as object"
  | .enumIgnored path kind =>
    path ++ ": enum on a " ++ kind.name ++ " value is not supported, ignoring it"
  | .defaultIgnored path value kind =>
    path ++ ": default " ++ value.compact ++ " does not match type " ++ kind.name ++
      ", ignoring it"
  | .bodyWithoutSchema path => path ++ ": body parameter without schema, treating it as string"
  | .noSuccess sourceId label =>
    sourceId ++ ": operation `" ++ label ++ "` declares no 2xx response, its success type is void"
  | .tagWithoutName => "ignoring tag without a name"
  | .externalDocsWithoutUrl => "ignoring externalDocs without a url"
  | .refused sourceId error => sourceId ++ ": " ++ error.message
  | .bodyIgnored sourceId label =>
    sourceId ++ ": " ++ label ++ " does not send a body; its body parameters are ignored"
  | .ambiguous diagnostic => diagnostic.message
  | .notEmitted sourceId language error =>
    sourceId ++ ": " ++ language.title ++ " emission failed: " ++ error.message
  | .emptyOutput language path =>
    "no specification rendered for " ++ language.name ++ "; writing an empty " ++ path

end ClientGen
