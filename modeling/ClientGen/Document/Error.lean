import ClientGen.Json.Fault

/-!
# Why a document is refused

The causes for which a document becomes no specification, and their wording.
-/

namespace ClientGen

/-- What is wrong with the value of a field. -/
inductive InvalidReason where
  /-- a schema refers to something else than a definition -/
  | notDefinition (reference : String)
  | unknownType (name : String)
  | unknownParameterType (name : String)
  | unknownLocation (name : String)
  | unknownCollectionFormat (name : String)
  /-- a shared parameter refers to another one -/
  | sharedParameter
  /-- a shared response refers to another one -/
  | sharedResponse
  /-- a response key is neither a code nor `default` -/
  | badStatus
  | unknownKeyLocation (name : String)
  | unknownFlow (name : String)
  | unknownSchemeType (name : String)
  /-- two parameters of one operation have the same name -/
  | duplicateParameter (name : String)
  deriving DecidableEq, Repr

/-- The reason for people. -/
def InvalidReason.message : InvalidReason → String
  | .notDefinition reference => "`" ++ reference ++ "` is not a `#/definitions/` reference"
  | .unknownType name => "unknown type `" ++ name ++ "`"
  | .unknownParameterType name => "unknown parameter type `" ++ name ++ "`"
  | .unknownLocation name => "unknown parameter location `" ++ name ++ "`"
  | .unknownCollectionFormat name => "unknown collection format `" ++ name ++ "`"
  | .sharedParameter => "shared parameters cannot be references"
  | .sharedResponse => "shared responses cannot be references"
  | .badStatus => "status code must be an integer or `default`"
  | .unknownKeyLocation name => "unknown api key location `" ++ name ++ "`"
  | .unknownFlow name => "unknown oauth2 flow `" ++ name ++ "`"
  | .unknownSchemeType name => "unknown security scheme type `" ++ name ++ "`"
  | .duplicateParameter name => "duplicate parameter `" ++ name ++ "`"

/-- Why a document becomes no specification. -/
inductive DocumentError where
  /-- the text cannot be read -/
  | unreadable (fault : Json.Fault)
  | unsupportedVersion (version : String)
  /-- a required field is absent; the field is named by its path -/
  | missingField (field : String)
  | invalidField (field : String) (reason : InvalidReason)
  | unresolvedParameter (reference : String)
  | unresolvedResponse (reference : String)
  deriving DecidableEq, Repr

/-- The error for people. -/
def DocumentError.message : DocumentError → String
  | .unreadable fault => "failed to parse JSON: " ++ fault.message
  | .unsupportedVersion version => "unsupported Swagger version: " ++ version
  | .missingField field => "missing required field: " ++ field
  | .invalidField field reason => "invalid value for " ++ field ++ ": " ++ reason.message
  | .unresolvedParameter reference => "unresolved parameter reference: " ++ reference
  | .unresolvedResponse reference => "unresolved response reference: " ++ reference

end ClientGen
