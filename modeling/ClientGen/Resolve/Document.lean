import ClientGen.Document.Reader
import ClientGen.Number.Natural
import ClientGen.Resolve.Parameter

/-!
# Specifications out of documents

`Document.resolve` checks a document part by part, in a fixed order: information, shared parameters
and responses, security schemes, paths, definitions. The first problem stops it.

`Specification.parse` reads a text and resolves it; `parseBatch` does so for several sources, none
of which stops the others.
-/

namespace ClientGen

/-- What a document says about itself. -/
def resolveInfo (info : Option InfoObject) : Resolve Info := do
  let info ← require "info" info
  let title ← require "info.title" info.title
  let version ← require "info.version" info.version
  return ⟨title, version, info.description, info.termsOfService, info.contact, info.license⟩

/-- A link without an address is dropped. -/
def resolveExternalDocs : Option ExternalDocsObject → Resolve (Option ExternalDocs)
  | none => return none
  | some docs =>
    match docs.url with
    | some url => return some ⟨url, docs.description⟩
    | none => do
      Checked.warn .externalDocsWithoutUrl
      return none

/-- A tag without a name is dropped. -/
def resolveTag (tag : TagObject) : Resolve (Option Tag) :=
  match tag.name with
  | some name => do
    let docs ← resolveExternalDocs tag.externalDocs
    return some ⟨name, tag.description, docs⟩
  | none => do
    Checked.warn .tagWithoutName
    return none

/-! ## Security -/

/-- Where an API key travels. -/
def resolveKeyLocation (path : String) : Option String → Resolve KeyLocation
  | some "query" => return .query
  | some "header" => return .header
  | some name => throw (.invalidField (path ++ ".in") (.unknownKeyLocation name))
  | none => throw (.missingField (path ++ ".in"))

/-- How an OAuth token is obtained. -/
def resolveFlow (path : String) : Option String → Resolve (Option OAuthFlow)
  | none => return none
  | some name =>
    match OAuthFlow.ofName? name with
    | some flow => return some flow
    | none => throw (.invalidField (path ++ ".flow") (.unknownFlow name))

/-- The kind of a security scheme. -/
def SecuritySchemeObject.resolveKind (s : SecuritySchemeObject) (path : String) :
    Resolve SecurityKind := do
  match ← require (path ++ ".type") s.type with
  | "basic" => return .basic
  | "apiKey" =>
    let name ← require (path ++ ".name") s.name
    let location ← resolveKeyLocation path s.location
    return .apiKey name location
  | "oauth2" =>
    let flow ← resolveFlow path s.flow
    return .oauth2 flow s.authorizationUrl s.tokenUrl s.scopes
  | type => throw (.invalidField (path ++ ".type") (.unknownSchemeType type))

/-- The security schemes. -/
def resolveSecurityDefinitions (schemes : Table SecuritySchemeObject) :
    Resolve (Table SecurityDefinition) :=
  schemes.mapM fun (name, s) => do
    let kind ← s.resolveKind ("securityDefinitions." ++ name)
    return (name, ⟨name, s.description, kind⟩)

/-- The requirements of a list in one row. -/
def flattenRequirements (requirements : List RequirementObject) : List Requirement :=
  requirements.flatMap fun r => r.map fun (name, scopes) => ⟨name, scopes⟩

/-- Equality up to the case of ASCII letters. -/
def equalIgnoringCase (a b : String) : Bool :=
  a.toList.map Char.toLower = b.toList.map Char.toLower

/-- Is it an OAuth scheme? -/
def SecurityKind.isOAuth : SecurityKind → Bool
  | .oauth2 _ _ _ _ => true
  | _ => false

/-- Does a requirement ask for an OAuth token? It names the scheme `oauth`, or one that is defined
to be of that kind. -/
def Requirement.isOAuth (definitions : Table SecurityDefinition) (r : Requirement) : Bool :=
  equalIgnoringCase r.name "oauth" ||
    definitions.any fun (name, d) => equalIgnoringCase name r.name && d.kind.isOAuth

/-! ## Operations -/

/-- What operations need of their document. -/
structure ResolveContext where
  sourceId : String
  consumes : List String
  produces : List String
  parameters : Table Parameter
  responses : Table Response
  securityDefinitions : Table SecurityDefinition
  security : List Requirement

/-- The key of a response. -/
def resolveStatus (path key : String) : Resolve Status :=
  if key = "default" then return .default
  else
    match Natural.parse? Natural.bound16 key.toList with
    | some code => return .code code
    | none => throw (.invalidField (path ++ "." ++ key) .badStatus)

/-- The responses of an operation. -/
def resolveResponses (pool : Table Response) (path : String) (responses : Table ResponseObject) :
    Resolve (List Response) :=
  responses.mapM fun (key, r) => do
    let status ← resolveStatus path key
    r.resolve status pool (path ++ "." ++ key)

/-- An operation. -/
def OperationObject.resolve (ctx : ResolveContext) (method : Method) (path : String)
    (o : OperationObject) : Resolve Operation := do
  let place := "paths." ++ path ++ "." ++ method.lower
  let parameters ← resolveParameters ctx.parameters place o.parameters
  let responses ← require (place ++ ".responses") o.responses
  let responses ← resolveResponses ctx.responses (place ++ ".responses") responses
  let security := (o.security.map flattenRequirements).getD ctx.security
  let externalDocs ← resolveExternalDocs o.externalDocs
  let op : Operation :=
    { method, path, parameters, responses, security, externalDocs
      operationId := o.operationId
      summary := o.summary
      description := o.description
      tags := o.tags
      consumes := o.consumes.getD ctx.consumes
      produces := o.produces.getD ctx.produces
      oauthSecured := security.any (·.isOAuth ctx.securityDefinitions)
      deprecated := o.deprecated.getD false }
  if op.canonicalSuccess?.isNone then Checked.warn (.noSuccess ctx.sourceId op.label)
  return op

/-- The operation of a method. -/
def PathItemObject.operation? (item : PathItemObject) : Method → Option OperationObject
  | .get => item.get
  | .put => item.put
  | .post => item.post
  | .delete => item.delete
  | .options => item.options
  | .head => item.head
  | .patch => item.patch

/-- The first name that occurs again, in the order of the second occurrences. -/
def firstRepeated? (seen : List String) : List String → Option String
  | [] => none
  | name :: names => if name ∈ seen then some name else firstRepeated? (name :: seen) names

/-- The names of the parameters that an operation takes must differ. -/
def checkParameters (item : PathItem) (op : Operation) : Resolve Unit :=
  match firstRepeated? [] ((item.effectiveParameters op).map (·.name)) with
  | none => return ()
  | some name =>
    throw (.invalidField ("paths." ++ item.path ++ "." ++ op.method.lower ++ ".parameters")
      (.duplicateParameter name))

/-- A path with its operations. -/
def PathItemObject.resolve (ctx : ResolveContext) (path : String) (item : PathItemObject) :
    Resolve PathItem := do
  let parameters ← resolveParameters ctx.parameters ("paths." ++ path) item.parameters
  let present := Method.all.filterMap fun method => (item.operation? method).map ((method, ·))
  let operations ← present.mapM fun (method, o) => o.resolve ctx method path
  let item : PathItem := ⟨path, parameters, operations⟩
  operations.forM (checkParameters item)
  return item

/-- The specification that a document means. -/
def Document.resolve (sourceId : String) (doc : Document) : Resolve Specification := do
  let swagger ← require "swagger" doc.swagger
  let info ← resolveInfo doc.info
  let parameters ← resolveParameterPool doc.parameters
  let responses ← resolveResponsePool doc.responses
  let securityDefinitions ← resolveSecurityDefinitions doc.securityDefinitions
  let security := (doc.security.map flattenRequirements).getD []
  let paths ← require "paths" doc.paths
  let ctx : ResolveContext :=
    { sourceId, parameters, responses, securityDefinitions, security
      consumes := doc.consumes
      produces := doc.produces }
  let paths ← paths.mapM fun (path, item) => item.resolve ctx path
  let definitions ← doc.definitions.mapM fun (name, schema) => do
    return (name, ← schema.resolve ("definitions." ++ name))
  let tags ← doc.tags.mapM resolveTag
  let externalDocs ← resolveExternalDocs doc.externalDocs
  return {
    sourceId, swagger, info, paths, definitions, parameters, responses, securityDefinitions
    security, externalDocs
    host := doc.host
    basePath := doc.basePath
    schemes := doc.schemes
    consumes := doc.consumes
    produces := doc.produces
    tags := tags.filterMap id }

/-! ## From text -/

/-- Only documents of version 2 are understood. -/
def Document.checkVersion (doc : Document) : Except DocumentError Unit :=
  match doc.swagger with
  | none => .error (.missingField "swagger")
  | some version =>
    if "2.".toList.isPrefixOf version.toList then .ok () else .error (.unsupportedVersion version)

/-- Reads the text of a document. -/
def Document.ofJson (text : String) : Except DocumentError Document := do
  let doc ← (Json.decode Document.read text).mapError .unreadable
  doc.checkVersion
  return doc

/-- Reads the text of a document and resolves it. -/
def Specification.parse (sourceId text : String) : Resolve Specification := do
  let doc ← Checked.ofExcept (Document.ofJson text)
  doc.resolve sourceId

/-- One source of a batch. -/
structure ParsedSource where
  sourceId : String
  outcome : Except DocumentError Specification

/-- Parses a source; a failure is also a warning. -/
def ParsedSource.ofText (sourceId text : String) : List Warning × ParsedSource :=
  let parsed := Specification.parse sourceId text
  let refused :=
    match parsed.outcome with
    | .ok _ => []
    | .error e => [.refused sourceId e]
  (parsed.warnings ++ refused, ⟨sourceId, parsed.outcome⟩)

/-- Parses every source, given by identifier and text. -/
def parseBatch (sources : List (String × String)) : List Warning × List ParsedSource :=
  let parsed := sources.map fun (sourceId, text) => ParsedSource.ofText sourceId text
  (parsed.flatMap (·.1), parsed.map (·.2))

/-- The specifications among the parsed sources. -/
def specificationsOf (sources : List ParsedSource) : List Specification :=
  sources.filterMap fun source => source.outcome.toOption

end ClientGen
