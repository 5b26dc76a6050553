import ClientGen.CSharp.Argument
import ClientGen.CSharp.CodeBlock
import ClientGen.Emission.Generation
import ClientGen.Name.Route

/-!
# C# clients

The class that wraps the operations of a specification, as data: its methods with their signatures,
documentation and bodies.

* `pathParts` cuts a path into literal text and arguments.
* `responseCases` decides how each declared status code is answered.
* `methodNames` gives every operation a name of its own.
-/

namespace ClientGen.CSharp

/-- The payload type of operations that send nothing back. -/
def noContent : String := "NoContent"

/-- The name of the client class. -/
def clientName (spec : Specification) : String := typeName spec.info.title

/-! ## Method names -/

/-- The name of an operation before clashes are looked at. -/
def methodBaseName (op : Operation) : String :=
  match op.operationId with
  | some id => normalize id
  | none => Name.ofFirstSegment op.method.upper op.path

/-- The name of an operation, given the names in use: its own, or the name of its route, numbered if
need be. -/
def methodName (op : Operation) (taken : List String) : String :=
  let base := methodBaseName op
  if base ∈ taken then
    let route := Text.pascalCase (Name.ofRoute op.method.upper op.path).toList
    Name.uniqueName (String.ofList route) taken
  else base

/-- The names of operations in their order, given the names in use. -/
def methodNames (taken : List String) : List Operation → List String
  | [] => []
  | op :: ops =>
    let name := methodName op taken
    name :: methodNames (taken ++ [name]) ops

/-- Upper-cases the first letter. -/
def upperFirst (name : String) : String :=
  match name.toList with
  | [] => ""
  | c :: s => String.ofList (c.toUpper :: s)

/-! ## Addresses -/

/-- A piece of a path. -/
inductive PathPart where
  | literal (text : String)
  | argument (value : Argument)
  deriving DecidableEq, Repr

/-- The path argument of a name. -/
def pathArgument? (arguments : List Argument) (name : List Char) : Option Argument :=
  arguments.find? fun a => a.kind = .path ∧ a.wireName = String.ofList name

/-- Literal text, unless there is none. -/
def literalParts (text : List Char) : List PathPart :=
  if text.isEmpty then [] else [.literal (String.ofList text)]

/-- Cuts a path after literal text that is still pending. A name in braces is an argument if there
is one of that name, and literal text otherwise. -/
def pathPartsAfter (arguments : List Argument) : (fuel : Nat) → (pending rest : List Char) →
    List PathPart
  | 0, pending, rest => literalParts (pending ++ rest)
  | fuel + 1, pending, rest =>
    let before := rest.takeWhile (· ≠ '{')
    match rest.dropWhile (· ≠ '{') with
    | [] => literalParts (pending ++ rest)
    | _ :: opened =>
      let name := opened.takeWhile (· ≠ '}')
      match opened.dropWhile (· ≠ '}') with
      | [] => literalParts (pending ++ rest)
      | _ :: after =>
        match pathArgument? arguments name with
        | some a =>
          literalParts (pending ++ before) ++ .argument a :: pathPartsAfter arguments fuel [] after
        | none =>
          let group := '{' :: name ++ ['}']
          pathPartsAfter arguments fuel (pending ++ before ++ group) after

/-- Cuts a path into literal text and arguments. There are no more groups than opening braces. -/
def pathParts (path : String) (arguments : List Argument) : List PathPart :=
  pathPartsAfter arguments (path.toList.count '{') [] path.toList

/-- A piece of a path as an expression. -/
def PathPart.expression : PathPart → String
  | .literal text => stringLiteral text
  | .argument a => "Uri.EscapeDataString(QueryString.Format(" ++ a.ident ++ "))"

/-- The address of a request as an expression. -/
def pathExpression (path : String) (arguments : List Argument) : String :=
  " + ".intercalate ("this.url" :: (pathParts path arguments).map PathPart.expression)

/-! ## Requests -/

/-- Code for an argument; what is optional is looked at first. -/
def guarded (a : Argument) (body : List Code) : List Code :=
  if a.required then body else [.braced ("if (" ++ a.ident ++ " != null)") body]

/-- Adds a query argument. -/
def queryCode (a : Argument) : List Code :=
  let key := stringLiteral (a.wireName ++ "=")
  let item := "Uri.EscapeDataString(QueryString.Format(_item))"
  match a.kind with
  | .query (some .multi) =>
    guarded a [.braced ("foreach (var _item in " ++ a.ident ++ ")")
      [.line ("_query.Add(" ++ key ++ " + " ++ item ++ ");")]]
  | .query (some format) =>
    let separator := stringLiteral (format.separator?.getD ",")
    guarded a [.line ("_query.Add(" ++ key ++ " + string.Join(" ++ separator ++ ", " ++ a.ident ++
      ".Select(_item => " ++ item ++ ")));")]
  | _ =>
    guarded a [.line ("_query.Add(" ++ key ++ " + Uri.EscapeDataString(QueryString.Format(" ++
      a.ident ++ ")));")]

/-- Is it a query argument? -/
def Argument.isQuery (a : Argument) : Bool :=
  match a.kind with
  | .query _ => true
  | _ => false

/-- Puts the query together. -/
def queryBlock (arguments : List Argument) : List Code :=
  let query := arguments.filter (·.isQuery)
  if query.isEmpty then []
  else
    .line "var _query = new List<string>();" ::
      query.flatMap queryCode ++
      [.braced "if (_query.Count > 0)" [.line "_uri += \"?\" + string.Join(\"&\", _query);"]]

/-- Sets a header. -/
def headerCode (a : Argument) : List Code :=
  guarded a [.line ("_options.Headers[" ++ stringLiteral a.wireName ++ "] = QueryString.Format(" ++
    a.ident ++ ");")]

/-- The content of a request as an expression. -/
def contentCode (op : Operation) (payload : String) : Code :=
  let mediaType := stringLiteral (op.consumes.headD "application/json")
  .line ("var _content = new StringContent(JsonConvert.SerializeObject(" ++ payload ++
    "), Encoding.UTF8, " ++ mediaType ++ ");")

/-- An entry of a form. -/
def formEntry (a : Argument) : Code :=
  .line ("[" ++ stringLiteral a.wireName ++ "] = " ++ a.ident ++ ",")

/-- The code that makes the content, and how the request refers to it. The body counts, then a form:
a single field is sent by itself. -/
def contentBlock (op : Operation) (arguments : List Argument) : List Code × String :=
  match arguments.find? (·.kind = .body), arguments.filter (·.kind = .formData) with
  | some a, _ => ([contentCode op a.ident], "_content")
  | none, [] => ([], "null")
  | none, [a] => ([contentCode op a.ident], "_content")
  | none, fields =>
    ([.block "var _form = new Dictionary<string, object>" (fields.map formEntry)
        (closeBrace ++ ";"),
      contentCode op "_form"], "_content")

/-- Sends the request. -/
def requestBlock (op : Operation) (arguments : List Argument) : List Code :=
  let call := "var _response = await this.http." ++ op.method.pascal ++
    "Async(new Uri(_uri, UriKind.Absolute), "
  if op.method.hasBody then
    let (code, content) := contentBlock op arguments
    code ++ [.line (call ++ content ++ ", _options);")]
  else [.line (call ++ "_options);")]

/-! ## Responses -/

/-- How a status code is answered. -/
structure ResponseCase where
  code : Nat
  /-- the type of what is sent back, if anything is -/
  payload : Option String
  /-- does it count as the success of the operation? -/
  success : Bool
  deriving DecidableEq, Repr

/-- What the success of an operation sends back. -/
def successPayload (successType : TypeRef) : Option String :=
  if successType.name = noContent then none else some successType.name

/-- The schema of a response that has a payload of its own. The canonical success, what has its
shape, and what has no schema carry the payload of the success. -/
def ownSchema? (op : Operation) (response : Response) : Option Schema :=
  let canonical := op.canonicalSuccess?
  if canonical.map (·.status) = some response.status then none
  else response.schema.filter fun schema => some schema.shape ≠ canonical.bind Response.shape?

/-- The type of what a response sends back. -/
def responsePayload (spec : Specification) (op : Operation) (stem : String) (successType : TypeRef)
    (code : Nat) (response : Response) : Plan (Option String) :=
  match ownSchema? op response with
  | some schema => do
    let type ← mapSchema spec.definitions schema (stem ++ "Out" ++ toString code) op.context
    return some type.name
  | none => return successPayload successType

/-- How a response is answered. -/
def responseCase (spec : Specification) (op : Operation) (stem : String) (successType : TypeRef)
    (code : Nat) (response : Response) : Plan ResponseCase := do
  let payload ← responsePayload spec op stem successType code response
  return ⟨code, payload, response.status.isSuccess && payload = successPayload successType⟩

/-- How the responses with a code are answered, in their order. -/
def responseCases (spec : Specification) (op : Operation) (stem : String) (successType : TypeRef) :
    Plan (List ResponseCase) :=
  op.codedResponses.mapM fun (code, r) => responseCase spec op stem successType code r

/-- The code of one case. -/
def caseCode (result : String) (c : ResponseCase) : Code :=
  let answer := "return APIResponse<" ++ result ++ ">."
  let body : List Code :=
    match c.payload with
    | some payload =>
      let data := "var _data = JsonConvert.DeserializeObject<" ++ payload ++
        ">(await _response.Content.ReadAsStringAsync());"
      let call := if c.success then "Success" else "Declared<" ++ payload ++ ">"
      [.line data, .line (answer ++ call ++ "(_data, _response.StatusCode);")]
    | none =>
      let call := if c.success then "Success" else "Declared"
      [.line (answer ++ call ++ "(_response.StatusCode);")]
  .braced ("case " ++ toString c.code ++ ":") body

/-- Answers the response. -/
def dispatchCode (result : String) (cases : List ResponseCase) : Code :=
  let answer := "return APIResponse<" ++ result ++ ">."
  .braced "switch ((int)_response.StatusCode)"
    (cases.map (caseCode result) ++
      [.braced "default:" [.line (answer ++ "Undeclared(_response.StatusCode);")]])

/-! ## Methods -/

/-- What a method takes and gives. -/
structure Signature where
  /-- the type of its success -/
  success : TypeRef
  /-- in the order of the parameter list -/
  arguments : List Argument
  /-- how the declared status codes are answered -/
  cases : List ResponseCase
  deriving DecidableEq, Repr

/-- A method of a client. -/
structure ClientMethod where
  name : String
  signature : Signature
  /-- lines of documentation -/
  docs : List String
  deprecated : Bool
  /-- lines of code -/
  body : List String
  deriving DecidableEq, Repr

/-- The type of the success of a method. -/
def ClientMethod.result (m : ClientMethod) : String := m.signature.success.name

/-- The parameter list of a method. -/
def ClientMethod.params (m : ClientMethod) : String :=
  ", ".intercalate (m.signature.arguments.map Argument.declaration)

/-- Replaces the characters that have a meaning in documentation. -/
def escapeXmlChar (c : Char) : List Char :=
  match c with
  | '&' => ['&', 'a', 'm', 'p', ';']
  | '<' => ['&', 'l', 't', ';']
  | '>' => ['&', 'g', 't', ';']
  | c => [c]

/-- Text inside documentation. -/
def escapeXml (s : String) : String := String.ofList (s.toList.flatMap escapeXmlChar)

/-- An element of documentation, if there is text for it. -/
def docElement (name : String) (text : Option String) : List String :=
  match Text.oneLine? text with
  | some line => ["<" ++ name ++ ">" ++ escapeXml line ++ "</" ++ name ++ ">"]
  | none => []

/-- The documentation of an argument. -/
def argumentDoc (a : Argument) : List String :=
  match a.description with
  | some text =>
    let name := String.ofList (a.ident.toList.dropWhile (· = '@'))
    ["<param name=\"" ++ name ++ "\">" ++ escapeXml text ++ "</param>"]
  | none => []

/-- The documentation of a method. -/
def methodDocs (op : Operation) (arguments : List Argument) : List String :=
  docElement "summary" op.summary ++
    docElement "remarks" op.description ++
    arguments.flatMap argumentDoc ++
    docElement "returns" (op.canonicalSuccess?.map (·.description))

/-- The code of a method. -/
def methodCode (op : Operation) (options : EmitOptions) (signature : Signature) : List Code :=
  let arguments := signature.arguments
  let result := signature.success.name
  .line ("var _uri = " ++ pathExpression op.path arguments ++ ";") ::
    queryBlock arguments ++
    .line ("var _options = new HTTPOptions(TimeSpan.FromSeconds(" ++ toString options.timeout ++
      "));") ::
    (if op.oauthSecured then [.line ("_options.Token = " ++ tokenParameter ++ ";")] else []) ++
    (arguments.filter (·.kind = .header)).flatMap headerCode ++
    requestBlock op arguments ++
    [.braced "if (_response == null)"
      [.line ("return APIResponse<" ++ result ++ ">.TransportFailure();")],
     dispatchCode result signature.cases]

/-- The type of the success of an operation. -/
def successType (spec : Specification) (op : Operation) (stem : String) : Plan TypeRef :=
  match op.successSchema? with
  | some schema => mapSchema spec.definitions schema (stem ++ "Out") op.context
  | none => return .reference noContent

/-- Does an argument travel in the body? -/
def Argument.isBody (a : Argument) : Bool := a.kind = .body || a.kind = .formData

/-- What the method of an operation takes and gives. -/
def planSignature (spec : Specification) (item : PathItem) (op : Operation) (stem : String) :
    Plan Signature := do
  let success ← successType spec op stem
  let arguments ← arguments spec item op stem
  let cases ← responseCases spec op stem success
  return ⟨success, arguments, cases⟩

/-- The method of an operation under a name. -/
def planMethod (spec : Specification) (options : EmitOptions) (item : PathItem) (op : Operation)
    (name : String) : Plan ClientMethod := do
  let signature ← planSignature spec item op (upperFirst name)
  Plan.warnIf (!op.method.hasBody && signature.arguments.any (·.isBody))
    (.bodyIgnored spec.sourceId op.label)
  return {
    name := name ++ "Async"
    signature
    docs := methodDocs op signature.arguments
    deprecated := op.deprecated
    body := codeLines (methodCode op options signature) }

/-- The class that wraps the operations of a specification. -/
structure Client where
  name : String
  /-- documentation, escaped -/
  description : Option String
  /-- the address as a literal -/
  baseUrl : String
  methods : List ClientMethod
  deriving DecidableEq, Repr

/-- Drops slashes at the end. -/
def trimSlashes (url : String) : String :=
  String.ofList (url.toList.reverse.dropWhile (· = '/')).reverse

/-- The client of a specification. -/
def planClient (spec : Specification) (options : EmitOptions) : Plan Client := do
  let names := methodNames [] (spec.operations.map (·.2))
  let methods ← (spec.operations.zip names).mapM fun ((item, op), name) =>
    planMethod spec options item op name
  return {
    name := clientName spec
    description := (Text.oneLine? spec.info.description).map escapeXml
    baseUrl := stringLiteral (trimSlashes (options.baseUrl.getD spec.baseUrl))
    methods }

end ClientGen.CSharp
