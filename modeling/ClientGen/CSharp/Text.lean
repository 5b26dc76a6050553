import ClientGen.CSharp.Client

/-!
# The text of C# documents

Models, clients and the types that every document declares, line by line.
-/

namespace ClientGen.CSharp

/-- A summary in documentation, indented. -/
def summaryLines (indent : String) : Option String → List String
  | some text => [indent ++ "/// <summary>" ++ text ++ "</summary>"]
  | none => []

/-- Lines in braces that stand on lines of their own. -/
def bracedLines (indent : String) (body : List String) : List String :=
  [indent ++ openBrace] ++ body ++ [indent ++ closeBrace]

/-- What can be done with a property, in braces. -/
def accessors (text : String) : String := openBrace ++ " " ++ text ++ " " ++ closeBrace

/-- The lines of a property. -/
def ModelProperty.lines (p : ModelProperty) : List String :=
  summaryLines "        " (p.description.map escapeXml) ++
    ["        [JsonProperty(" ++ stringLiteral p.wireName ++ ")]",
     "        public " ++ p.type ++ " " ++ p.name ++ " " ++ accessors "get; set;"]

/-- The lines of an enum member. -/
def EnumMember.lines (m : EnumMember) : List String :=
  ["        [EnumMember(Value = " ++ stringLiteral m.value ++ ")]", "        " ++ m.name ++ ","]

/-- The lines of the member for undeclared properties. -/
def extensionLines : Option String → List String
  | some name =>
    ["        [JsonExtensionData]",
     "        public IDictionary<string, object> " ++ name ++ " " ++ accessors "get; set;"]
  | none => []

/-- Groups of lines with an empty line between them. -/
def spaced : List (List String) → List String
  | [] => []
  | [group] => group
  | group :: groups => group ++ "" :: spaced groups

/-- The lines of a model. -/
def Model.lines : Model → List String
  | .enumModel name description members _ =>
    summaryLines "    " (description.map escapeXml) ++
      ["    [JsonConverter(typeof(StringEnumConverter))]", "    public enum " ++ name] ++
      bracedLines "    " (members.flatMap EnumMember.lines)
  | .classModel name description base properties extension _ =>
    let heading :=
      match base with
      | some base => name ++ " : " ++ base
      | none => name
    let groups := properties.map ModelProperty.lines ++
      (if extension.isSome then [extensionLines extension] else [])
    summaryLines "    " (description.map escapeXml) ++
      ["    public partial class " ++ heading] ++ bracedLines "    " (spaced groups)

/-- The lines of a method. -/
def ClientMethod.lines (m : ClientMethod) : List String :=
  m.docs.map ("        /// " ++ ·) ++
    (if m.deprecated then ["        [Obsolete]"] else []) ++
    ["        public async Task<APIResponse<" ++ m.result ++ ">> " ++ m.name ++
      "(" ++ m.params ++ ")"] ++
    bracedLines "        " (m.body.map ("            " ++ ·))

/-- The lines of the constructor of a client. -/
def Client.constructorLines (c : Client) : List String :=
  ["        public " ++ c.name ++ "(string url = null, IHTTPTransport http = null)"] ++
    bracedLines "        "
      ["            this.url = string.IsNullOrWhiteSpace(url) ? " ++ c.baseUrl ++
         " : url.TrimEnd('/');",
       "            this.http = http ?? new HTTPTransport();"]

/-- The lines of a client. -/
def Client.lines (c : Client) : List String :=
  summaryLines "    " c.description ++
    ["    public partial class " ++ c.name] ++
    bracedLines "    "
      (["        private readonly string url;",
        "        private readonly IHTTPTransport http;",
        ""] ++
        c.constructorLines ++ c.methods.flatMap (fun m => "" :: m.lines))

/-- How a call can come out, and what it gives if it has nothing to give. -/
def outcomeLines : List String :=
  ["    public enum ResponseKind"] ++
    bracedLines "    "
      ["        Success,",
       "        Declared,",
       "        Undeclared,",
       "        TransportFailure,"] ++
    ["",
     "    /// <summary>Payload type of operations whose success response has no body.</summary>",
     "    public sealed class NoContent"] ++
    bracedLines "    " []

/-- A static function of a response that makes one: its name with parameters, and what it makes. -/
def factoryLines (heading made : String) : List String :=
  ["", "        public static APIResponse<T> " ++ heading ++ " => new " ++ made ++ ";"]

/-- The lines of the class of responses. -/
def responseLines : List String :=
  ["    /// <summary>Outcome of one call: how the status code matched, and the success payload." ++
     "</summary>",
   "    public class APIResponse<T>"] ++
    bracedLines "    "
      (["        protected APIResponse(ResponseKind kind, HttpStatusCode? statusCode, T data)"] ++
        bracedLines "        "
          ["            Kind = kind;",
           "            StatusCode = statusCode;",
           "            Data = data;"] ++
        ["",
         "        public ResponseKind Kind " ++ accessors "get;",
         "",
         "        public HttpStatusCode? StatusCode " ++ accessors "get;",
         "",
         "        /// <summary>Set only when Kind is Success.</summary>",
         "        public T Data " ++ accessors "get;"] ++
        factoryLines "Success(T data, HttpStatusCode statusCode)"
          "APIResponse<T>(ResponseKind.Success, statusCode, data)" ++
        factoryLines "Success(HttpStatusCode statusCode)"
          "APIResponse<T>(ResponseKind.Success, statusCode, default(T))" ++
        factoryLines "Declared(HttpStatusCode statusCode)"
          "APIResponse<T>(ResponseKind.Declared, statusCode, default(T))" ++
        factoryLines "Declared<TOther>(TOther payload, HttpStatusCode statusCode)"
          "DeclaredResponse<TOther>(payload, statusCode)" ++
        factoryLines "Undeclared(HttpStatusCode statusCode)"
          "APIResponse<T>(ResponseKind.Undeclared, statusCode, default(T))" ++
        factoryLines "TransportFailure()"
          "APIResponse<T>(ResponseKind.TransportFailure, null, default(T))" ++
        ["",
         "        /// <summary>A declared response whose body has its own type.</summary>",
         "        public sealed class DeclaredResponse<TOther> : APIResponse<T>"] ++
        bracedLines "        "
          (["            internal DeclaredResponse(TOther payload, HttpStatusCode statusCode)",
            "                : base(ResponseKind.Declared, statusCode, default(T))"] ++
            bracedLines "            " ["                Payload = payload;"] ++
            ["", "            public TOther Payload " ++ accessors "get;"]))

/-- The lines of the class that writes values into addresses. -/
def queryStringLines : List String :=
  ["    internal static class QueryString"] ++
    bracedLines "    "
      (["        public static string Format(object value)"] ++
        bracedLines "        "
          (["            switch (value)"] ++
            bracedLines "            "
              ["                case null:",
               "                    return string.Empty;",
               "                case bool flag:",
               "                    return flag ? \"true\" : \"false\";",
               "                case DateTime date:",
               "                    return date.ToString(\"o\", CultureInfo.InvariantCulture);",
               "                case Enum member:",
               "                    var field = member.GetType().GetField(member.ToString());",
               "                    var attribute = field?.GetCustomAttributes(typeof(" ++
                 "EnumMemberAttribute), false).FirstOrDefault() as EnumMemberAttribute;",
               "                    return attribute?.Value ?? member.ToString();",
               "                case IFormattable formattable:",
               "                    return formattable.ToString(null, " ++
                 "CultureInfo.InvariantCulture);",
               "                default:",
               "                    return value.ToString();"]))

/-- The types that every document declares, and what it uses. -/
def supportLines : List String :=
  ["    using System;",
   "    using System.Collections.Generic;",
   "    using System.Globalization;",
   "    using System.IO;",
   "    using System.Linq;",
   "    using System.Net;",
   "    using System.Net.Http;",
   "    using System.Runtime.Serialization;",
   "    using System.Text;",
   "    using System.Threading.Tasks;",
   "    using HTTP;",
   "    using Newtonsoft.Json;",
   "    using Newtonsoft.Json.Converters;",
   ""] ++
    outcomeLines ++ "" :: responseLines ++ "" :: queryStringLines

/-- The text of a document. -/
def documentText (options : EmitOptions) (models : List Model) (clients : List Client) : String :=
  joinLines
    (["// " ++ generatedHeader,
      "// Changes to this file will be lost when it is regenerated.",
      "namespace " ++ Name.normalizePath anyType options.space] ++
      bracedLines ""
        (supportLines ++
          models.flatMap (fun m => "" :: m.lines) ++
          clients.flatMap (fun c => "" :: c.lines))) ++ "\n"

end ClientGen.CSharp
