import ClientGen.CSharp.Argument
import ClientGen.CSharp.Client
import ClientGen.CSharp.CodeBlock
import ClientGen.CSharp.Emission
import ClientGen.CSharp.Model
import ClientGen.CSharp.Name
import ClientGen.CSharp.Plan
import ClientGen.CSharp.Text
import ClientGen.CSharp.Type
import ClientGen.Checked
import ClientGen.CommandLine.Command
import ClientGen.CommandLine.Execute
import ClientGen.CommandLine.Grammar
import ClientGen.Config
import ClientGen.ConfigFile
import ClientGen.Document.Basic
import ClientGen.Document.Error
import ClientGen.Document.Printer
import ClientGen.Document.Reader
import ClientGen.Emission.Batch
import ClientGen.Emission.Error
import ClientGen.Emission.Generate
import ClientGen.Emission.Generation
import ClientGen.Emission.Registry
import ClientGen.Json.Fault
import ClientGen.Json.Node
import ClientGen.Json.Number
import ClientGen.Json.Reader
import ClientGen.Json.Token
import ClientGen.Json.Value
import ClientGen.Language
import ClientGen.Main
import ClientGen.Name.Identifier
import ClientGen.Name.Route
import ClientGen.Name.TypeName
import ClientGen.Number.Double
import ClientGen.Number.Natural
import ClientGen.Number.Shortest
import ClientGen.Proofs.CSharp.Dedup
import ClientGen.Proofs.CSharp.Plan
import ClientGen.Proofs.CSharp.Planned
import ClientGen.Proofs.CSharp.Reference
import ClientGen.Proofs.CSharp.Scope
import ClientGen.Proofs.CSharp.Site
import ClientGen.Proofs.CSharp.TypeName
import ClientGen.Proofs.Document.Keyed
import ClientGen.Proofs.Document.Record
import ClientGen.Proofs.Document.RoundTrip
import ClientGen.Proofs.Emission.Batch
import ClientGen.Proofs.Emission.Registry
import ClientGen.Proofs.Json.Lexer
import ClientGen.Proofs.Json.Reader
import ClientGen.Proofs.Json.Token
import ClientGen.Proofs.Json.Value
import ClientGen.Proofs.Number.Rounding
import ClientGen.Proofs.Number.Shortest
import ClientGen.Proofs.Outcome
import ClientGen.Proofs.Resolve.Node
import ClientGen.Proofs.Resolve.Parts
import ClientGen.Proofs.Resolve.Shared
import ClientGen.Proofs.Resolve.WellFormed
import ClientGen.Proofs.Schema.Erase
import ClientGen.Proofs.Schema.Shape
import ClientGen.Proofs.TypeScript.Scope
import ClientGen.Resolve.Document
import ClientGen.Resolve.Parameter
import ClientGen.Resolve.Schema
import ClientGen.Run.Basic
import ClientGen.Run.Error
import ClientGen.Schema.Basic
import ClientGen.Schema.Shape
import ClientGen.Settings
import ClientGen.Source
import ClientGen.Specification.Basic
import ClientGen.Specification.Operation
import ClientGen.Storage.Basic
import ClientGen.Storage.Disk
import ClientGen.Storage.Path
import ClientGen.Table
import ClientGen.Text.Blank
import ClientGen.Text.Letter
import ClientGen.Text.LetterRuns
import ClientGen.Text.Words
import ClientGen.TypeScript.Declaration
import ClientGen.TypeScript.Emission
import ClientGen.TypeScript.Name
import ClientGen.TypeScript.Type
import ClientGen.Warning
import ClientGen.Yaml.Basic
import ClientGen.Yaml.Printer
import ClientGen.Yaml.Reader
import ClientGen.Yaml.Scalar
import ClientGen.Proofs.Number.Natural
import ClientGen.Proofs.CSharp.CodeBlock
import ClientGen.Proofs.CSharp.Dispatch
import ClientGen.Proofs.Emission.Uniqueness
import ClientGen.Proofs.Storage.Disk
import ClientGen.Proofs.Run.Steps
import ClientGen.Proofs.Run.Atomic
import ClientGen.Proofs.Run.Accounting
import ClientGen.Proofs.Emission.Parallel
import ClientGen.Proofs.TypeScript.Owners
import ClientGen.Proofs.Emission.Calls
import ClientGen.Proofs.Emission.Independence
import ClientGen.Proofs.CSharp.Clients
import ClientGen.Proofs.CSharp.Legality
import ClientGen.Proofs.Name.Normalize
import ClientGen.Proofs.Name.Unique
import ClientGen.Proofs.Name.Words
import ClientGen.Proofs.CSharp.Signature
import ClientGen.Proofs.CSharp.Response
import ClientGen.Proofs.CSharp.Alias
import ClientGen.Proofs.Emission.Lookup
import ClientGen.Proofs.Resolve.Fault
import ClientGen.Proofs.Resolve.Merged
import ClientGen.Proofs.CSharp.Dangling
import ClientGen.Proofs.TypeScript.Dangling
import ClientGen.Proofs.Emission.Documentation
import ClientGen.Proofs.CSharp.Address
import ClientGen.Proofs.CSharp.MethodName
import ClientGen.Proofs.CSharp.Member
import ClientGen.Proofs.Emission.Enumeration
import ClientGen.Proofs.TypeScript.Interface
import ClientGen.Proofs.CSharp.Literal
import ClientGen.Proofs.Text.Comment
import ClientGen.Proofs.Emission.Comment
import ClientGen.Proofs.CSharp.Renaming
import ClientGen.Proofs.Name.Nested
import ClientGen.Proofs.Run.Frame
import ClientGen.Proofs.Json.Pretty
import ClientGen.Proofs.Settings
import ClientGen.Proofs.Emission.Staging
import ClientGen.Proofs.Name.Search
import ClientGen.Proofs.CSharp.InPlace
import ClientGen.Proofs.CSharp.Preorder
import ClientGen.Proofs.CSharp.Nesting
