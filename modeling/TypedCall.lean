import TypedCall.Catalog.Basic
import TypedCall.Catalog.Loading
import TypedCall.CommandLine.Command
import TypedCall.CommandLine.Options
import TypedCall.Component.Basic
import TypedCall.Component.Source
import TypedCall.Config.Key
import TypedCall.Config.Sources
import TypedCall.Config.Value
import TypedCall.Decimal.Binary64
import TypedCall.Decimal.Layout
import TypedCall.Decimal.Reading
import TypedCall.Decimal.Shortest
import TypedCall.Decimal.Words
import TypedCall.Descriptor.Basic
import TypedCall.Descriptor.Json
import TypedCall.Descriptor.Signature
import TypedCall.Descriptor.Skeleton
import TypedCall.Editor.Session
import TypedCall.Editor.Text
import TypedCall.Files.Expansion
import TypedCall.Files.Pattern
import TypedCall.Files.Tree
import TypedCall.Json.Fault
import TypedCall.Json.Printer
import TypedCall.Json.Reader
import TypedCall.Json.Value
import TypedCall.Main
import TypedCall.Mismatch
import TypedCall.Payload
import TypedCall.Program
import TypedCall.Proofs.Catalog.Directory
import TypedCall.Proofs.Catalog.Formats
import TypedCall.Proofs.Catalog.RoundTrip
import TypedCall.Proofs.Catalog.Store
import TypedCall.Proofs.Choosing
import TypedCall.Proofs.CommandLine.Environment
import TypedCall.Proofs.Component.Lookup
import TypedCall.Proofs.Component.Reading
import TypedCall.Proofs.Component.RoundTrip
import TypedCall.Proofs.Component.Search
import TypedCall.Proofs.Config.Merging
import TypedCall.Proofs.Config.Variables
import TypedCall.Proofs.Decimal.Rounding
import TypedCall.Proofs.Decimal.Shortest
import TypedCall.Proofs.Descriptor.Clashes
import TypedCall.Proofs.Descriptor.Echo
import TypedCall.Proofs.Descriptor.Format
import TypedCall.Proofs.Descriptor.Reading
import TypedCall.Proofs.Descriptor.Rereading
import TypedCall.Proofs.Descriptor.RoundTrip
import TypedCall.Proofs.Descriptor.Shape
import TypedCall.Proofs.Descriptor.Signature
import TypedCall.Proofs.Descriptor.Skeleton
import TypedCall.Proofs.Descriptor.Writing
import TypedCall.Proofs.Editor.Answers
import TypedCall.Proofs.Editor.History
import TypedCall.Proofs.Editor.Preparing
import TypedCall.Proofs.Editor.Quotes
import TypedCall.Proofs.Editor.Rejections
import TypedCall.Proofs.Editor.Straightening
import TypedCall.Proofs.Editor.Tidying
import TypedCall.Proofs.Encoding
import TypedCall.Proofs.Entries
import TypedCall.Proofs.Files.Listing
import TypedCall.Proofs.Files.Paths
import TypedCall.Proofs.Json.Characters
import TypedCall.Proofs.Json.Documents
import TypedCall.Proofs.Json.Members
import TypedCall.Proofs.Json.Nesting
import TypedCall.Proofs.Json.Numbers
import TypedCall.Proofs.Json.Order
import TypedCall.Proofs.Json.Reading
import TypedCall.Proofs.Json.RoundTrip
import TypedCall.Proofs.Json.Strings
import TypedCall.Proofs.Printing
import TypedCall.Proofs.Sending
import TypedCall.Proofs.Settings.Loaders
import TypedCall.Proofs.Settings.Precedence
import TypedCall.Proofs.Settings.Reading
import TypedCall.Proofs.Settings.Texts
import TypedCall.Proofs.Target
import TypedCall.Proofs.Text.Bytes
import TypedCall.Proofs.Text.Lowercase
import TypedCall.Proofs.Text.Percent
import TypedCall.Proofs.Yaml.Documents
import TypedCall.Request
import TypedCall.Response
import TypedCall.Settings.Basic
import TypedCall.Settings.Loading
import TypedCall.Text.Blank
import TypedCall.Text.CaseTable
import TypedCall.Text.EscapeTable
import TypedCall.Text.Lowercase
import TypedCall.Text.Percent
import TypedCall.Text.Quoted
import TypedCall.Text.Split
import TypedCall.Toml.Date
import TypedCall.Toml.Reader
import TypedCall.Toml.Value
import TypedCall.Yaml.Cursor
import TypedCall.Yaml.Node
import TypedCall.Yaml.Reader
import TypedCall.Yaml.Resolution
import TypedCall.Yaml.Scalar
import TypedCall.Yaml.Source
import TypedCall.Yaml.Token
import TypedCall.Yaml.Value
