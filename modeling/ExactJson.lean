import ExactJson.Text.Bytes
import ExactJson.Text.Utf8
import ExactJson.Text.Utf16
import ExactJson.Text.Printable
import ExactJson.Text.Quoted
import ExactJson.Text.Base64
import ExactJson.Failure
import ExactJson.Reader.Code
import ExactJson.Reader.Cursor
import ExactJson.Reader.Phase
import ExactJson.Number.Integer
import ExactJson.Number.Decimal
import ExactJson.Number.DecimalText
import ExactJson.Number.Run
import ExactJson.Value.Members
import ExactJson.Value.Object
import ExactJson.Value.Basic
import ExactJson.Text.Escape
import ExactJson.Reader.Options
import ExactJson.Reader.Stack
import ExactJson.Reader.Document
import ExactJson.Writer
import ExactJson.Reader.Bounded
import ExactJson.Number.Binary
import ExactJson.Number.Shortest
import ExactJson.Number.FloatText
import ExactJson.Value.Lookup
import ExactJson.Value.Host
import ExactJson.Yaml.Token
import ExactJson.Yaml.Input
import ExactJson.Yaml.Scanner
import ExactJson.Yaml.Resolve
import ExactJson.Yaml.Parser
import ExactJson.Yaml.Untyped
import ExactJson.Yaml.Decode
import ExactJson.Settings
import ExactJson.Cli.Spec
import ExactJson.Cli.Parse
import ExactJson.Cli.Complete
import ExactJson.Cli.Dispatch
import ExactJson.Cli.Place
import ExactJson.Cli.Tool
import ExactJson.Main
import ExactJson.Proofs.Grammar
import ExactJson.Proofs.CursorSteps
import ExactJson.Proofs.ReaderSteps
import ExactJson.Proofs.NoInternalFailure
import ExactJson.Proofs.PhaseText
import ExactJson.Proofs.StepText
import ExactJson.Proofs.ReaderSound
import ExactJson.Proofs.ReaderComplete
import ExactJson.Proofs.NumberText
import ExactJson.Proofs.EscapeText
import ExactJson.Proofs.ValueShape
import ExactJson.Proofs.WriterText
import ExactJson.Proofs.GrammarValues
import ExactJson.Proofs.KeyOrder
import ExactJson.Proofs.WriteEquiv
import ExactJson.Proofs.RoundTrip
import ExactJson.Proofs.BoundedRead
import ExactJson.Proofs.CanonicalDecimal
import ExactJson.Proofs.NumberSyntax
import ExactJson.Proofs.GrammarRests
import ExactJson.Proofs.FailureSites
import ExactJson.Proofs.ReaderLocality
import ExactJson.Proofs.ViablePrefix
import ExactJson.Proofs.ObjectStore
import ExactJson.Proofs.WriteRefusal
import ExactJson.Proofs.ReaderTermination
import ExactJson.Proofs.Utf16Order
import ExactJson.Proofs.WriterLayout
import ExactJson.Proofs.NumberLength
import ExactJson.Proofs.HostData
import ExactJson.Proofs.ReaderPositions
import ExactJson.Proofs.CursorRuns
import ExactJson.Proofs.QuotedReadBack
