import MessageCodec.Codec.Basic
import MessageCodec.Codec.Decode
import MessageCodec.Codec.Element
import MessageCodec.Codec.Encode
import MessageCodec.Codec.Loaded
import MessageCodec.Error
import MessageCodec.Generation
import MessageCodec.Journal
import MessageCodec.Main
import MessageCodec.Naming.Case
import MessageCodec.Naming.Identifier
import MessageCodec.Naming.Resolver
import MessageCodec.Naming.Rules
import MessageCodec.Number.Binary
import MessageCodec.Number.Checked
import MessageCodec.Number.Decimal
import MessageCodec.Number.FloatText
import MessageCodec.Number.IntegerText
import MessageCodec.Number.Numeral
import MessageCodec.Number.Power
import MessageCodec.Number.Shortest
import MessageCodec.Number.Word
import MessageCodec.Path
import MessageCodec.Plan.Basic
import MessageCodec.Plan.Default
import MessageCodec.Plan.EnumTable
import MessageCodec.Plan.Feature
import MessageCodec.Plan.Planner
import MessageCodec.Plan.Selection
import MessageCodec.Plan.Stem
import MessageCodec.Plugin
import MessageCodec.Proofs.Base64
import MessageCodec.Proofs.Closure
import MessageCodec.Proofs.Coerce
import MessageCodec.Proofs.Contract
import MessageCodec.Proofs.Decoding
import MessageCodec.Proofs.Defaults
import MessageCodec.Proofs.Dependencies
import MessageCodec.Proofs.Element
import MessageCodec.Proofs.Emission
import MessageCodec.Proofs.Encoding
import MessageCodec.Proofs.EnumNames
import MessageCodec.Proofs.EnumTable
import MessageCodec.Proofs.Evolution
import MessageCodec.Proofs.Expression
import MessageCodec.Proofs.Features
import MessageCodec.Proofs.FilePaths
import MessageCodec.Proofs.Filling
import MessageCodec.Proofs.Identifier
import MessageCodec.Proofs.Intake
import MessageCodec.Proofs.IntegerForms
import MessageCodec.Proofs.Layout
import MessageCodec.Proofs.Limits
import MessageCodec.Proofs.Lines
import MessageCodec.Proofs.Literals
import MessageCodec.Proofs.LittleEndian
import MessageCodec.Proofs.Loading
import MessageCodec.Proofs.Lockstep
import MessageCodec.Proofs.Lookup
import MessageCodec.Proofs.Loop
import MessageCodec.Proofs.Normal
import MessageCodec.Proofs.Numeral
import MessageCodec.Proofs.Omission
import MessageCodec.Proofs.Oneof
import MessageCodec.Proofs.Outcome
import MessageCodec.Proofs.Packing
import MessageCodec.Proofs.Parameters
import MessageCodec.Proofs.Parts
import MessageCodec.Proofs.Pieces
import MessageCodec.Proofs.Plan
import MessageCodec.Proofs.Planned
import MessageCodec.Proofs.Planning
import MessageCodec.Proofs.Position
import MessageCodec.Proofs.Progress
import MessageCodec.Proofs.Reading
import MessageCodec.Proofs.ReducedForm
import MessageCodec.Proofs.Registration
import MessageCodec.Proofs.Reloading
import MessageCodec.Proofs.Rendering
import MessageCodec.Proofs.Reporting
import MessageCodec.Proofs.Resolution
import MessageCodec.Proofs.Respelling
import MessageCodec.Proofs.RoundTrip
import MessageCodec.Proofs.Running
import MessageCodec.Proofs.SchemaNames
import MessageCodec.Proofs.Selection
import MessageCodec.Proofs.Sequence
import MessageCodec.Proofs.Single
import MessageCodec.Proofs.Slice
import MessageCodec.Proofs.Stems
import MessageCodec.Proofs.Symbols
import MessageCodec.Proofs.Table
import MessageCodec.Proofs.Totality
import MessageCodec.Proofs.Traversal
import MessageCodec.Proofs.Trip
import MessageCodec.Proofs.Underflow
import MessageCodec.Proofs.Utf8
import MessageCodec.Proofs.Varint
import MessageCodec.Proofs.VarintForms
import MessageCodec.Proofs.Views
import MessageCodec.Proofs.WellFormed
import MessageCodec.Proofs.Word
import MessageCodec.Proofs.WrappedText
import MessageCodec.Schema.Basic
import MessageCodec.Schema.Binary.Read
import MessageCodec.Schema.Binary.Shape
import MessageCodec.Schema.Binary.Write
import MessageCodec.Schema.Descriptor
import MessageCodec.Schema.Registry
import MessageCodec.Schema.Scalar
import MessageCodec.Schema.Walk
import MessageCodec.Settings
import MessageCodec.Source.Element
import MessageCodec.Source.Field
import MessageCodec.Source.Module
import MessageCodec.Source.Package
import MessageCodec.Table
import MessageCodec.Text.Base64
import MessageCodec.Text.Blank
import MessageCodec.Text.Case
import MessageCodec.Text.CaseTable
import MessageCodec.Text.Digit
import MessageCodec.Text.Escaped
import MessageCodec.Text.Hex
import MessageCodec.Text.Identifier
import MessageCodec.Text.IdentifierTable
import MessageCodec.Text.Lines
import MessageCodec.Text.Printable
import MessageCodec.Text.Quoted
import MessageCodec.Text.Ranges
import MessageCodec.Text.Utf8
import MessageCodec.Tool.Arguments
import MessageCodec.Tool.Command
import MessageCodec.Tool.Compiler
import MessageCodec.Tool.Inputs
import MessageCodec.Tool.Session
import MessageCodec.Value.Access
import MessageCodec.Value.Basic
import MessageCodec.Value.Coerce
import MessageCodec.Value.Json
import MessageCodec.Value.Literal
import MessageCodec.Wire.Delimited
import MessageCodec.Wire.Fixed
import MessageCodec.Wire.Reader
import MessageCodec.Wire.Record
import MessageCodec.Wire.Skip
import MessageCodec.Wire.Varint
import MessageCodec.Workspace
