import PipelineLint.Analysis
import PipelineLint.Check.Call
import PipelineLint.Check.References
import PipelineLint.Check.Value
import PipelineLint.CommandLine
import PipelineLint.Config
import PipelineLint.Config.Search
import PipelineLint.Cursor
import PipelineLint.Diagnostic
import PipelineLint.Diagnostic.Encoding
import PipelineLint.Dict
import PipelineLint.Document
import PipelineLint.Double
import PipelineLint.FileSystem
import PipelineLint.Finding
import PipelineLint.Json.Basic
import PipelineLint.Json.Decoder
import PipelineLint.Json.Numeral
import PipelineLint.Json.Printer
import PipelineLint.Json.Reader
import PipelineLint.Json.Token
import PipelineLint.Main
import PipelineLint.Parameter
import PipelineLint.Path
import PipelineLint.Position
import PipelineLint.Proofs.Accounting
import PipelineLint.Proofs.ByteOffsets
import PipelineLint.Proofs.Concatenation
import PipelineLint.Proofs.CursorRuns
import PipelineLint.Proofs.Declaring
import PipelineLint.Proofs.Forwarding
import PipelineLint.Proofs.Innermost
import PipelineLint.Proofs.Locality
import PipelineLint.Proofs.LoneReferences
import PipelineLint.Proofs.LoneSpellings
import PipelineLint.Proofs.Messages
import PipelineLint.Proofs.NearestConfig
import PipelineLint.Proofs.Outlines
import PipelineLint.Proofs.Placement
import PipelineLint.Proofs.Positions
import PipelineLint.Proofs.Precision
import PipelineLint.Proofs.Preorder
import PipelineLint.Proofs.Provenance
import PipelineLint.Proofs.Provision
import PipelineLint.Proofs.RangeOrder
import PipelineLint.Proofs.Soundness
import PipelineLint.Proofs.SourceLines
import PipelineLint.Proofs.Substitutions
import PipelineLint.Proofs.Sweep
import PipelineLint.Proofs.Typing
import PipelineLint.Proofs.Verdicts
import PipelineLint.Reference
import PipelineLint.Run
import PipelineLint.Scopes
import PipelineLint.Snapshot
import PipelineLint.Snapshot.Decoding
import PipelineLint.SyntaxTree
import PipelineLint.Text.Blank
import PipelineLint.Text.Bytes
import PipelineLint.Text.Digits
import PipelineLint.Text.Lines
import PipelineLint.Toml.Basic
import PipelineLint.Toml.Numeral
import PipelineLint.Toml.Reader
import PipelineLint.Toml.Table
import PipelineLint.Toml.Text
import PipelineLint.Value
import PipelineLint.Verdict
