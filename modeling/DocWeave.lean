import DocWeave.Code.Builder
import DocWeave.Code.GeneratedFile
import DocWeave.Code.StructTable
import DocWeave.Command.Arguments
import DocWeave.Command.Run
import DocWeave.Compilation
import DocWeave.Diagnostic
import DocWeave.Entity.Finalize
import DocWeave.Entity.Graph
import DocWeave.Entity.Lineage
import DocWeave.Entity.OfManifest
import DocWeave.Extension.Dispatch
import DocWeave.Extension.FunctionType
import DocWeave.Extension.Layout
import DocWeave.Extension.Slot
import DocWeave.Extension.Symbols
import DocWeave.Fault
import DocWeave.Files.Access
import DocWeave.Files.Path
import DocWeave.Files.Tree
import DocWeave.Fragment.Documentation
import DocWeave.Fragment.Key
import DocWeave.Json.Value
import DocWeave.Lint
import DocWeave.Main
import DocWeave.Manifest.Check
import DocWeave.Manifest.Decode
import DocWeave.Manifest.Locate
import DocWeave.Manifest.Record
import DocWeave.Pipeline
import DocWeave.Proofs.Entity.Lineage
import DocWeave.Render.Class
import DocWeave.Render.Module
import DocWeave.Render.Piece
import DocWeave.Report.Bake
import DocWeave.Report.Check
import DocWeave.Report.Info
import DocWeave.Report.Item
import DocWeave.Snapshot.Basic
import DocWeave.Snapshot.Json
import DocWeave.Tag.Expansion
import DocWeave.Tag.Kind
import DocWeave.Tag.Token
import DocWeave.Template
import DocWeave.Text.Blank
import DocWeave.Text.Block
import DocWeave.Text.Quoted
import DocWeave.Text.Span
import DocWeave.Text.Word
import DocWeave.Toml.Document
import DocWeave.Toml.Quoted
import DocWeave.Toml.Read
import DocWeave.Toml.Scalar
import DocWeave.Toml.Value
import DocWeave.Proofs.Entity.Bases
import DocWeave.Proofs.Fragment.Markers
import DocWeave.Proofs.Tag.Parentheses
import DocWeave.Proofs.Tag.Places
import DocWeave.Proofs.Entity.Heirs
import DocWeave.Proofs.Entity.Reading
import DocWeave.Proofs.Code.Output
import DocWeave.Proofs.Entity.Sources
import DocWeave.Proofs.Render.Sites
import DocWeave.Proofs.Render.Parts
import DocWeave.Proofs.Pipeline.Phases
import DocWeave.Proofs.Pipeline.Faults
import DocWeave.Proofs.Text.Gist
import DocWeave.Proofs.Code.Gist
import DocWeave.Proofs.Template
import DocWeave.Proofs.Render.Emission
import DocWeave.Proofs.Pipeline.Fragments
import DocWeave.Proofs.Code.StructTable
import DocWeave.Proofs.Pipeline.Agreement
import DocWeave.Proofs.Fragment.Account
import DocWeave.Proofs.Tag.Grammar
import DocWeave.Proofs.Pipeline.Ending
import DocWeave.Proofs.Pipeline.Lints
import DocWeave.Proofs.Pipeline.Members
import DocWeave.Proofs.Entity.Subgraph
import DocWeave.Proofs.Entity.Edits
import DocWeave.Proofs.Entity.Order
import DocWeave.Proofs.Entity.Insertion
import DocWeave.Proofs.Pipeline.Unexported
import DocWeave.Proofs.Text.Underscores
import DocWeave.Proofs.Render.Symbols
import DocWeave.Proofs.Render.Provisions
import DocWeave.Proofs.Render.Items
import DocWeave.Proofs.Pipeline.Clashes
import DocWeave.Proofs.Pipeline.Lookup
import DocWeave.Proofs.Pipeline.Hooks
import DocWeave.Proofs.Pipeline.Tags
import DocWeave.Proofs.Entity.Precedence
import DocWeave.Proofs.Entity.Inclusion
import DocWeave.Proofs.Fragment.Keys
import DocWeave.Proofs.Text.Columns
import DocWeave.Proofs.Text.Reindent
import DocWeave.Proofs.Tag.Margins
import DocWeave.Proofs.Render.Filling
import DocWeave.Proofs.Code.Passages
import DocWeave.Proofs.Render.Structs
import DocWeave.Proofs.Render.Aggregation
import DocWeave.Proofs.Text.Shape
import DocWeave.Proofs.Template.Reading
import DocWeave.Proofs.Template.Columns
import DocWeave.Proofs.Tag.Escape
import DocWeave.Proofs.Tag.Verdict
import DocWeave.Proofs.Code.Nesting
import DocWeave.Proofs.Entity.Failure
import DocWeave.Proofs.Text.Trim
import DocWeave.Proofs.Code.Initializer
import DocWeave.Proofs.Render.Description
import DocWeave.Proofs.Pipeline.Repeats
import DocWeave.Proofs.Pipeline.EmptyFragments
import DocWeave.Proofs.Manifest.Entries
import DocWeave.Proofs.Manifest.Members
import DocWeave.Proofs.Manifest.Accepted
import DocWeave.Proofs.Text.Identifiers
import DocWeave.Proofs.Render.Spelling
import DocWeave.Proofs.Pipeline.Spelling
import DocWeave.Proofs.Code.Tables
