import ClientForge.Command.Builder
import ClientForge.Command.Help
import ClientForge.Command.Option
import ClientForge.Command.Tree
import ClientForge.Convention.Language
import ClientForge.Convention.Policy
import ClientForge.Convention.Scope
import ClientForge.Document.Decode
import ClientForge.Document.Entry
import ClientForge.Document.Members
import ClientForge.Document.Mismatch
import ClientForge.Document.Names
import ClientForge.Document.Reading
import ClientForge.Failure
import ClientForge.Graph.Basic
import ClientForge.Graph.Element
import ClientForge.Graph.Kind
import ClientForge.Graph.Rule
import ClientForge.Graph.Validation
import ClientForge.Main
import ClientForge.Number.Calendar
import ClientForge.Number.Decimal
import ClientForge.Number.Double
import ClientForge.Output.Disk
import ClientForge.Output.FileSink
import ClientForge.Output.Memory
import ClientForge.Output.PathRule
import ClientForge.Output.Sink
import ClientForge.Plan.Construction
import ClientForge.Plan.Context
import ClientForge.Plan.Engine
import ClientForge.Plan.Evaluation
import ClientForge.Plan.Navigation
import ClientForge.Plan.Operation
import ClientForge.Plan.Request
import ClientForge.Plan.Serialization
import ClientForge.Render.CSharpBody
import ClientForge.Render.CSharpCommand
import ClientForge.Render.CSharpFile
import ClientForge.Render.CSharpText
import ClientForge.Render.Calls
import ClientForge.Render.Emission
import ClientForge.Render.GoBody
import ClientForge.Render.GoFile
import ClientForge.Render.GoText
import ClientForge.Render.Layout
import ClientForge.Render.Page
import ClientForge.Render.Script
import ClientForge.Render.Site
import ClientForge.Render.TypeScriptBody
import ClientForge.Render.TypeScriptFile
import ClientForge.Render.Writer
import ClientForge.Run.Arguments
import ClientForge.Run.Generation
import ClientForge.Run.Lock
import ClientForge.Run.Log
import ClientForge.Run.Metrics
import ClientForge.Run.Session
import ClientForge.Run.Target
import ClientForge.Settings.Basic
import ClientForge.Settings.Fault
import ClientForge.Settings.Fit
import ClientForge.Settings.Format
import ClientForge.Settings.Json
import ClientForge.Settings.Load
import ClientForge.Settings.Override
import ClientForge.Settings.Toml
import ClientForge.Settings.Toml.Scalar
import ClientForge.Settings.Value
import ClientForge.Settings.Variables
import ClientForge.Text.Blank
import ClientForge.Text.Casing
import ClientForge.Text.Digest
import ClientForge.Text.Escaped
import ClientForge.Text.Letter
import ClientForge.Text.Octets
import ClientForge.Text.Path
import ClientForge.Text.Quoted
import ClientForge.Text.Shown
import ClientForge.Text.Template
import ClientForge.Yaml.Node
import ClientForge.Yaml.Scalar
import ClientForge.Yaml.Scan
import ClientForge.Yaml.Token
import ClientForge.Yaml.Value
import ClientForge.Proofs.Command.Assembly
import ClientForge.Proofs.Command.Siblings
import ClientForge.Proofs.Command.Lookup
import ClientForge.Proofs.Command.Bodies
import ClientForge.Proofs.Command.Visits
import ClientForge.Proofs.Command.Cycle
import ClientForge.Proofs.Document.Placed
import ClientForge.Proofs.Command.Sharing
import ClientForge.Proofs.Text.Ordinal
import ClientForge.Proofs.Command.Attached
import ClientForge.Proofs.Render.CSharpAttaching
import ClientForge.Proofs.Render.CSharpAgreement
import ClientForge.Proofs.Plan.Serialization
import ClientForge.Proofs.Graph.Valid
import ClientForge.Proofs.Plan.Factory
import ClientForge.Proofs.Plan.Validated
import ClientForge.Proofs.Render.CSharpQualified
import ClientForge.Proofs.Plan.Elements
import ClientForge.Proofs.Render.Asking
import ClientForge.Proofs.Render.CSharpAsking
import ClientForge.Proofs.Render.TypeScriptAsking
import ClientForge.Proofs.Render.GoAsking
import ClientForge.Proofs.Document.Homes
import ClientForge.Proofs.Render.OwnName
import ClientForge.Proofs.Text.Lower
import ClientForge.Proofs.Text.Pieces
import ClientForge.Proofs.Render.GoImports
import ClientForge.Proofs.Text.Path
import ClientForge.Proofs.Render.Layout
import ClientForge.Proofs.Output.Memory
import ClientForge.Proofs.Render.Following
import ClientForge.Proofs.Run.Files
import ClientForge.Proofs.Convention.Grammar
import ClientForge.Proofs.Convention.Composed
import ClientForge.Proofs.Text.Lines
import ClientForge.Proofs.Text.Quoted
import ClientForge.Proofs.Render.Comments
import ClientForge.Proofs.Command.OptionNames
import ClientForge.Proofs.Render.Trimming
import ClientForge.Proofs.Render.GeneratorCalls
import ClientForge.Proofs.Document.Listings
import ClientForge.Proofs.Document.References
import ClientForge.Proofs.Document.Linked
import ClientForge.Proofs.Text.Shortest
import ClientForge.Proofs.Output.Below
import ClientForge.Proofs.Run.Separate
import ClientForge.Proofs.Run.Consistency
import ClientForge.Proofs.Run.Interleaving
import ClientForge.Proofs.Document.Elements
import ClientForge.Proofs.Document.Resolution
import ClientForge.Proofs.Document.Reordering
import ClientForge.Proofs.Graph.WellFormed
import ClientForge.Proofs.Render.Ways
import ClientForge.Proofs.Render.Planning
import ClientForge.Proofs.Render.References
import ClientForge.Proofs.Render.TypeScriptImports
import ClientForge.Proofs.Render.Enumeration
import ClientForge.Proofs.Output.Disk
import ClientForge.Proofs.Output.Writing
import ClientForge.Proofs.Output.Confined
import ClientForge.Proofs.Command.Covered
import ClientForge.Proofs.Command.Reuse
import ClientForge.Proofs.Render.CSharpPlanning
import ClientForge.Proofs.Document.Tables
import ClientForge.Proofs.Render.GoPlanning
import ClientForge.Proofs.Command.Planned
import ClientForge.Proofs.Render.Planned
import ClientForge.Proofs.Render.Completing
import ClientForge.Proofs.Run.Metrics
import ClientForge.Proofs.Run.Counts
import ClientForge.Proofs.Run.Cancelled
import ClientForge.Proofs.Run.Session
import ClientForge.Proofs.Plan.Arguments
import ClientForge.Proofs.Plan.QueryNames
import ClientForge.Proofs.Plan.Composed
import ClientForge.Proofs.Plan.Defaults
import ClientForge.Proofs.Plan.DeclarationOrder
import ClientForge.Proofs.Command.PathOptions
import ClientForge.Proofs.Document.Paths
import ClientForge.Proofs.Document.Kept
import ClientForge.Proofs.Render.TypeScriptTypes
import ClientForge.Proofs.Render.AdapterUse
import ClientForge.Proofs.Render.Climbing
import ClientForge.Proofs.Render.Flags
