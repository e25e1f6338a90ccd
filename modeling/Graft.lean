import Graft.Artifact
import Graft.Command.Arguments
import Graft.Command.Run
import Graft.Command.Summary
import Graft.Decimal.Shortest
import Graft.Decimal.Style
import Graft.Disk.Refusal
import Graft.Disk.Steps
import Graft.Disk.Tree
import Graft.Fault
import Graft.Integration.Report
import Graft.Integration.Run
import Graft.Integration.Wire
import Graft.Json.Basic
import Graft.Json.Printer
import Graft.Json.Reader
import Graft.Layout
import Graft.Limits
import Graft.Main
import Graft.Manifest
import Graft.Model.Gemini
import Graft.Model.Gemini.Http
import Graft.Model.Offline
import Graft.Model.Request
import Graft.Model.Retry
import Graft.Moment
import Graft.Name
import Graft.Name.Exported
import Graft.Path
import Graft.Prompt
import Graft.Registration.Host
import Graft.Registration.Insertion
import Graft.Registration.Plan
import Graft.Registration.Wide
import Graft.Response.Artifacts
import Graft.Response.Block
import Graft.Response.Fence
import Graft.Response.Marker
import Graft.Script.Bracket
import Graft.Script.Descriptor
import Graft.Script.Import
import Graft.Script.Piece
import Graft.Script.Token
import Graft.Settings
import Graft.Shape
import Graft.Shape.Scalar
import Graft.Staging
import Graft.Table
import Graft.Telemetry
import Graft.Text.Alphanumeric
import Graft.Text.Basic
import Graft.Text.Digits
import Graft.Text.Lines
import Graft.Text.Lowercase
import Graft.Text.Pieces
import Graft.Text.Printable
import Graft.Text.Quoted
import Graft.Text.Space
import Graft.Text.Styled
import Graft.Text.Utf8
import Graft.Text.Wide
import Graft.Workspace
import Graft.Workspace.Calls
import Graft.Yaml.Document
import Graft.Yaml.Node
import Graft.Yaml.Plain
import Graft.Yaml.Scalar
import Graft.Yaml.Simple
import Graft.Yaml.Token
import Graft.Yaml.Value
import Graft.Proofs.Artifact.FilePath
import Graft.Proofs.Artifact.Siblings
import Graft.Proofs.Artifact.Stem
import Graft.Proofs.Command.Endings
import Graft.Proofs.Disk.Files
import Graft.Proofs.Disk.Persistence
import Graft.Proofs.Disk.Steps
import Graft.Proofs.Integration.Effects
import Graft.Proofs.Integration.Element
import Graft.Proofs.Integration.Faults
import Graft.Proofs.Integration.Frame
import Graft.Proofs.Integration.Importing
import Graft.Proofs.Integration.Repetition
import Graft.Proofs.Integration.Replay
import Graft.Proofs.Integration.Stages
import Graft.Proofs.Json.Ascii
import Graft.Proofs.Json.Printed
import Graft.Proofs.Json.Strings
import Graft.Proofs.Layout.Named
import Graft.Proofs.Layout.Parts
import Graft.Proofs.Layout.Roots
import Graft.Proofs.Model.Answers
import Graft.Proofs.Model.Attempts
import Graft.Proofs.Model.Course
import Graft.Proofs.Name.Exported
import Graft.Proofs.Name.Identifier
import Graft.Proofs.Name.Joints
import Graft.Proofs.Name.Usable
import Graft.Proofs.Name.Words
import Graft.Proofs.Offline.Reading
import Graft.Proofs.Offline.Script
import Graft.Proofs.Path.Segments
import Graft.Proofs.Path.Ways
import Graft.Proofs.Prompt.Rendering
import Graft.Proofs.Registration.Addition
import Graft.Proofs.Registration.Change
import Graft.Proofs.Registration.Commutation
import Graft.Proofs.Registration.Effect
import Graft.Proofs.Registration.Entry
import Graft.Proofs.Registration.Growth
import Graft.Proofs.Registration.Host
import Graft.Proofs.Registration.Leading
import Graft.Proofs.Registration.Preservation
import Graft.Proofs.Registration.Regular
import Graft.Proofs.Registration.Repetition
import Graft.Proofs.Registration.Single
import Graft.Proofs.Registration.Snapshot
import Graft.Proofs.Registration.Specifier
import Graft.Proofs.Registration.Splice
import Graft.Proofs.Registration.Statement
import Graft.Proofs.Registration.Telling
import Graft.Proofs.Registration.Totality
import Graft.Proofs.Registration.Wide
import Graft.Proofs.Response.Cleanness
import Graft.Proofs.Response.Merging
import Graft.Proofs.Response.Paths
import Graft.Proofs.Response.RoundTrip
import Graft.Proofs.Response.Sheet
import Graft.Proofs.Script.Bracketing
import Graft.Proofs.Script.Coverage
import Graft.Proofs.Script.DescriptorSearch
import Graft.Proofs.Script.ImportDocument
import Graft.Proofs.Script.ImportGrammar
import Graft.Proofs.Script.ImportReading
import Graft.Proofs.Script.ImportWalk
import Graft.Proofs.Script.Indexed
import Graft.Proofs.Script.IndexedReading
import Graft.Proofs.Script.Listing
import Graft.Proofs.Script.Nesting
import Graft.Proofs.Script.Offsetless
import Graft.Proofs.Script.Property
import Graft.Proofs.Script.Pushing
import Graft.Proofs.Script.Refilling
import Graft.Proofs.Script.Rereading
import Graft.Proofs.Script.Skipping
import Graft.Proofs.Script.Spans
import Graft.Proofs.Script.TemplateLiteral
import Graft.Proofs.Script.Trailing
import Graft.Proofs.Staging.Containment
import Graft.Proofs.Staging.Destinations
import Graft.Proofs.Staging.Faults
import Graft.Proofs.Staging.Repetition
import Graft.Proofs.Staging.Retention
import Graft.Proofs.Telemetry.Lines
import Graft.Proofs.Text.Digits
import Graft.Proofs.Text.Filling
import Graft.Proofs.Text.Lines
import Graft.Proofs.Workspace.Addressing
import Graft.Proofs.Workspace.Again
import Graft.Proofs.Workspace.Calls
import Graft.Proofs.Workspace.Faults
import Graft.Proofs.Workspace.Files
import Graft.Proofs.Workspace.Spellings
import Graft.Proofs.Workspace.Store
import Graft.Proofs.Workspace.Writing
