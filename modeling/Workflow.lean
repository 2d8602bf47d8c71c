import Workflow.Main
import Workflow.Proofs.Number.Value
import Workflow.Proofs.Text.Blank
import Workflow.Proofs.Text.Lines
import Workflow.Proofs.Text.Keyed
import Workflow.Proofs.Schema.Grammar
import Workflow.Proofs.Schema.Reading
import Workflow.Proofs.Schema.Config
import Workflow.Proofs.Schema.Accept
import Workflow.Proofs.Schema.Reported
import Workflow.Proofs.Graph.Reach
import Workflow.Proofs.Graph.Resolve
import Workflow.Proofs.Graph.Phases
import Workflow.Proofs.Graph.Codes
import Workflow.Proofs.Graph.Accept
import Workflow.Proofs.Graph.Departures
import Workflow.Proofs.Graph.Kinds
import Workflow.Proofs.Graph.Islands
import Workflow.Proofs.Graph.Image
import Workflow.Proofs.Schema.Verdict
import Workflow.Proofs.Compile
import Workflow.Proofs.Strictness
import Workflow.Proofs.Schema.Modern
import Workflow.Proofs.Schema.Renewal
import Workflow.Proofs.Modern
import Workflow.Proofs.Package.Names
import Workflow.Proofs.Package.Lexeme
import Workflow.Proofs.Package.Calls
import Workflow.Proofs.Package.Statements
import Workflow.Proofs.Package.Wiring
import Workflow.Proofs.Package.Body
import Workflow.Proofs.Package.Readback
import Workflow.Proofs.Package.Assembly
import Workflow.Proofs.Package.Bindings
import Workflow.Proofs.Package.Paths
import Workflow.Proofs.Package.Consistent
import Workflow.Proofs.Disk.Tree
import Workflow.Proofs.Disk.Trail
import Workflow.Proofs.Disk.Operations
import Workflow.Proofs.Install.Package
import Workflow.Proofs.Install.Places
import Workflow.Proofs.Install.Staging
import Workflow.Proofs.Install.Invariant
import Workflow.Proofs.Install.Steps
import Workflow.Proofs.Install.Runs
import Workflow.Proofs.Install.Safety
import Workflow.Proofs.Number.Nearest
import Workflow.Proofs.Number.Shortest
import Workflow.Proofs.Number.Numeral
import Workflow.Proofs.Number.Reading
import Workflow.Proofs.Package.Repeated
import Workflow.Proofs.Package.Script
import Workflow.Proofs.Package.Sealed
import Workflow.Proofs.Package.SealedFiles
import Workflow.Proofs.Package.Value
import Workflow.Proofs.Package.Literal
import Workflow.Proofs.Package.Constants
import Workflow.Proofs.Package.Scalars
import Workflow.Proofs.Disk.Alike
import Workflow.Proofs.Install.Agree
import Workflow.Proofs.Install.Making
import Workflow.Proofs.Install.Course
import Workflow.Proofs.Install.Parallel
import Workflow.Proofs.Disk.Content
import Workflow.Proofs.Install.Shared
import Workflow.Proofs.Install.SamePackage
import Workflow.Proofs.Schema.Faithful
import Workflow.Proofs.Schema.Parts
import Workflow.Proofs.Schema.Entries
import Workflow.Proofs.Disk.Count
import Workflow.Proofs.Install.Ending
import Workflow.Proofs.Install.Refusal
import Workflow.Proofs.Install.Failure
import Workflow.Proofs.Install.History
import Workflow.Proofs.Command
import Workflow.Proofs.Schema.Outdated
import Workflow.Proofs.Schema.Within
import Workflow.Proofs.Schema.Local
import Workflow.Proofs.Schema.Keys
import Workflow.Proofs.Text.Bytes
import Workflow.Proofs.Package.State
import Workflow.Proofs.Graph.Conditions
import Workflow.Proofs.Graph.Branches
import Workflow.Proofs.Package.Rows
import Workflow.Proofs.Package.Routing
import Workflow.Proofs.Package.Declared
import Workflow.Proofs.Graph.References
import Workflow.Proofs.Graph.Located
import Workflow.Proofs.Input
import Workflow.Proofs.Package.CodeLine
import Workflow.Proofs.Package.Comments
import Workflow.Proofs.Package.SnakeCase
import Workflow.Proofs.Package.GivenBack
import Workflow.Proofs.Package.Controls
import Workflow.Proofs.Package.Encoding
import Workflow.Proofs.Graph.Drawing
import Workflow.Proofs.Package.Drawing
import Workflow.Proofs.Package.Fresh
import Workflow.Proofs.Schema.Repeated
import Workflow.Proofs.Validation
