import PointsTo.Text.Blank
import PointsTo.Text.Word
import PointsTo.Text.Quoted
import PointsTo.Text.Inspect
import PointsTo.Id
import PointsTo.Ascending
import PointsTo.BreadthFirst
import PointsTo.Subsignature.Basic
import PointsTo.Subsignature.Parser
import PointsTo.Program.Stmt
import PointsTo.Program.Basic
import PointsTo.Program.Hierarchy
import PointsTo.Program.Builder
import PointsTo.Program.Access
import PointsTo.Program.Validation
import PointsTo.Pointer
import PointsTo.Heap
import PointsTo.FlowGraph
import PointsTo.Worklist
import PointsTo.CallGraph.Basic
import PointsTo.CallGraph.Dot
import PointsTo.Options
import PointsTo.Analysis.Description
import PointsTo.Analysis.Event
import PointsTo.Analysis.State
import PointsTo.Analysis.Solver
import PointsTo.Analysis.Result
import PointsTo.Proofs.Declarations
import PointsTo.Proofs.Growth
import PointsTo.Proofs.Indexing
import PointsTo.Proofs.WellFormed
import PointsTo.Proofs.Rules
import PointsTo.Proofs.Support
import PointsTo.Proofs.Actions
import PointsTo.Proofs.Coverage
import PointsTo.Proofs.Runs
import PointsTo.Proofs.Fixpoint
import PointsTo.Proofs.Leastness
import PointsTo.Proofs.OrderIndependence
import PointsTo.Proofs.Execution
import PointsTo.Proofs.Soundness
import PointsTo.Proofs.Outline
import PointsTo.Proofs.Unreachable
import PointsTo.Proofs.Monotonicity
import PointsTo.Proofs.Scope
import PointsTo.Proofs.StrictAnalysis
import PointsTo.Proofs.StrictOperations
import PointsTo.Proofs.Totality
import PointsTo.Proofs.Trajectory
import PointsTo.Proofs.Edits
import PointsTo.Proofs.Consistency
import PointsTo.Proofs.Coherence
import PointsTo.Proofs.CallRecords
import PointsTo.Proofs.CallTables
import PointsTo.Proofs.Grammar
import PointsTo.Proofs.Patterns
import PointsTo.Proofs.RoundTrip
import PointsTo.Proofs.Traversal
import PointsTo.Proofs.Turns
import PointsTo.Proofs.Connectivity
import PointsTo.Proofs.CallTargets
import PointsTo.Proofs.Callees
import PointsTo.Proofs.Footprint
import PointsTo.Proofs.Chronicle
import PointsTo.Proofs.Courses
import PointsTo.Proofs.Ledger
import PointsTo.Proofs.Ancestors
import PointsTo.Proofs.Inheritance
import PointsTo.Proofs.CallOrder
import PointsTo.Proofs.AccessIndexes
import PointsTo.Proofs.FieldLookup
import PointsTo.Proofs.MethodNames
import PointsTo.Proofs.Arenas
import PointsTo.Proofs.FlowTables
import PointsTo.Proofs.Drafts
import PointsTo.Proofs.Rejections
