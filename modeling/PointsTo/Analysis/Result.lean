import PointsTo.Analysis.Solver
import PointsTo.Options

/-!
# Results

`Program.analyze` runs the analysis on a program and answers with the final points-to sets, objects
and call graph, and with the log of the run.
-/

namespace PointsTo

/-! ## §1 Results -/

/-- What an analysis found. -/
structure Result where
  /-- The pointers, their points-to sets and the flow between them. -/
  flow : FlowGraph
  /-- The objects. -/
  heap : Heap
  /-- The reachable methods and the calls between them. -/
  calls : CallGraph
  /-- The number of propagations done. -/
  iterations : Nat

namespace Result

/-- What a pointer may point to; nothing for a pointer that the analysis never met. -/
def pointsTo (r : Result) (pointer : Pointer) : ObjSet := r.flow.pointsTo pointer

/-- Whether two variables may point to the same object. -/
def mayAlias (r : Result) (a b : VarId) : Bool :=
  (r.pointsTo (.var a)).intersects (r.pointsTo (.var b))

/-- The counts. -/
def statistics (r : Result) : Statistics where
  reachableMethods := r.calls.methods.length
  callEdges := r.calls.edges.length
  pointers := r.flow.size
  flowEdges := r.flow.edgeCount
  objects := r.heap.size
  iterations := r.iterations

/-- The report on points-to sets and objects: pointers in listing order, without those that point
    nowhere, then the objects. -/
def statisticsReport (r : Result) : List Event :=
  [.counted r.statistics]
    ++ ((r.flow.pointers.toList.map fun pointer => (pointer, r.pointsTo pointer)).filter
        fun (_, objects) => !objects.isEmpty).map (fun (pointer, objects) =>
          .pointing pointer objects)
    ++ r.heap.ids.map .allocated

/-- The report that a mode selects. -/
def report (r : Result) (mode : DumpMode) : List Event :=
  (if mode.reportsStatistics then r.statisticsReport else [])
    ++ (if mode.reportsCallGraph then [.callGraph r.calls] else [])

end Result

/-! ## §2 Runs -/

/-- Why a program cannot be analysed. -/
inductive AnalysisError
  /-- There is no entry method. -/
  | noMain
deriving DecidableEq

/-- The wording of the reason. -/
def AnalysisError.message : AnalysisError → String
  | noMain => "program has no main method to start the analysis from"

/-- A finished run. -/
structure Run where
  /-- What was found. -/
  result : Result
  /-- What happened, and the report. -/
  log : List Event

/-- The log lines of a run at a level of detail. -/
def Run.lines (run : Run) (p : Program) (detail : Severity) : List String :=
  (run.log.filter fun e => e.severity.detail ≤ detail.detail).map (Event.line p run.result.heap)

/-- What a state has found. -/
def State.result (s : State) : Result where
  flow := s.flow
  heap := s.heap
  calls := s.calls
  iterations := s.iterations

/-- The state in which the analysis from an entry method ends. -/
def Program.solve (p : Program) (order : WorkOrder) (entry : MethodId) : State :=
  (State.start p order entry).drain p p.iterationBound

/-- Analyses a program from its entry method and reports as the options say. -/
def Program.analyze (p : Program) (options : Options) : Except AnalysisError Run :=
  match p.main with
  | none => .error .noMain
  | some entry =>
    let final := p.solve options.order entry
    let result := final.result
    .ok
      { result
        log := final.events.toList ++ [.finished result.statistics] ++ result.report options.dump }

end PointsTo
