import PointsTo.Analysis.Description
import PointsTo.CallGraph.Dot

/-!
# Events

What the analysis reports while it works and when it is done. An event records what happened; its
wording is a function of the event, of the program and of the objects found.
-/

namespace PointsTo

/-! ## §1 Statistics -/

/-- The size of a finished analysis. -/
structure Statistics where
  /-- The number of reachable methods. -/
  reachableMethods : Nat
  /-- The number of call edges. -/
  callEdges : Nat
  /-- The number of pointers. -/
  pointers : Nat
  /-- The number of edges of the pointer flow graph. -/
  flowEdges : Nat
  /-- The number of objects. -/
  objects : Nat
  /-- The number of propagations done. -/
  iterations : Nat
deriving DecidableEq

/-- The counts on one line. -/
def Statistics.render (s : Statistics) : String :=
  "#reachable methods: " ++ toString s.reachableMethods
    ++ ", #call edges: " ++ toString s.callEdges
    ++ ", #pointers: " ++ toString s.pointers
    ++ ", #pfg edges: " ++ toString s.flowEdges
    ++ ", #objects: " ++ toString s.objects
    ++ ", #iterations: " ++ toString s.iterations

/-! ## §2 Severity -/

/-- How much detail an event belongs to. -/
inductive Severity
  | info
  | debug
  | trace
deriving DecidableEq

namespace Severity

/-- The name that starts a log line. -/
def label : Severity → String
  | info => "INFO"
  | debug => "DEBUG"
  | trace => "TRACE"

/-- The amount of detail: a log of some detail shows everything of less. -/
def detail : Severity → Nat
  | info => 0
  | debug => 1
  | trace => 2

end Severity

/-! ## §3 Events -/

/-- Something that happened during an analysis, or a line of its report. -/
inductive Event
  /-- The analysis starts from a method. -/
  | started (entry : MethodId)
  /-- A method became reachable. -/
  | reached (method : MethodId)
  /-- New objects arrived at a pointer. -/
  | grew (pointer : Pointer) (delta : ObjSet)
  /-- A call site turned out to call a method. -/
  | called (site : Location) (callee : MethodId)
  /-- An object arrived at a receiver whose call it has no method for. -/
  | noTarget (site : Location) (receiver : ObjId)
  /-- A static call refers to no declaration. -/
  | unresolved (site : Location) (target : Subsignature)
  /-- The analysis is done. -/
  | finished (statistics : Statistics)
  /-- Report: the counts. -/
  | counted (statistics : Statistics)
  /-- Report: a pointer and what it points to. -/
  | pointing (pointer : Pointer) (objects : ObjSet)
  /-- Report: an object. -/
  | allocated (obj : ObjId)
  /-- Report: the call graph. -/
  | callGraph (graph : CallGraph)

namespace Event

/-- The detail that an event belongs to. -/
def severity : Event → Severity
  | reached _ | called _ _ | noTarget _ _ | unresolved _ _ => .debug
  | grew _ _ => .trace
  | _ => .info

/-- The description of an object, looked up by its identifier. -/
def describeObj (p : Program) (heap : Heap) (id : ObjId) : String :=
  match heap.obj? id with
  | none => id.label
  | some obj => obj.describe p

/-- The wording of an event. -/
def message (p : Program) (heap : Heap) : Event → String
  | started entry => "pointer analysis starts from " ++ p.methodName entry
  | reached method => "new reachable method " ++ p.methodName method
  | grew pointer delta => inspect pointer ++ " += " ++ delta.render
  | called site callee =>
    "new call edge " ++ p.methodName site.method ++ " [" ++ inspect site ++ "] -> "
      ++ p.methodName callee
  | noTarget site receiver =>
    "no target for call at " ++ inspect site ++ " on " ++ describeObj p heap receiver
  | unresolved site target =>
    "cannot resolve static call at " ++ inspect site ++ " to " ++ target.render
  | finished statistics => "pointer analysis finished: " ++ statistics.render
  | counted statistics => statistics.render
  | pointing pointer objects => pointer.describe p ++ " -> " ++ objects.render
  | allocated obj => obj.label ++ " = " ++ describeObj p heap obj
  | callGraph graph => "call graph:\n" ++ graph.dot p

/-- The log line of an event: its severity, then its wording. -/
def line (p : Program) (heap : Heap) (e : Event) : String :=
  e.severity.label ++ " " ++ e.message p heap

end Event

end PointsTo
