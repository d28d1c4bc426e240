import PointsTo.Analysis.Event
import PointsTo.FlowGraph
import PointsTo.Worklist

/-!
# Analysis state

What the analysis knows at one moment: the objects met, the pointer flow graph with the points-to
sets found so far, the call graph, the propagations still to be done and the reachable methods whose
statements have not been looked at. The operations here are the only ways in which the state
changes.
-/

namespace PointsTo

/-- The state of an analysis. -/
structure State where
  /-- The objects met so far. -/
  heap : Heap := {}
  /-- The pointers, their points-to sets and the flow between them. -/
  flow : FlowGraph := {}
  /-- The propagations still to be done. -/
  worklist : Worklist := {}
  /-- The reachable methods and the calls between them. -/
  calls : CallGraph := {}
  /-- The reachable methods whose statements have not been looked at. -/
  pending : List MethodId := []
  /-- The number of propagations done. -/
  iterations : Nat := 0
  /-- What happened so far. -/
  events : Array Event := #[]

namespace State

/-- Records an event. -/
def emit (s : State) (e : Event) : State :=
  { s with events := s.events.push e }

/-- Makes sure that a pointer is a node. -/
def mention (s : State) (pointer : Pointer) : State :=
  { s with flow := (s.flow.intern pointer).1 }

/-- Queues objects that are about to flow into a pointer. -/
def feed (s : State) (pointer : Pointer) (objects : ObjSet) : State :=
  let (flow, id) := s.flow.intern pointer
  { s with flow, worklist := s.worklist.add id objects }

/-- Lets the objects of one pointer flow into another. A new edge carries at once what its source
    already points to. -/
def connect (s : State) (source target : Pointer) : State :=
  let (flow, src) := s.flow.intern source
  let (flow, tgt) := flow.intern target
  let (flow, isNew) := flow.addEdge src tgt
  if isNew then { s with flow, worklist := s.worklist.add tgt (flow.objects src) }
  else { s with flow }

/-- Lets objects flow along several edges. -/
def connectAll (s : State) (edges : List (Pointer × Pointer)) : State :=
  edges.foldl (fun s (source, target) => s.connect source target) s

/-- Makes a method reachable. Its statements are looked at once, later. -/
def reach (s : State) (m : MethodId) : State :=
  let (calls, isNew) := s.calls.addMethod m
  if isNew then { s with calls, pending := s.pending ++ [m] }.emit (.reached m) else s

/-- Adds new objects to the points-to set of a node and queues them for its successors. -/
def propagate (s : State) (id : PointerId) (pointer : Pointer) (delta : ObjSet) : State :=
  let s := { s with flow := s.flow.grow id delta }.emit (.grew pointer delta)
  { s with
    worklist := (s.flow.successors id).foldl (fun w target => w.add target delta) s.worklist }

end State

end PointsTo
