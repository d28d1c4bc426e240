import PointsTo.Analysis.Result
import PointsTo.Proofs.Supertypes

/-!
# Strict analysis

The analysis answers in any case: looking something up that is not there has no effect, and loops stop
after a number of rounds. Here the analysis is written down so that it has no answer when a lookup in a
table fails, when new objects overlap the set that they are added to, or when a loop does not end. Loops
have no bound on their rounds, and an event is recorded only if everything that its wording names has an
entry.

- `Strict.nameEvent`: the lookups that the wording of an event makes.
- `Strict.settle`, `Strict.drain`: the loops over pending methods and over propagations.
- `Strict.analyze`: strict analysis.
-/

namespace PointsTo

namespace Strict

open Program

/-! ## §1 Strict wordings -/

/-- Looks up what the description of an object names. -/
def nameObj (p : Program) (heap : Heap) (o : ObjId) : Option Unit := do
  let obj ← heap.obj? o
  discard (p.methodName? obj.site.method)
  discard (p.typeName? obj.ty)

/-- Looks up what the picture of a call graph names: its methods, and the positions that arcs join. -/
def nameGraph (p : Program) (g : CallGraph) : Option Unit := do
  g.methods.forM fun m => discard (p.methodName? m)
  g.arcs.forM fun arc => do
    discard (g.indexOf? arc.caller)
    discard (g.indexOf? arc.callee)

/-- Looks up what the wording of an event names. -/
def nameEvent (p : Program) (heap : Heap) : Event → Option Unit
  | .started m => discard (p.methodName? m)
  | .reached m => discard (p.methodName? m)
  | .called site callee => do
    discard (p.methodName? site.method)
    discard (p.methodName? callee)
  | .noTarget _ receiver => nameObj p heap receiver
  | .pointing pointer _ => discard (pointer.describe? p)
  | .allocated o => nameObj p heap o
  | .callGraph g => nameGraph p g
  | _ => return ()

/-! ## §2 Strict operations -/

/-- Records an event. -/
def emit (p : Program) (s : State) (e : Event) : Option State := do
  nameEvent p s.heap e
  return s.emit e

/-- Lets the objects of one pointer flow into another. -/
def connect (s : State) (source target : Pointer) : Option State := do
  let (flow, src) := s.flow.intern source
  let (flow, tgt) := flow.intern target
  let (flow, isNew) := flow.addEdge src tgt
  if isNew then
    -- the source may have become a node only just now, but it must be one
    let objects ← flow.objects? src
    return { s with flow, worklist := s.worklist.add tgt objects }
  else return { s with flow }

/-- Lets objects flow along several edges. -/
def connectAll (s : State) (edges : List (Pointer × Pointer)) : Option State :=
  edges.foldlM (fun s (source, target) => connect s source target) s

/-- Lets the returned variables flow into the result of a call, if it has one. -/
def passResult (s : State) (returned : List VarId) : Option VarId → Option State
  | none => return s
  | some result =>
    connectAll (s.mention (.var result)) (returned.map fun v => (.var v, .var result))

/-- Lets the arguments of a call flow into the parameters, and what is returned into the result. -/
def passValues (s : State) (call : Invoke) (callee : Method) : Option State := do
  let s ← connectAll s ((call.args.zip callee.params).map fun (arg, param) => (.var arg, .var param))
  passResult s callee.returnVars call.result

/-- Makes a method reachable. -/
def reach (p : Program) (s : State) (m : MethodId) : Option State :=
  let (calls, isNew) := s.calls.addMethod m
  if isNew then emit p { s with calls, pending := s.pending ++ [m] } (.reached m) else return s

/-- Adds a call edge between two nodes, which must be there. -/
def addEdge (g : CallGraph) (e : CallEdge) : Option (CallGraph × Bool) :=
  if g.hasCall e.site e.callee then return (g, false)
  else do
    let g := (g.addMethod e.caller).1
    let g := (g.addMethod e.callee).1
    -- an arc joins the positions of its ends
    discard (g.indexOf? e.caller)
    discard (g.indexOf? e.callee)
    return ({ g with edges := g.edges ++ [e], arcs := CallGraph.recordCall e g.arcs }, true)

/-- Records that a call site calls a method. -/
def link (p : Program) (s : State) (site : Location) (call : Invoke) (callee : MethodId) :
    Option State := do
  let s ← reach p s callee
  let (calls, isNew) ← addEdge s.calls ⟨call.kind, site, callee⟩
  if isNew then
    let s ← emit p { s with calls } (.called site callee)
    let method ← p.method? callee
    passValues s call method
  else return s

/-- Binds the receiver of a call. -/
def bindReceiver (p : Program) (s : State) (callee : MethodId) (receiver : ObjId) :
    Option State := do
  let method ← p.method? callee
  match method.self with
  | none => return s
  | some self => return s.feed (.var self) (Ascending.singleton receiver)

/-- The method that runs when an object is called. -/
noncomputable def dispatchOn (p : Program) (heap : Heap) (o : ObjId) (s : Subsignature) :
    Option (Option MethodId) := do
  let obj ← heap.obj? o
  dispatchOnType p obj.ty s

/-- The method that a call runs for a receiver. Only virtual and interface calls look at it. -/
noncomputable def callee (p : Program) (heap : Heap) (call : Invoke) (receiver : Option ObjId) :
    Option (Option MethodId) :=
  match call.kind, receiver with
  | .static, _ => resolve p call.target
  | .special, _ => dispatch p call.target.start call.target.subsignature
  | .virtual, some o => dispatchOn p heap o call.target.subsignature
  | .interface, some o => dispatchOn p heap o call.target.subsignature
  | _, none => return none

/-- Finds the target of a static call. -/
noncomputable def callStatic (p : Program) (s : State) (site : Location) (call : Invoke) : Option State := do
  match ← callee p s.heap call none with
  | none => emit p s (.unresolved site call.target.subsignature)
  | some callee => link p s site call callee

/-- Finds the target of the instance call at a site for an object that reached its receiver. -/
noncomputable def callInstance (p : Program) (receiver : ObjId) (s : State) (site : Location) :
    Option State := do
  match ← p.stmt? site with
  | .invoke call =>
    match ← callee p s.heap call (some receiver) with
    | none => emit p s (.noTarget site receiver)
    | some callee =>
      let s ← bindReceiver p s callee receiver
      link p s site call callee
  | _ => return s

/-- The effect that a statement has as soon as its method is reachable. -/
noncomputable def enterStmt (p : Program) (s : State) (loc : Location) : Stmt → Option State
  | .new lhs ty =>
    let (heap, obj) := s.heap.allocate loc ty
    return { s with heap }.feed (.var lhs) (Ascending.singleton obj)
  | .copy lhs rhs => connect s (.var rhs) (.var lhs)
  | .cast lhs rhs _ => connect s (.var rhs) (.var lhs)
  | .loadField lhs none f => connect s (.staticField f) (.var lhs)
  | .storeField none f rhs => connect s (.var rhs) (.staticField f)
  | .invoke call => if call.kind.isStatic then callStatic p s loc call else return s
  | _ => return s

/-- The effect that the statements of a method have as soon as it is reachable. -/
noncomputable def enterMethod (p : Program) (s : State) (m : MethodId) : Option State := do
  let method ← p.method? m
  method.body.zipIdx.foldlM (fun s (stmt, i) => enterStmt p s ⟨m, i⟩ stmt) s

/-- The effect that an indexed access has for an object. -/
def access (p : Program) (o : ObjId) (s : State) (loc : Location) : Option State := do
  let stmt ← p.stmt? loc
  match stmt.heapFlow? o with
  | none => return s
  | some (source, target) => connect s source target

/-- The effect of an object that newly reached a variable. -/
noncomputable def receive (p : Program) (v : VarId) (s : State) (o : ObjId) : Option State := do
  let var ← p.var? v
  let accesses := var.accesses
  -- accesses to the heap take effect before calls do
  let s ← (accesses.storeFields ++ accesses.loadFields ++ accesses.storeArrays
    ++ accesses.loadArrays).foldlM (access p o) s
  accesses.invokes.foldlM (callInstance p o) s

/-- The effect of objects that newly reached a pointer. -/
noncomputable def receiveAll (p : Program) (s : State) (pointer : Pointer) (delta : ObjSet) : Option State :=
  match pointer with
  | .var v => delta.toList.foldlM (receive p v) s
  | _ => return s

/-- Adds new objects to the points-to set of a node, none of which may be there, and queues them for its
    successors. -/
def propagate (p : Program) (s : State) (id : PointerId) (pointer : Pointer) (delta : ObjSet) :
    Option State := do
  let before ← s.flow.objects? id
  let flow := s.flow.grow id delta
  let after ← flow.objects? id
  -- nothing that is added was there before
  guard (after.size = before.size + delta.size)
  let s ← emit p { s with flow } (.grew pointer delta)
  return { s with
    worklist := (s.flow.successors id).foldl (fun w target => w.add target delta) s.worklist }

/-! ## §3 Strict loops -/

/-- Looks at the statements of the first pending method, if there is one. -/
noncomputable def settleRound (p : Program) (s : State) : Option (State ⊕ State) :=
  match s.pending with
  | [] => return .inr s
  | m :: rest => do
    let s ← enterMethod p { s with pending := rest } m
    return .inl s

/-- Looks at the statements of pending methods until none is left. -/
noncomputable def settle (p : Program) (s : State) : Option State := loop (settleRound p) s

/-- Does one propagation. -/
noncomputable def absorb (p : Program) (s : State) (item : WorkItem) : Option State := do
  let known ← s.flow.objects? item.pointer
  let delta := item.objects.sdiff known
  -- an item that brings nothing new is dropped
  if delta.isEmpty then return s
  else
    let pointer ← s.flow.pointer? item.pointer
    let s ← propagate p s item.pointer pointer delta
    let s ← receiveAll p s pointer delta
    settle p s

/-- Does the next propagation, if there is one. -/
noncomputable def drainRound (p : Program) (s : State) : Option (State ⊕ State) :=
  match s.worklist.poll with
  | none => return .inr s
  | some (item, worklist) => do
    let s ← absorb p { s with worklist, iterations := s.iterations + 1 } item
    return .inl s

/-- Does propagations until none is left. -/
noncomputable def drain (p : Program) (s : State) : Option State := loop (drainRound p) s

/-- The state in which the analysis starts from an entry method. -/
noncomputable def start (p : Program) (order : WorkOrder) (entry : MethodId) : Option State := do
  let s ← emit p { worklist := { order } } (.started entry)
  let s ← reach p { s with calls := s.calls.addEntry entry } entry
  settle p s

/-! ## §4 Strict reports -/

/-- The report on points-to sets and objects. -/
def statisticsReport (r : Result) : Option (List Event) := do
  let sets ← r.flow.pointers.toList.mapM fun pointer => do
    let id ← r.flow.find? pointer
    let objects ← r.flow.objects? id
    return (pointer, objects)
  return [.counted r.statistics]
    ++ (sets.filter fun (_, objects) => !objects.isEmpty).map (fun (pointer, objects) =>
      .pointing pointer objects)
    ++ r.heap.ids.map .allocated

/-- The events of the report that a mode selects. -/
def reportEvents (r : Result) (mode : DumpMode) : Option (List Event) :=
  let graph := if mode.reportsCallGraph then [.callGraph r.calls] else []
  if mode.reportsStatistics then (statisticsReport r).map (· ++ graph) else some graph

/-- The report that a mode selects. -/
def report (p : Program) (r : Result) (mode : DumpMode) : Option (List Event) := do
  let events ← reportEvents r mode
  events.forM (nameEvent p r.heap)
  return events

/-- Analyses a program from its entry method and reports as the options say. -/
noncomputable def analyze (p : Program) (options : Options) : Option (Except AnalysisError Run) :=
  match p.main with
  | none => return .error .noMain
  | some entry => do
    let s ← start p options.order entry
    let final ← drain p s
    let result := final.result
    let events ← report p result options.dump
    return .ok { result, log := final.events.toList ++ [.finished result.statistics] ++ events }

end Strict

end PointsTo
