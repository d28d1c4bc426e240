import PointsTo.Analysis.State
import PointsTo.Program.Hierarchy

/-!
# Solver

The points-to sets and the call graph depend on each other: which method a call runs depends on the
objects that reach its receiver, and which objects there are depends on the methods that run. Both
are therefore grown together. The analysis starts from one method and takes one propagation at a
time from the worklist until none is left.

- The statements of a method take effect once, when the method becomes reachable: allocations,
  copies, casts, static field accesses and static calls.
- Instance field accesses, array accesses and instance calls take effect for each object that
  reaches their base variable.

The number of propagations is bounded by the size of the program, and a method becomes reachable
only once, so both loops are given a number of rounds that they cannot use up.
-/

namespace PointsTo

/-! ## §1 What statements call for -/

/-- The method that a call runs, for a receiver of the given type. Only virtual and interface calls
    look at the receiver. -/
def Program.callee? (p : Program) (call : Invoke) (receiver : Option Ty) : Option MethodId :=
  match call.kind with
  | .static => p.resolve call.target
  | .special => p.dispatch call.target.start call.target.subsignature
  | .virtual => receiver.bind fun ty => p.dispatchOnType ty call.target.subsignature
  | .interface => receiver.bind fun ty => p.dispatchOnType ty call.target.subsignature

/-- The flow that an access through a variable causes once the variable points to an object. -/
def Stmt.heapFlow? (obj : ObjId) : Stmt → Option (Pointer × Pointer)
  | storeField _ f rhs => some (.var rhs, .field obj f)
  | loadField lhs _ f => some (.field obj f, .var lhs)
  | storeArray _ _ rhs => some (.var rhs, .element obj)
  | loadArray lhs _ _ => some (.element obj, .var lhs)
  | _ => none

/-- The flow that all accesses through a variable cause once it points to an object: field stores,
    field loads, array stores, array loads. -/
def Program.heapFlows (p : Program) (accesses : Accesses) (obj : ObjId) :
    List (Pointer × Pointer) :=
  (accesses.storeFields ++ accesses.loadFields ++ accesses.storeArrays
    ++ accesses.loadArrays).filterMap fun loc => (p.stmt? loc).bind (Stmt.heapFlow? obj)

namespace State

/-! ## §2 Calls -/

/-- Lets the returned variables flow into the result of a call, if it has one. -/
def passResult (s : State) (returned : List VarId) : Option VarId → State
  | none => s
  | some result =>
    (s.mention (.var result)).connectAll (returned.map fun v => (.var v, .var result))

/-- Lets the arguments of a call flow into the parameters of the method called, and what the method
    returns into the result. -/
def passValues (s : State) (call : Invoke) (callee : Method) : State :=
  (s.connectAll ((call.args.zip callee.params).map fun (arg, param) => (.var arg, .var param))
    ).passResult callee.returnVars call.result

/-- Records that a call site calls a method. On the first occasion the method becomes reachable and
    values are passed. -/
def link (p : Program) (s : State) (site : Location) (call : Invoke) (callee : MethodId) : State :=
  let s := s.reach callee
  let (calls, isNew) := s.calls.addEdge ⟨call.kind, site, callee⟩
  if isNew then
    let s := { s with calls }.emit (.called site callee)
    match p.method? callee with
    | none => s
    | some method => s.passValues call method
  else s

/-- Binds the receiver of a call to the variable of the method called that holds it. -/
def bindReceiver (p : Program) (s : State) (callee : MethodId) (receiver : ObjId) : State :=
  match (p.method? callee).bind Method.self with
  | none => s
  | some self => s.feed (.var self) (Ascending.singleton receiver)

/-- Finds the target of a static call. -/
def callStatic (p : Program) (s : State) (site : Location) (call : Invoke) : State :=
  match p.callee? call none with
  | none => s.emit (.unresolved site call.target.subsignature)
  | some callee => s.link p site call callee

/-- Finds the target of the instance call at a site for an object that reached its receiver. -/
def callInstance (p : Program) (s : State) (receiver : ObjId) (site : Location) : State :=
  match p.stmt? site with
  | some (.invoke call) =>
    match p.callee? call ((s.heap.obj? receiver).map Obj.ty) with
    | none => s.emit (.noTarget site receiver)
    | some callee => (s.bindReceiver p callee receiver).link p site call callee
  | _ => s

/-! ## §3 Reachable methods -/

/-- The effect that a statement has as soon as its method is reachable. -/
def enterStmt (p : Program) (s : State) (loc : Location) : Stmt → State
  | .new lhs ty =>
    let (heap, obj) := s.heap.allocate loc ty
    { s with heap }.feed (.var lhs) (Ascending.singleton obj)
  | .copy lhs rhs => s.connect (.var rhs) (.var lhs)
  | .cast lhs rhs _ => s.connect (.var rhs) (.var lhs)
  | .loadField lhs none f => s.connect (.staticField f) (.var lhs)
  | .storeField none f rhs => s.connect (.var rhs) (.staticField f)
  | .invoke call => if call.kind.isStatic then s.callStatic p loc call else s
  | _ => s

/-- The effect that the statements of a method have as soon as it is reachable. -/
def enterMethod (p : Program) (s : State) (m : MethodId) : State :=
  match p.method? m with
  | none => s
  | some method => method.body.zipIdx.foldl (fun s (stmt, i) => s.enterStmt p ⟨m, i⟩ stmt) s

/-- Looks at the statements of pending methods, of at most the given number of them. -/
def enterPending (p : Program) : Nat → State → State
  | 0, s => s
  | n + 1, s =>
    match s.pending with
    | [] => s
    | m :: rest => enterPending p n ({ s with pending := rest }.enterMethod p m)

/-- Looks at the statements of all pending methods. A method is pending only once, so there are at
    most as many rounds as methods. -/
def settle (p : Program) (s : State) : State :=
  s.enterPending p p.methods.size

/-! ## §4 Propagation -/

/-- The effect of an object that newly reached a variable. -/
def receive (p : Program) (v : VarId) (s : State) (obj : ObjId) : State :=
  match p.var? v with
  | none => s
  | some var =>
    var.accesses.invokes.foldl (fun s site => s.callInstance p obj site)
      (s.connectAll (p.heapFlows var.accesses obj))

/-- The effect of objects that newly reached a pointer. -/
def receiveAll (p : Program) (s : State) (pointer : Pointer) (delta : ObjSet) : State :=
  match pointer with
  | .var v => delta.toList.foldl (receive p v) s
  | _ => s

/-- Does one propagation: only objects that the pointer does not have yet count. -/
def absorb (p : Program) (s : State) (item : WorkItem) : State :=
  let delta := item.objects.sdiff (s.flow.objects item.pointer)
  match s.flow.pointer? item.pointer with
  | none => s
  | some pointer =>
    if delta.isEmpty then s
    else ((s.propagate item.pointer pointer delta).receiveAll p pointer delta).settle p

/-- Takes the next propagation from the worklist and does it; nothing is left to do when there is
    none. -/
def step? (p : Program) (s : State) : Option State :=
  s.worklist.poll.map fun (item, worklist) =>
    { s with worklist, iterations := s.iterations + 1 }.absorb p item

/-- Does propagations until none is left, at most the given number of them. -/
def drain (p : Program) : Nat → State → State
  | 0, s => s
  | n + 1, s =>
    match s.step? p with
    | none => s
    | some s => drain p n s

/-- The state in which the analysis starts from an entry method. -/
def start (p : Program) (order : WorkOrder) (entry : MethodId) : State :=
  let s : State := { worklist := { order } }
  let s := s.emit (.started entry)
  (({ s with calls := s.calls.addEntry entry }).reach entry).settle p

end State

/-! ## §5 Bounds -/

namespace Program

/-- The number of allocations in the program, which bounds the number of objects. -/
def allocationCount (p : Program) : Nat :=
  p.statements.countP fun (_, stmt) => match stmt with
    | .new _ _ => true
    | _ => false

/-- The number of calls in the program. -/
def callCount (p : Program) : Nat :=
  p.statements.countP fun (_, stmt) => match stmt with
    | .invoke _ => true
    | _ => false

/-- Bounds the number of pointers: the variables, the fields of each object, the elements of each
    object and the static fields. -/
def pointerBound (p : Program) : Nat :=
  p.vars.size + p.allocationCount * p.fields.size + p.allocationCount + p.fields.size

/-- Bounds the number of propagations: one for each allocation, for each object that crosses an edge
    and for each object that reaches the receiver of a call. -/
def iterationBound (p : Program) : Nat :=
  p.allocationCount + p.pointerBound * p.pointerBound * p.allocationCount
    + p.callCount * p.allocationCount

end Program

end PointsTo
