import PointsTo.Proofs.Rules

/-!
# Executions

What programs do when they run. A state has a heap of objects, the static fields and any number of
frames; it does not say where in its method a frame is, and no frame ever ends. Any frame may execute
any statement of its method at any time, so every order of execution is covered, with or without
branches, loops, exceptions and threads.

- `Memory`: the states.
- `Memory.execute`: what a statement does when a frame executes it.
- `Memory.run`: the state that a sequence of moves leads to.
-/

namespace PointsTo

/-! ## §1 States -/

/-- A reference to an object by its position in the heap, or null. -/
abbrev Value := Option Nat

/-- An object, with the allocation that created it. -/
structure Cell where
  /-- The statement that created the object. -/
  site : Location
  ty : Ty
  /-- The contents of the instance fields. -/
  fields : FieldId → Value := fun _ => none
  /-- The contents of the array slots. -/
  slots : Nat → Value := fun _ => none

/-- An activation of a method. -/
structure Frame where
  method : MethodId
  /-- The contents of the variables. -/
  env : VarId → Value := fun _ => none
  /-- The frame that made the call, by its position, and the call site. -/
  caller : Option (Nat × Location) := none

/-- A state of an execution. -/
structure Memory where
  heap : List Cell := []
  statics : FieldId → Value := fun _ => none
  frames : List Frame

/-- One move of an execution: a frame executes a statement of its method. -/
structure Move where
  frame : Nat
  /-- The position of the statement in the method. -/
  index : Nat
  /-- The array slot, should the statement access an array. -/
  slot : Nat := 0

/-! ## §2 Changes -/

/-- A function with one value replaced. -/
def assigned {α : Type} [DecidableEq α] (f : α → Value) (a : α) (value : Value) : α → Value :=
  fun x => if x = a then value else f x

namespace Memory

/-- Writes a variable of a frame. -/
def assign (c : Memory) (i : Nat) (v : VarId) (value : Value) : Memory :=
  { c with frames := c.frames.modify i fun frame => { frame with env := assigned frame.env v value } }

/-- Creates an object. -/
def allocate (c : Memory) (site : Location) (ty : Ty) : Memory :=
  { c with heap := c.heap ++ [{ site, ty }] }

/-- The object that a variable of a frame refers to. -/
def deref? (c : Memory) (frame : Frame) (v : VarId) : Option Cell :=
  (frame.env v).bind fun a => c.heap[a]?

/-- Changes the object that a variable of a frame refers to; nothing happens for null. -/
def modify (c : Memory) (frame : Frame) (v : VarId) (f : Cell → Cell) : Memory :=
  match frame.env v with
  | none => c
  | some a => { c with heap := c.heap.modify a f }

/-! ## §3 Calls -/

/-- The variables of a method when it is called: the receiver, and the parameters pairwise with the
    arguments. -/
def bindings (method : Method) (receiver : Value) (args : List Value) : VarId → Value :=
  fun v =>
    if method.self = some v then receiver else ((method.params.zip args).lookup v).join

/-- The method that a call runs and the receiver of the call. An instance call runs nothing if its
    receiver is null or no method is found. -/
def callee? (p : Program) (c : Memory) (frame : Frame) (call : Invoke) : Option (MethodId × Value) :=
  match call.kind with
  | .static => (p.resolve call.target).map fun m => (m, none)
  | .special => do
    let a ← call.receiver.bind frame.env
    let m ← p.dispatch call.target.start call.target.subsignature
    return (m, some a)
  | .virtual | .interface => do
    let a ← call.receiver.bind frame.env
    let cell ← c.heap[a]?
    let m ← p.dispatchOnType cell.ty call.target.subsignature
    return (m, some a)

/-- Enters the method that a call runs, if there is one. -/
def enter (p : Program) (c : Memory) (i : Nat) (frame : Frame) (site : Location) (call : Invoke) :
    Memory :=
  match c.callee? p frame call with
  | none => c
  | some (m, receiver) =>
    match p.method? m with
    | none => c
    | some method =>
      { c with frames := c.frames ++
          [{ method := m
             env := bindings method receiver (call.args.map frame.env)
             caller := some (i, site) }] }

/-- Hands a value to the result of the call that created the frame, if there is one. -/
def handBack (p : Program) (c : Memory) (frame : Frame) (value : Value) : Memory :=
  match frame.caller with
  | none => c
  | some (j, site) =>
    match p.stmt? site with
    | some (.invoke call) =>
      match call.result with
      | none => c
      | some result => c.assign j result value
    | _ => c

/-! ## §4 Statements -/

/-- What a statement does when a frame executes it. -/
def execute (p : Program) (c : Memory) (i : Nat) (frame : Frame) (loc : Location) (slot : Nat) :
    Stmt → Memory
  | .new lhs ty => (c.allocate loc ty).assign i lhs (some c.heap.length)
  | .copy lhs rhs => c.assign i lhs (frame.env rhs)
  | .cast lhs rhs _ => c.assign i lhs (frame.env rhs)
  | .loadField lhs none f => c.assign i lhs (c.statics f)
  | .storeField none f rhs => { c with statics := assigned c.statics f (frame.env rhs) }
  | .loadField lhs (some base) f =>
    match c.deref? frame base with
    | none => c
    | some cell => c.assign i lhs (cell.fields f)
  | .storeField (some base) f rhs =>
    c.modify frame base fun cell => { cell with fields := assigned cell.fields f (frame.env rhs) }
  | .loadArray lhs base _ =>
    match c.deref? frame base with
    | none => c
    | some cell => c.assign i lhs (cell.slots slot)
  | .storeArray base _ rhs =>
    c.modify frame base fun cell => { cell with slots := assigned cell.slots slot (frame.env rhs) }
  | .invoke call => c.enter p i frame loc call
  | .ret (some v) => c.handBack p frame (frame.env v)
  | .ret none => c
  | .other => c

/-- The state that a move leads to. A move of a frame or a statement that does not exist does
    nothing. -/
def perform (p : Program) (c : Memory) (move : Move) : Memory :=
  match c.frames[move.frame]? with
  | none => c
  | some frame =>
    match p.stmt? ⟨frame.method, move.index⟩ with
    | none => c
    | some stmt => c.execute p move.frame frame ⟨frame.method, move.index⟩ move.slot stmt

/-- The state in which executions start: one frame of the entry method, and everything null. -/
def initial (entry : MethodId) : Memory := { frames := [{ method := entry }] }

/-- The state that a sequence of moves leads to. -/
def run (p : Program) (entry : MethodId) (moves : List Move) : Memory :=
  moves.foldl (perform p) (initial entry)

end Memory

end PointsTo
