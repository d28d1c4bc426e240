import PointsTo.Program.Basic

/-!
# Access indexes

A statement that goes through a variable to the heap takes effect when an object reaches that
variable. The analysis therefore needs, for every variable, the statements that load or store
through it or call a method on it. `Program.indexed` enters them into the variables in one pass over
the program, and the returned variables into the methods.
-/

namespace PointsTo

/-- What a statement does through its base variable. -/
inductive AccessKind
  | loadField
  | storeField
  | loadArray
  | storeArray
  | invoke
deriving DecidableEq

/-- The variable through which a statement goes to the heap, and what it does there. -/
def Stmt.access? : Stmt → Option (VarId × AccessKind)
  | loadField _ (some base) _ => some (base, .loadField)
  | storeField (some base) _ _ => some (base, .storeField)
  | loadArray _ base _ => some (base, .loadArray)
  | storeArray base _ _ => some (base, .storeArray)
  | invoke call => call.receiver.map fun receiver => (receiver, .invoke)
  | _ => none

/-- The variable whose value a statement returns. -/
def Stmt.returned? : Stmt → Option VarId
  | ret value => value
  | _ => none

/-- Enters the location of an access. -/
def Accesses.record (a : Accesses) (kind : AccessKind) (loc : Location) : Accesses :=
  match kind with
  | .loadField => { a with loadFields := a.loadFields ++ [loc] }
  | .storeField => { a with storeFields := a.storeFields ++ [loc] }
  | .loadArray => { a with loadArrays := a.loadArrays ++ [loc] }
  | .storeArray => { a with storeArrays := a.storeArrays ++ [loc] }
  | .invoke => { a with invokes := a.invokes ++ [loc] }

/-- Enters one statement into the variable it goes through. -/
def indexStmt (vars : Array Var) (loc : Location) (stmt : Stmt) : Array Var :=
  match stmt.access? with
  | none => vars
  | some (base, kind) =>
    vars.modify base.index fun var => { var with accesses := var.accesses.record kind loc }

/-- The variables that a body returns, each once, in the order of their first return. -/
def returnedVars (body : List Stmt) : List VarId :=
  (body.filterMap Stmt.returned?).eraseDups

/-- The program with the access indexes of its variables and the returned variables of its methods
    filled in. -/
def Program.indexed (p : Program) : Program :=
  { p with
    vars := p.statements.foldl (fun vars (loc, stmt) => indexStmt vars loc stmt) p.vars
    methods := p.methods.map fun method => { method with returnVars := returnedVars method.body } }

end PointsTo
