import PointsTo.Program.Access
import PointsTo.Program.Builder

/-!
# Validation

A complete program is examined before it is analysed: identifiers must have entries, superclass
chains must end, and every statement must make sense in its method. Each rule is a function that
finds the first violation, so a program is well formed exactly when none is found.

- `Program.fault?` finds the first violation in a program.
- `Builder.build` gives the finished program, with its access indexes, or that violation.
-/

namespace PointsTo

/-! ## §1 Violations -/

/-- What is wrong with a statement. -/
inductive StmtFault
  /-- An operand has no entry. -/
  | foreign (table : Table) (index : Nat)
  /-- A variable belongs to another method. -/
  | notOwned (var owner : String)
  /-- A static field is accessed through a variable. -/
  | staticFieldWithBase (field : String)
  /-- An instance field is accessed without a variable. -/
  | instanceFieldWithoutBase (field : String)
  /-- A static call has a receiver. -/
  | staticCallWithReceiver
  /-- An instance call has no receiver. -/
  | callWithoutReceiver (kind : CallKind)
  /-- The declaration called is static and the call is not, or the other way round. -/
  | kindMismatch (kind : CallKind) (target : String)
  /-- The declaration called has another number of parameters. -/
  | argumentCount (given : Nat) (target : String) (expected : Nat)
deriving DecidableEq

/-- What is wrong with a method. -/
inductive MethodFault
  /-- An abstract method has statements. -/
  | abstractBody
  /-- A statement is at fault. -/
  | atStatement (index : Nat) (stmt : Stmt) (cause : StmtFault)
deriving DecidableEq

/-- What is wrong with a program. -/
inductive ProgramFault
  /-- The root class or the entry method has no entry. -/
  | foreign (table : Table) (index : Nat)
  /-- A supertype of a class has no entry. -/
  | foreignSupertype (cls : String) (index : Nat)
  /-- The superclass chain of a class does not end. -/
  | cyclicSuperclasses (cls : String)
  /-- The entry method has a receiver. -/
  | mainNotStatic (method : String)
  /-- A method is at fault. -/
  | inMethod (method : String) (cause : MethodFault)
deriving DecidableEq

/-- The wording of a fault in a statement. -/
def StmtFault.message : StmtFault → String
  | foreign table index => foreignMessage table index
  | notOwned var owner => "variable " ++ var ++ " belongs to " ++ owner
  | staticFieldWithBase field => "static field " ++ field ++ " accessed through a base variable"
  | instanceFieldWithoutBase field =>
    "instance field " ++ field ++ " accessed without a base variable"
  | staticCallWithReceiver => "static call with a receiver"
  | callWithoutReceiver kind => kind.label ++ " call without a receiver"
  | kindMismatch kind target =>
    kind.label ++ " call resolves to " ++ target ++ ", dispatch kind does not match"
  | argumentCount given target expected =>
    "call passes " ++ toString given ++ " arguments but " ++ target ++ " takes "
      ++ toString expected

/-- The wording of a fault in a method. -/
def MethodFault.message : MethodFault → String
  | abstractBody => "abstract method has a body"
  | atStatement index stmt cause =>
    "at statement " ++ toString index ++ ": " ++ inspect stmt ++ ": " ++ cause.message

/-- The wording of a fault in a program. -/
def ProgramFault.message : ProgramFault → String
  | foreign table index => foreignMessage table index
  | foreignSupertype cls index =>
    "in the supertypes of " ++ cls ++ ": " ++ foreignMessage .classes index
  | cyclicSuperclasses cls => "superclass chain of " ++ cls ++ " is cyclic"
  | mainNotStatic method => "main method " ++ method ++ " is not static"
  | inMethod method cause => "invalid method " ++ method ++ ": " ++ cause.message

namespace Program

/-! ## §2 Statements -/

/-- A variable must have an entry and belong to the method that uses it. -/
def varFault? (p : Program) (m : MethodId) (v : VarId) : Option StmtFault :=
  match p.var? v with
  | none => some (.foreign .vars v.index)
  | some var =>
    if var.method = m then none else some (.notOwned var.name (p.methodName var.method))

/-- The class of a type must have an entry. -/
def typeFault? (p : Program) (ty : Ty) : Option StmtFault :=
  match p.class? ty.baseClass with
  | none => some (.foreign .classes ty.baseClass.index)
  | some _ => none

/-- A field must have an entry and be static exactly when it is accessed without a variable. -/
def fieldFault? (p : Program) (base : Option VarId) (f : FieldId) : Option StmtFault :=
  match p.field? f with
  | none => some (.foreign .fields f.index)
  | some field =>
    if field.isStatic && base.isSome then some (.staticFieldWithBase (p.fieldName f))
    else if !field.isStatic && base.isNone then some (.instanceFieldWithoutBase (p.fieldName f))
    else none

/-- A call must have a receiver exactly when it is not static. -/
def receiverFault? (call : Invoke) : Option StmtFault :=
  if call.kind.isStatic && call.receiver.isSome then some .staticCallWithReceiver
  else if !call.kind.isStatic && call.receiver.isNone then some (.callWithoutReceiver call.kind)
  else none

/-- The declaration that a call resolves to, if there is one, must fit the call. -/
def targetFault? (p : Program) (call : Invoke) : Option StmtFault :=
  (p.resolve call.target).bind fun target =>
    (p.method? target).bind fun method =>
      if method.isStatic != call.kind.isStatic then
        some (.kindMismatch call.kind (p.methodName target))
      else if method.params.length ≠ call.args.length then
        some (.argumentCount call.args.length (p.methodName target) method.params.length)
      else none

/-- A call must name a class with an entry and fit the declaration it resolves to. -/
def invokeFault? (p : Program) (call : Invoke) : Option StmtFault :=
  match p.class? call.target.start with
  | none => some (.foreign .classes call.target.start.index)
  | some _ => (receiverFault? call).or (p.targetFault? call)

/-- The first fault of a statement: its variables come first, then what is special to its form. -/
def stmtFault? (p : Program) (m : MethodId) (stmt : Stmt) : Option StmtFault :=
  (stmt.vars.findSome? (p.varFault? m)).or <|
    match stmt with
    | .new _ ty => p.typeFault? ty
    | .cast _ _ ty => p.typeFault? ty
    | .loadField _ base field => p.fieldFault? base field
    | .storeField base field _ => p.fieldFault? base field
    | .invoke call => p.invokeFault? call
    | _ => none

/-! ## §3 Methods -/

/-- The first fault of a method. -/
def methodFault? (p : Program) (m : MethodId) (method : Method) : Option MethodFault :=
  if method.isAbstract && !method.body.isEmpty then some .abstractBody
  else
    method.body.zipIdx.findSome? fun (stmt, i) =>
      (p.stmtFault? m stmt).map (.atStatement i stmt)

/-- The first fault of the method with a given identifier, under the method's name. -/
def namedMethodFault? (p : Program) (m : MethodId) : Option ProgramFault :=
  (p.method? m).bind fun method =>
    (p.methodFault? m method).map (.inMethod (p.methodName m))

/-! ## §4 Programs -/

/-- The root class must have an entry. -/
def objectClassFault? (p : Program) : Option ProgramFault :=
  p.objectClass.bind fun root =>
    match p.class? root with
    | none => some (.foreign .classes root.index)
    | some _ => none

/-- The superclass and the interfaces of a class must have entries. -/
def supertypeFault? (p : Program) (cls : Class) : Option ProgramFault :=
  (cls.superclass.toList ++ cls.interfaces).findSome? fun parent =>
    match p.class? parent with
    | none => some (.foreignSupertype cls.name parent.index)
    | some _ => none

/-- The superclass chain of a class must end; one with more classes than the program has comes back
    to one of them. -/
def chainFault? (p : Program) (c : ClassId) : Option ProgramFault :=
  (p.class? c).bind fun cls =>
    if p.classes.size < (p.ancestry (p.classes.size + 1) c).length then
      some (.cyclicSuperclasses cls.name)
    else none

/-- The entry method must have an entry and be static. -/
def mainFault? (p : Program) : Option ProgramFault :=
  p.main.bind fun main =>
    match p.method? main with
    | none => some (.foreign .methods main.index)
    | some method => if method.isStatic then none else some (.mainNotStatic (p.methodName main))

/-- The first fault of a program. -/
def fault? (p : Program) : Option ProgramFault :=
  p.objectClassFault?.or <|
    (p.classes.toList.findSome? p.supertypeFault?).or <|
      (p.classIds.findSome? p.chainFault?).or <|
        p.mainFault?.or <|
          p.methodIds.findSome? p.namedMethodFault?

end Program

/-- The finished program, with its access indexes, if it is well formed. -/
def Builder.build (b : Builder) : Except ProgramFault Program :=
  match b.program.fault? with
  | some fault => .error fault
  | none => .ok b.program.indexed

end PointsTo
