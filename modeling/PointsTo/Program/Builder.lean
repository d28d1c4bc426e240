import PointsTo.Program.Hierarchy

/-!
# Building programs

A program is put together by declarations: classes with their supertypes, fields, methods, and the
statements of method bodies. A declaration refers to earlier ones by identifier, and identifiers are
positions, so a reference can also point at something that is declared later or never. Superclasses,
the entry method and the operands of statements are recorded unseen and examined when the program is
complete; every other reference is checked at once.

Each operation answers with the builder it leaves behind, whether it succeeds or not.
-/

namespace PointsTo

/-! ## §1 Rejected declarations -/

/-- Why a declaration is rejected. -/
inductive DeclarationError
  /-- There is already a class with this name. -/
  | duplicateClass (name : String)
  /-- There is no entry with this identifier. -/
  | foreign (table : Table) (index : Nat)
  /-- Something else than an interface was to be implemented. -/
  | notInterface (target implementor : String)
  /-- The class already declares a field with this name. -/
  | duplicateField (name owner : String)
  /-- The class already declares a method with this subsignature. -/
  | duplicateMethod (subsignature : Subsignature) (owner : String)
  /-- The text is no subsignature. -/
  | malformed (cause : Subsignature.ParseError)
deriving DecidableEq

/-- What is said about an identifier without an entry. -/
def foreignMessage (table : Table) (index : Nat) : String :=
  table.noun ++ " #" ++ toString index ++ " does not belong to this program"

/-- The wording of a rejected declaration. -/
def DeclarationError.message : DeclarationError → String
  | duplicateClass name => "class " ++ name ++ " is declared twice"
  | foreign table index => foreignMessage table index
  | notInterface target implementor =>
    target ++ " is not an interface and cannot be implemented by " ++ implementor
  | duplicateField name owner => "field " ++ name ++ " is declared twice in " ++ owner
  | duplicateMethod s owner => "method " ++ s.render ++ " is declared twice in " ++ owner
  | malformed cause => cause.message

/-- A program under construction. -/
structure Builder where
  /-- What has been declared so far. -/
  program : Program := {}

namespace Builder

/-- What an operation leaves behind, and its answer. -/
abbrev Outcome (α : Type) := Builder × Except DeclarationError α

/-! ## §2 Classes -/

/-- Declares a class. The first class that is no interface and extends nothing becomes the root
    class, unless there is one already. -/
def declareClass (b : Builder) (name : String) (kind : ClassKind) (superclass : Option ClassId) :
    Outcome ClassId :=
  match b.program.classByName? name with
  | some _ => (b, .error (.duplicateClass name))
  | none =>
    let id : ClassId := ⟨b.program.classes.size⟩
    let isRoot := superclass.isNone && kind != .interface
    ({ b with program := { b.program with
        classes := b.program.classes.push { name, kind, superclass }
        objectClass := b.program.objectClass.or (if isRoot then some id else none) } },
      .ok id)

/-- Declares a concrete class. -/
def addClass (b : Builder) (name : String) (superclass : Option ClassId) : Outcome ClassId :=
  b.declareClass name .concrete superclass

/-- Declares an abstract class. -/
def addAbstractClass (b : Builder) (name : String) (superclass : Option ClassId) :
    Outcome ClassId :=
  b.declareClass name .abstract superclass

/-- Records that a class implements or, if it is an interface, extends an interface. -/
def addImplementation (b : Builder) (c iface : ClassId) : Outcome Unit :=
  match b.program.class? c with
  | none => (b, .error (.foreign .classes c.index))
  | some implementor =>
    match b.program.class? iface with
    | none => (b, .error (.foreign .classes iface.index))
    | some target =>
      if target.isInterface then
        ({ b with program := { b.program with
            classes := b.program.classes.modify c.index fun cls =>
              { cls with interfaces := cls.interfaces ++ [iface] } } },
          .ok ())
      else (b, .error (.notInterface target.name implementor.name))

/-- Records the interfaces of a class one after the other, up to the first that is rejected. -/
def addImplementations (b : Builder) (c : ClassId) : List ClassId → Outcome Unit
  | [] => (b, .ok ())
  | iface :: rest =>
    match b.addImplementation c iface with
    | (b, .ok ()) => b.addImplementations c rest
    | (b, .error e) => (b, .error e)

/-- Declares an interface that extends others. If one of those is rejected, the interface stays
    declared with the ones before it. -/
def addInterface (b : Builder) (name : String) (superinterfaces : List ClassId) :
    Outcome ClassId :=
  match b.declareClass name .interface none with
  | (b, .error e) => (b, .error e)
  | (b, .ok id) =>
    match b.addImplementations id superinterfaces with
    | (b, .error e) => (b, .error e)
    | (b, .ok ()) => (b, .ok id)

/-- Chooses the root class. -/
def setObjectClass (b : Builder) (c : ClassId) : Builder :=
  { b with program := { b.program with objectClass := some c } }

/-! ## §3 Fields and methods -/

/-- Declares a field. -/
def addField (b : Builder) (c : ClassId) (name : String) (isStatic : Bool) : Outcome FieldId :=
  match b.program.class? c with
  | none => (b, .error (.foreign .classes c.index))
  | some owner =>
    match b.program.declaredField? c name with
    | some _ => (b, .error (.duplicateField name owner.name))
    | none =>
      let id : FieldId := ⟨b.program.fields.size⟩
      ({ b with program := { b.program with
          fields := b.program.fields.push { owner := c, name, isStatic }
          classes := b.program.classes.modify c.index fun cls =>
            { cls with fields := cls.fields ++ [id] } } },
        .ok id)

/-- Adds a variable to a method. -/
def newVar (b : Builder) (m : MethodId) (name : String) : Builder × VarId :=
  let id : VarId := ⟨b.program.vars.size⟩
  ({ b with program := { b.program with
      vars := b.program.vars.push { name, method := m }
      methods := b.program.methods.modify m.index fun method =>
        { method with vars := method.vars ++ [id] } } },
    id)

/-- Gives a method the variable that holds its receiver. -/
def newSelf (b : Builder) (m : MethodId) : Builder :=
  let (b, id) := b.newVar m "this"
  { b with program := { b.program with
      methods := b.program.methods.modify m.index fun method => { method with self := some id } } }

/-- Gives a method the variable that holds its `i`-th argument. -/
def newParam (b : Builder) (m : MethodId) (i : Nat) : Builder :=
  let (b, id) := b.newVar m ("p" ++ toString i)
  { b with program := { b.program with
      methods := b.program.methods.modify m.index fun method =>
        { method with params := method.params ++ [id] } } }

/-- Declares a method, together with the variables `this`, for instance methods, and `p0`, `p1`, …
    for its parameters. -/
def declareMethod (b : Builder) (c : ClassId) (subsignature : String)
    (isStatic isAbstract : Bool) : Outcome MethodId :=
  match Subsignature.parse subsignature with
  | .error e => (b, .error (.malformed e))
  | .ok s =>
    match b.program.class? c with
    | none => (b, .error (.foreign .classes c.index))
    | some owner =>
      match b.program.declaredMethod? c s with
      | some _ => (b, .error (.duplicateMethod s owner.name))
      | none =>
        let id : MethodId := ⟨b.program.methods.size⟩
        let b : Builder := { b with program := { b.program with
          methods := b.program.methods.push { owner := c, subsignature := s, isStatic, isAbstract }
          classes := b.program.classes.modify c.index fun cls =>
            { cls with methods := cls.methods ++ [(s, id)] } } }
        let b := if isStatic then b else b.newSelf id
        ((List.range s.paramCount).foldl (fun b i => b.newParam id i) b, .ok id)

/-- Declares a method with a body. -/
def addMethod (b : Builder) (c : ClassId) (subsignature : String) (isStatic : Bool) :
    Outcome MethodId :=
  b.declareMethod c subsignature isStatic false

/-- Declares an instance method without a body. -/
def addAbstractMethod (b : Builder) (c : ClassId) (subsignature : String) : Outcome MethodId :=
  b.declareMethod c subsignature false true

/-- Chooses the entry method. -/
def setMain (b : Builder) (m : MethodId) : Builder :=
  { b with program := { b.program with main := some m } }

/-- A reference to a method by its written subsignature. The class is not examined. -/
def methodRef (c : ClassId) (subsignature : String) : Except DeclarationError MethodRef :=
  match Subsignature.parse subsignature with
  | .error e => .error (.malformed e)
  | .ok s => .ok ⟨c, s⟩

/-! ## §4 Bodies -/

/-- The method whose body is to be extended. -/
def body (b : Builder) (m : MethodId) : Except DeclarationError Method :=
  match b.program.method? m with
  | none => .error (.foreign .methods m.index)
  | some method => .ok method

/-- The variable of a method with a given name, created when there is none. -/
def localVar (b : Builder) (m : MethodId) (name : String) : Outcome VarId :=
  match b.body m with
  | .error e => (b, .error e)
  | .ok method =>
    match b.program.varByName? method name with
    | some id => (b, .ok id)
    | none =>
      let (b, id) := b.newVar m name
      (b, .ok id)

/-- Appends a statement to the body of a method. The operands are not examined. -/
def append (b : Builder) (m : MethodId) (stmt : Stmt) : Outcome Location :=
  match b.body m with
  | .error e => (b, .error e)
  | .ok method =>
    ({ b with program := { b.program with
        methods := b.program.methods.modify m.index fun method =>
          { method with body := method.body ++ [stmt] } } },
      .ok ⟨m, method.body.length⟩)

end Builder

end PointsTo
