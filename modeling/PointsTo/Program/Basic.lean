import PointsTo.Program.Stmt

/-!
# Programs

The object-oriented program that is analysed: tables of classes, fields, methods and variables that
refer to each other by identifier, an optional entry method and an optional root class.

An identifier may have no entry in its table. Lookups therefore answer with an option, and so do the
names that are put together from several lookups. Where a text is needed in any case, the name of a
missing entry is the printed identifier.
-/

namespace PointsTo

/-! ## §1 Tables -/

/-- What kind of class a declaration introduces. -/
inductive ClassKind
  /-- A class that can be instantiated. -/
  | concrete
  /-- A class that is only inherited from. -/
  | abstract
  /-- An interface. -/
  | interface
deriving DecidableEq

/-- A declared class. -/
structure Class where
  /-- The name. -/
  name : String
  /-- What kind of class it is. -/
  kind : ClassKind
  /-- The class it extends. -/
  superclass : Option ClassId
  /-- The interfaces it implements or, for an interface, extends. -/
  interfaces : List ClassId := []
  /-- The methods it declares. -/
  methods : List (Subsignature × MethodId) := []
  /-- The fields it declares. -/
  fields : List FieldId := []

/-- Whether the class is an interface. -/
def Class.isInterface (c : Class) : Bool := c.kind == .interface

/-- Whether the class cannot be instantiated. -/
def Class.isAbstract (c : Class) : Bool := c.kind != .concrete

/-- A declared field. -/
structure Field where
  /-- The declaring class. -/
  owner : ClassId
  /-- The name. -/
  name : String
  /-- Whether the field belongs to the class and not to its instances. -/
  isStatic : Bool

/-- A declared method. -/
structure Method where
  /-- The declaring class. -/
  owner : ClassId
  /-- What identifies the method in its class. -/
  subsignature : Subsignature
  /-- Whether the method has no receiver. -/
  isStatic : Bool
  /-- Whether the method has no body. -/
  isAbstract : Bool
  /-- The variable that holds the receiver, for instance methods. -/
  self : Option VarId := none
  /-- The variables that hold the arguments. -/
  params : List VarId := []
  /-- The variables whose values the method returns. -/
  returnVars : List VarId := []
  /-- The statements. -/
  body : List Stmt := []
  /-- All variables of the method. -/
  vars : List VarId := []

/-- The statements that access the heap through one variable. -/
structure Accesses where
  /-- Loads of a field of the variable. -/
  loadFields : List Location := []
  /-- Stores to a field of the variable. -/
  storeFields : List Location := []
  /-- Loads of an element of the variable. -/
  loadArrays : List Location := []
  /-- Stores to an element of the variable. -/
  storeArrays : List Location := []
  /-- Calls whose receiver is the variable. -/
  invokes : List Location := []

/-- A local variable. -/
structure Var where
  /-- The name. -/
  name : String
  /-- The method it belongs to. -/
  method : MethodId
  /-- The statements that access the heap through it. -/
  accesses : Accesses := {}

/-- A program. -/
structure Program where
  /-- The classes, in the order of their identifiers. -/
  classes : Array Class := #[]
  /-- The fields, in the order of their identifiers. -/
  fields : Array Field := #[]
  /-- The methods, in the order of their identifiers. -/
  methods : Array Method := #[]
  /-- The variables, in the order of their identifiers. -/
  vars : Array Var := #[]
  /-- The method where the analysis starts. -/
  main : Option MethodId := none
  /-- The root of the class hierarchy, which provides the methods of arrays. -/
  objectClass : Option ClassId := none

namespace Program

/-! ## §2 Lookups -/

/-- The class with a given identifier. -/
def class? (p : Program) (id : ClassId) : Option Class := p.classes[id.index]?

/-- The field with a given identifier. -/
def field? (p : Program) (id : FieldId) : Option Field := p.fields[id.index]?

/-- The method with a given identifier. -/
def method? (p : Program) (id : MethodId) : Option Method := p.methods[id.index]?

/-- The variable with a given identifier. -/
def var? (p : Program) (id : VarId) : Option Var := p.vars[id.index]?

/-- The statement at a location. -/
def stmt? (p : Program) (loc : Location) : Option Stmt :=
  (p.method? loc.method).bind fun m => m.body[loc.index]?

/-- The identifiers of the classes. -/
def classIds (p : Program) : List ClassId := Id.below .classes p.classes.size

/-- The identifiers of the methods. -/
def methodIds (p : Program) : List MethodId := Id.below .methods p.methods.size

/-- The identifiers of the variables. -/
def varIds (p : Program) : List VarId := Id.below .vars p.vars.size

/-- All statements with their locations, method by method. -/
def statements (p : Program) : List (Location × Stmt) :=
  p.methodIds.flatMap fun m =>
    match p.method? m with
    | none => []
    | some method => method.body.zipIdx.map fun (stmt, i) => (⟨m, i⟩, stmt)

/-- The class with a given name. -/
def classByName? (p : Program) (name : String) : Option ClassId :=
  (p.classes.findIdx? (·.name == name)).map Id.mk

/-- The variable of a method with a given name. -/
def varByName? (p : Program) (method : Method) (name : String) : Option VarId :=
  method.vars.find? fun v => (p.var? v).any (·.name == name)

/-- The class that a class extends. -/
def superclassOf (p : Program) (c : ClassId) : Option ClassId :=
  (p.class? c).bind Class.superclass

/-- The interfaces that a class lists. -/
def interfacesOf (p : Program) (c : ClassId) : List ClassId :=
  match p.class? c with
  | none => []
  | some cls => cls.interfaces

/-- The method that a class declares, and does not merely inherit, under a subsignature. -/
def declaredMethod? (p : Program) (c : ClassId) (s : Subsignature) : Option MethodId :=
  (p.class? c).bind fun cls => cls.methods.lookup s

/-- The field that a class declares, and does not merely inherit, under a name. -/
def declaredField? (p : Program) (c : ClassId) (name : String) : Option FieldId :=
  (p.class? c).bind fun cls => cls.fields.find? fun f => (p.field? f).any (·.name == name)

/-! ## §3 Names -/

/-- The name of a method: its class and subsignature in angle brackets. -/
def methodName? (p : Program) (id : MethodId) : Option String := do
  let method ← p.method? id
  let cls ← p.class? method.owner
  return "<" ++ cls.name ++ ": " ++ method.subsignature.render ++ ">"

/-- The name of a type: its class followed by a bracket pair for each array level. -/
def typeName? (p : Program) : Ty → Option String
  | .ofClass id => (p.class? id).map Class.name
  | .array elem => (p.typeName? elem).map (· ++ "[]")

/-- The name of a variable, qualified by its method. -/
def varName? (p : Program) (id : VarId) : Option String := do
  let var ← p.var? id
  let method ← p.methodName? var.method
  return method ++ "/" ++ var.name

/-- The name of a field, qualified by its class. -/
def fieldName? (p : Program) (id : FieldId) : Option String := do
  let field ← p.field? id
  let cls ← p.class? field.owner
  return cls.name ++ "." ++ field.name

/-- The name of a method for use in a message. -/
def methodName (p : Program) (id : MethodId) : String := (p.methodName? id).getD id.label

/-- The name of a type for use in a message. -/
def typeName (p : Program) (ty : Ty) : String := (p.typeName? ty).getD (inspect ty)

/-- The name of a field for use in a message. -/
def fieldName (p : Program) (id : FieldId) : String := (p.fieldName? id).getD id.label

end Program

end PointsTo
