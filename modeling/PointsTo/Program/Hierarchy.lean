import PointsTo.BreadthFirst
import PointsTo.Program.Basic
import PointsTo.Subsignature.Parser

/-!
# Class hierarchy

Method lookup along superclasses and interfaces. The superclass chain is searched first, starting
with the class itself, then the interfaces in breadth-first order. Dispatch finds the method that
runs, so it passes over abstract declarations; resolution finds the declaration that a reference
means and accepts them.

Nothing here depends on the hierarchy being well formed: a chain is followed for at most as many
links as there are classes, and an identifier without an entry has no supertypes and no methods.
The variants that end in a question mark answer only about classes that the program has.
-/

namespace PointsTo.Program

/-! ## §1 Supertypes -/

/-- The superclass chain from a class on, cut off after a number of classes. -/
def ancestry (p : Program) : Nat → ClassId → List ClassId
  | 0, _ => []
  | n + 1, c =>
    match p.superclassOf c with
    | none => [c]
    | some parent => c :: p.ancestry n parent

/-- The superclass chain of a class, starting with the class itself. -/
def superclasses (p : Program) (c : ClassId) : List ClassId :=
  p.ancestry p.classes.size c

/-- The interfaces of a class and of its superclasses, direct ones first, then the interfaces that
    those extend, and so on. -/
def superinterfaces (p : Program) (c : ClassId) : List ClassId :=
  breadthFirst p.classes.size p.interfacesOf ((p.superclasses c).flatMap p.interfacesOf)

/-- Whether one class is the other or inherits from it. -/
def isSubclass (p : Program) (sub sup : ClassId) : Bool :=
  sup ∈ p.superclasses sub || sup ∈ p.superinterfaces sub

/-! ## §2 Method lookup -/

/-- The declarations of a method that a class sees, in the order of preference. -/
def visibleMethods (p : Program) (c : ClassId) (s : Subsignature) : List MethodId :=
  (p.superclasses c ++ p.superinterfaces c).filterMap (p.declaredMethod? · s)

/-- Whether a method can run. -/
def isConcrete (p : Program) (id : MethodId) : Bool :=
  (p.method? id).any (!·.isAbstract)

/-- The method that runs when an instance of a class is called. -/
def dispatch (p : Program) (c : ClassId) (s : Subsignature) : Option MethodId :=
  (p.visibleMethods c s).find? p.isConcrete

/-- The method that runs when an object of a type is called; arrays have the methods of the root
    class only. -/
def dispatchOnType (p : Program) (ty : Ty) (s : Subsignature) : Option MethodId :=
  match ty with
  | .ofClass c => p.dispatch c s
  | .array _ => p.objectClass.bind fun root => p.dispatch root s

/-- The declaration that a reference means. -/
def resolve (p : Program) (ref : MethodRef) : Option MethodId :=
  (p.visibleMethods ref.start ref.subsignature).head?

/-- The field that a class sees under a name: the first one declared along the superclass chain. -/
def lookupField (p : Program) (c : ClassId) (name : String) : Option FieldId :=
  (p.superclasses c).findSome? (p.declaredField? · name)

/-! ## §3 Questions about declared classes -/

/-- The answer to a question about a class, if the program has that class. -/
def ofDeclared {α : Type} (p : Program) (c : ClassId) (answer : α) : Option α :=
  (p.class? c).map fun _ => answer

/-- The superclass chain of a declared class. -/
def superclasses? (p : Program) (c : ClassId) : Option (List ClassId) :=
  p.ofDeclared c (p.superclasses c)

/-- The superinterfaces of a declared class. -/
def superinterfaces? (p : Program) (c : ClassId) : Option (List ClassId) :=
  p.ofDeclared c (p.superinterfaces c)

/-- Whether a declared class inherits from another one, which need not be declared. -/
def isSubclass? (p : Program) (sub sup : ClassId) : Option Bool :=
  p.ofDeclared sub (p.isSubclass sub sup)

/-- Dispatch on a declared class. -/
def dispatch? (p : Program) (c : ClassId) (s : Subsignature) : Option (Option MethodId) :=
  p.ofDeclared c (p.dispatch c s)

/-- Dispatch on a type, whose class must be declared unless it is the element of an array. -/
def dispatchOnType? (p : Program) (ty : Ty) (s : Subsignature) : Option (Option MethodId) :=
  match ty with
  | .ofClass c => p.dispatch? c s
  | .array _ => some (p.dispatchOnType ty s)

/-- Resolution of a reference to a declared class. -/
def resolve? (p : Program) (ref : MethodRef) : Option (Option MethodId) :=
  p.ofDeclared ref.start (p.resolve ref)

/-- The method that a declared class declares under a written subsignature. A text that is no
    subsignature names no method of any class, declared or not. -/
def declaredMethodNamed? (p : Program) (c : ClassId) (text : String) : Option (Option MethodId) :=
  match Subsignature.parse text with
  | .error _ => some none
  | .ok s => p.ofDeclared c (p.declaredMethod? c s)

end PointsTo.Program
