import PointsTo.Id
import PointsTo.Subsignature.Basic

/-!
# Statements

A method body is a flat list of statements; control flow is not represented, because the analysis
does not depend on it. A statement is identified throughout the program by its `Location`, the
method and the position in the body. Allocation sites and call sites are both locations.
-/

namespace PointsTo

/-! ## §1 Locations, types and calls -/

/-- A statement of a method. -/
structure Location where
  /-- The method whose body holds the statement. -/
  method : MethodId
  /-- The position of the statement in the body. -/
  index : Nat
deriving DecidableEq

/-- The type of an allocated object. -/
inductive Ty
  /-- An instance of a class. -/
  | ofClass (id : ClassId)
  /-- An array with the given element type. -/
  | array (elem : Ty)
deriving DecidableEq

/-- The class at the bottom of a type. -/
def Ty.baseClass : Ty → ClassId
  | ofClass id => id
  | array elem => elem.baseClass

/-- A class type wrapped in a number of array levels. -/
def Ty.nest (id : ClassId) : Nat → Ty
  | 0 => ofClass id
  | levels + 1 => array (nest id levels)

/-- How the target of a call is found. -/
inductive CallKind
  /-- The declaration that the reference resolves to; there is no receiver. -/
  | static
  /-- Dispatch from the class of the reference. -/
  | special
  /-- Dispatch from the type of the receiver. -/
  | virtual
  /-- Dispatch from the type of the receiver, through an interface reference. -/
  | interface
deriving DecidableEq

/-- The printed name of a call kind. -/
def CallKind.label : CallKind → String
  | static => "static"
  | special => "special"
  | virtual => "virtual"
  | interface => "interface"

/-- Whether calls of this kind have no receiver. -/
def CallKind.isStatic : CallKind → Bool
  | static => true
  | _ => false

/-- A symbolic reference to a method, resolved against the class hierarchy on demand. -/
structure MethodRef where
  /-- The class where the search starts. -/
  start : ClassId
  /-- The method searched for. -/
  subsignature : Subsignature
deriving DecidableEq

/-- A call. -/
structure Invoke where
  /-- How the target is found. -/
  kind : CallKind
  /-- The method called. -/
  target : MethodRef
  /-- The variable holding the receiver, absent for static calls. -/
  receiver : Option VarId
  /-- The actual arguments. -/
  args : List VarId
  /-- The variable that takes the returned value. -/
  result : Option VarId
deriving DecidableEq

/-! ## §2 Statements -/

/-- A statement of a method body. -/
inductive Stmt
  /-- `lhs = new T` -/
  | new (lhs : VarId) (ty : Ty)
  /-- `lhs = rhs` -/
  | copy (lhs rhs : VarId)
  /-- `lhs = (T) rhs` -/
  | cast (lhs rhs : VarId) (ty : Ty)
  /-- `lhs = base.field`, or `lhs = T.field` without a base. -/
  | loadField (lhs : VarId) (base : Option VarId) (field : FieldId)
  /-- `base.field = rhs`, or `T.field = rhs` without a base. -/
  | storeField (base : Option VarId) (field : FieldId) (rhs : VarId)
  /-- `lhs = base[index]` -/
  | loadArray (lhs base index : VarId)
  /-- `base[index] = rhs` -/
  | storeArray (base index rhs : VarId)
  /-- A method call. -/
  | invoke (call : Invoke)
  /-- `return value` -/
  | ret (value : Option VarId)
  /-- Anything without an effect on pointers. -/
  | other
deriving DecidableEq

/-- The variables a statement reads or writes, in the order in which they are checked. -/
def Stmt.vars : Stmt → List VarId
  | new lhs _ => [lhs]
  | copy lhs rhs => [lhs, rhs]
  | cast lhs rhs _ => [lhs, rhs]
  | loadField lhs base _ => lhs :: base.toList
  | storeField base _ rhs => rhs :: base.toList
  | loadArray lhs base index => [lhs, base, index]
  | storeArray base index rhs => [base, index, rhs]
  | invoke call => call.receiver.toList ++ call.args ++ call.result.toList
  | ret value => value.toList
  | other => []

/-! ## §3 Orders and constructor forms -/

instance : Ranked Location where
  rank loc := [loc.method.index, loc.index]
  rank_injective {a b} h := by
    obtain ⟨⟨_⟩, _⟩ := a
    obtain ⟨⟨_⟩, _⟩ := b
    simpa using h

/-- The position of a call kind in listings. -/
def CallKind.toNat : CallKind → Nat
  | static => 0
  | special => 1
  | virtual => 2
  | interface => 3

instance : Ranked CallKind where
  rank kind := [kind.toNat]
  rank_injective {a b} h := by
    cases a <;> cases b <;> first | rfl | simp [CallKind.toNat] at h

instance : Inspect Location where
  inspect loc := Text.labelled "Location"
    [("method", inspect loc.method), ("index", toString loc.index)]

/-- The constructor form of a type. -/
def Ty.inspect : Ty → String
  | ofClass id => Text.applied "Class" [PointsTo.inspect id]
  | array elem => Text.applied "Array" [elem.inspect]

instance : Inspect Ty where
  inspect := Ty.inspect

instance : Inspect CallKind where
  inspect
    | .static => "Static"
    | .special => "Special"
    | .virtual => "Virtual"
    | .interface => "Interface"

instance : Inspect MethodRef where
  inspect ref := Text.labelled "MethodRef"
    [("class", inspect ref.start), ("subsignature", inspect ref.subsignature)]

instance : Inspect Invoke where
  inspect call := Text.labelled "Invoke"
    [("kind", inspect call.kind), ("method_ref", inspect call.target),
     ("receiver", inspect call.receiver), ("args", inspect call.args),
     ("result", inspect call.result)]

instance : Inspect Stmt where
  inspect
    | .new lhs ty => Text.labelled "New" [("lhs", inspect lhs), ("ty", inspect ty)]
    | .copy lhs rhs => Text.labelled "Copy" [("lhs", inspect lhs), ("rhs", inspect rhs)]
    | .cast lhs rhs ty =>
      Text.labelled "Cast" [("lhs", inspect lhs), ("rhs", inspect rhs), ("ty", inspect ty)]
    | .loadField lhs base field =>
      Text.labelled "LoadField"
        [("lhs", inspect lhs), ("base", inspect base), ("field", inspect field)]
    | .storeField base field rhs =>
      Text.labelled "StoreField"
        [("base", inspect base), ("field", inspect field), ("rhs", inspect rhs)]
    | .loadArray lhs base index =>
      Text.labelled "LoadArray"
        [("lhs", inspect lhs), ("base", inspect base), ("index", inspect index)]
    | .storeArray base index rhs =>
      Text.labelled "StoreArray"
        [("base", inspect base), ("index", inspect index), ("rhs", inspect rhs)]
    | .invoke call => Text.applied "Invoke" [inspect call]
    | .ret value => Text.labelled "Return" [("value", inspect value)]
    | .other => "Other"

end PointsTo
