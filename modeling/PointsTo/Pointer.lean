import PointsTo.Ascending
import PointsTo.Id

/-!
# Pointers and points-to sets

A pointer is a place that can hold references: a local variable, a field of an abstract object, the
elements of an abstract array taken together, or a static field. The analysis computes a points-to
set, a set of abstract objects, for every pointer.
-/

namespace PointsTo

/-! ## §1 Pointers -/

/-- A place that can hold references. -/
inductive Pointer
  /-- A local variable; every variable belongs to exactly one method. -/
  | var (id : VarId)
  /-- A field of one abstract object. -/
  | field (obj : ObjId) (id : FieldId)
  /-- All elements of one abstract array. -/
  | element (obj : ObjId)
  /-- A static field. -/
  | staticField (id : FieldId)
deriving DecidableEq

namespace Pointer

/-- The variable, if the pointer is one. -/
def var? : Pointer → Option VarId
  | var id => some id
  | _ => none

instance : Inspect Pointer where
  inspect
    | var id => Text.applied "Var" [inspect id]
    | field obj id => Text.applied "InstanceField" [inspect obj, inspect id]
    | element obj => Text.applied "ArrayIndex" [inspect obj]
    | staticField id => Text.applied "StaticField" [inspect id]

/-- Listings show variables first, then fields of objects, elements and static fields. -/
instance : Ranked Pointer where
  rank
    | var id => [0, id.index]
    | field obj id => [1, obj.index, id.index]
    | element obj => [2, obj.index]
    | staticField id => [3, id.index]
  rank_injective {a b} h := by
    rcases a with ⟨⟨_⟩⟩ | ⟨⟨_⟩, ⟨_⟩⟩ | ⟨⟨_⟩⟩ | ⟨⟨_⟩⟩ <;>
      rcases b with ⟨⟨_⟩⟩ | ⟨⟨_⟩, ⟨_⟩⟩ | ⟨⟨_⟩⟩ | ⟨⟨_⟩⟩ <;> simp_all

end Pointer

/-! ## §2 Points-to sets -/

/-- A set of abstract objects. -/
abbrev ObjSet := Ascending ObjId

namespace ObjSet

/-- Adds an object, and tells whether it is new. -/
def add (s : ObjSet) (obj : ObjId) : ObjSet × Bool :=
  (s.insert obj, obj ∉ s)

/-- Adds all objects of another set, and tells whether any of them is new. -/
def addAll (s t : ObjSet) : ObjSet × Bool :=
  (s.union t, !t.isSubset s)

/-- The printed form: the members in braces, in ascending order. -/
def render (s : ObjSet) : String :=
  Text.openBrace ++ ", ".intercalate (s.toList.map Id.label) ++ Text.closeBrace

end ObjSet

end PointsTo
