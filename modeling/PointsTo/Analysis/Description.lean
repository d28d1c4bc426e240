import PointsTo.Heap
import PointsTo.Pointer
import PointsTo.Program.Basic

/-!
# Descriptions

How objects and pointers are called in reports: by the names that the program gives to the methods,
variables and fields involved.
-/

namespace PointsTo

/-- An object is described by the method and position of its allocation and by its type. -/
def Obj.describe (p : Program) (obj : Obj) : String :=
  "NewObj" ++ Text.openBrace ++ p.methodName obj.site.method ++ "[" ++ toString obj.site.index
    ++ "]new " ++ p.typeName obj.ty ++ Text.closeBrace

/-- A pointer is described by the name of its variable or field and, where it has one, by its
    object. There is no description if the program lacks the variable or field. -/
def Pointer.describe? (p : Program) : Pointer → Option String
  | var id => p.varName? id
  | field obj id => (p.field? id).map fun f => obj.label ++ "." ++ f.name
  | element obj => some (obj.label ++ "[*]")
  | staticField id => p.fieldName? id

/-- The description of a pointer for use in a message. -/
def Pointer.describe (p : Program) (pointer : Pointer) : String :=
  (pointer.describe? p).getD (inspect pointer)

end PointsTo
