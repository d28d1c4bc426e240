import PointsTo.Program.Stmt

/-!
# Abstract heap

All objects allocated by one statement are represented by one abstract object, which carries the
allocation site and the allocated type. The heap numbers abstract objects in the order in which
their sites are first met.
-/

namespace PointsTo

/-- An abstract object: every object that one statement allocates. -/
structure Obj where
  /-- The allocating statement. -/
  site : Location
  /-- The allocated type. -/
  ty : Ty
deriving DecidableEq

/-- The abstract objects met so far. -/
structure Heap where
  /-- The objects, in the order of their identifiers. -/
  objects : Array Obj := #[]

namespace Heap

/-- The number of objects. -/
def size (h : Heap) : Nat := h.objects.size

/-- Whether there are no objects. -/
def isEmpty (h : Heap) : Bool := h.objects.isEmpty

/-- The identifiers of the objects. -/
def ids (h : Heap) : List ObjId := Id.below .objects h.size

/-- The object with a given identifier. -/
def obj? (h : Heap) (id : ObjId) : Option Obj := h.objects[id.index]?

/-- The object allocated at a given site. -/
def at? (h : Heap) (site : Location) : Option ObjId :=
  (h.objects.findIdx? (·.site == site)).map Id.mk

/-- The object of an allocation site, created with the given type when the site is new. -/
def allocate (h : Heap) (site : Location) (ty : Ty) : Heap × ObjId :=
  match h.at? site with
  | some id => (h, id)
  | none => (⟨h.objects.push ⟨site, ty⟩⟩, ⟨h.size⟩)

/-- After an allocation the site has the object that the allocation answered with. -/
theorem at?_allocate (h : Heap) (site : Location) (ty : Ty) :
    (h.allocate site ty).1.at? site = some (h.allocate site ty).2 := by
  unfold allocate
  split
  · rename_i id hid
    exact hid
  · rename_i hid
    have hnone : h.objects.findIdx? (·.site == site) = none := by
      simpa [at?] using hid
    simp [at?, Array.findIdx?_push, hnone, size]

end Heap

end PointsTo
