import PointsTo.Pointer

/-!
# Worklist

The propagations still to be done. Each entry says that a set of objects is about to flow into a
pointer; an empty set is no work and is never queued. Entries are taken oldest first or newest
first, as the list's order says.
-/

namespace PointsTo

/-- Which entry is taken next. -/
inductive WorkOrder
  /-- The oldest. -/
  | fifo
  /-- The newest. -/
  | lifo
deriving DecidableEq

instance : Inhabited WorkOrder := ⟨.fifo⟩

instance : Inspect WorkOrder where
  inspect
    | .fifo => "Fifo"
    | .lifo => "Lifo"

/-- A pending propagation: the objects are about to flow into the pointer. -/
structure WorkItem where
  /-- The node that the objects flow into. -/
  pointer : PointerId
  /-- The objects. -/
  objects : ObjSet
deriving DecidableEq

/-- The pending propagations. -/
structure Worklist where
  /-- Which item is taken next. -/
  order : WorkOrder := default
  /-- The items, oldest first. -/
  items : List WorkItem := []

namespace Worklist

/-- The number of pending items. -/
def size (w : Worklist) : Nat := w.items.length

/-- Whether nothing is pending. -/
def isEmpty (w : Worklist) : Bool := w.items.isEmpty

/-- Queues a propagation, unless it carries nothing. -/
def add (w : Worklist) (pointer : PointerId) (objects : ObjSet) : Worklist :=
  if objects.isEmpty then w else { w with items := w.items ++ [⟨pointer, objects⟩] }

/-- Takes the next item, if there is one. -/
def poll (w : Worklist) : Option (WorkItem × Worklist) :=
  match w.order with
  | .fifo =>
    match w.items with
    | [] => none
    | item :: rest => some (item, { w with items := rest })
  | .lifo => w.items.getLast?.map fun item => (item, { w with items := w.items.dropLast })

/-- There is a next item unless nothing is pending. -/
theorem poll_eq_none_iff {w : Worklist} : w.poll = none ↔ w.items = [] := by
  unfold poll
  cases w.order with
  | fifo => cases w.items <;> simp
  | lifo => simp

/-- The items before a poll are the item taken and those that stay. -/
theorem items_perm_of_poll {w w' : Worklist} {item : WorkItem} (h : w.poll = some (item, w')) :
    w.items.Perm (item :: w'.items) := by
  unfold poll at h
  cases horder : w.order with
  | fifo =>
    cases hitems : w.items with
    | nil => simp [horder, hitems] at h
    | cons first rest =>
      simp only [horder, hitems, Option.some.injEq, Prod.mk.injEq] at h
      obtain ⟨rfl, rfl⟩ := h
      exact List.Perm.refl _
  | lifo =>
    simp only [horder, Option.map_eq_some_iff, Prod.mk.injEq] at h
    obtain ⟨last, hlast, rfl, rfl⟩ := h
    -- the newest item stands at the end of the list
    have hne : w.items ≠ [] := by
      intro hnil
      simp [hnil] at hlast
    rw [List.getLast?_eq_some_getLast hne, Option.some.injEq] at hlast
    have hsplit := List.dropLast_concat_getLast hne
    rw [hlast] at hsplit
    have hperm := List.perm_append_singleton last w.items.dropLast
    rwa [hsplit] at hperm

end Worklist

end PointsTo
