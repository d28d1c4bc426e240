import Mathlib.Data.List.Nodup
import PointsTo.FlowGraph
import PointsTo.Heap

/-!
# Tables that only grow

The flow graph numbers pointers, and the heap numbers allocation sites, in the order in which they are
first met. Both look an entry up by its first position and add a missing one at the end. So a number,
once given, stays: a table that extends another one agrees with it wherever the other one answers.

Adding pointers and edges leaves the points-to sets alone; only `FlowGraph.grow` changes one.
-/

namespace PointsTo

/-! ## §1 First positions -/

section Positions

variable {α : Type} [DecidableEq α] {l l' : List α} {a : α} {i : Nat}

theorem getElem?_of_idxOf? (h : l.idxOf? a = some i) : l[i]? = some a := by
  obtain ⟨hlt, ha, _⟩ := List.idxOf?_eq_some_iff.1 h
  rw [List.getElem?_eq_getElem hlt, ha]

theorem idxOf?_of_getElem? (hnodup : l.Nodup) (h : l[i]? = some a) : l.idxOf? a = some i := by
  obtain ⟨hlt, rfl⟩ := List.getElem?_eq_some_iff.1 h
  refine List.idxOf?_eq_some_iff.2 ⟨hlt, rfl, fun j hj heq => ?_⟩
  exact Nat.ne_of_lt hj ((hnodup.getElem_inj_iff).1 heq)

theorem idxOf?_of_isPrefix (hpre : l <+: l') (h : l.idxOf? a = some i) :
    l'.idxOf? a = some i :=
  hpre.findIdx?_eq_some h

theorem getElem?_of_isPrefix {β : Type} {l l' : List β} {b : β} {i : Nat} (hpre : l <+: l')
    (h : l[i]? = some b) : l'[i]? = some b := by
  obtain ⟨rest, rfl⟩ := hpre
  rw [List.getElem?_append_left (List.getElem?_eq_some_iff.1 h).1, h]

end Positions

/-! ## §2 Pointers of a flow graph -/

namespace FlowGraph

variable {g g' : FlowGraph} {pointer x : Pointer} {id id' : PointerId} {o : ObjId}

/-- The pointers of the nodes, in the order of their identifiers. -/
def pointerList (g : FlowGraph) : List Pointer := g.nodes.toList.map FlowNode.pointer

theorem length_pointerList : g.pointerList.length = g.size := by
  simp [pointerList, size]

theorem pointer?_eq : g.pointer? id = g.pointerList[id.index]? := by
  simp [pointer?, pointerList]

theorem find?_eq : g.find? pointer = (g.pointerList.idxOf? pointer).map Id.mk := by
  have harray : g.nodes.findIdx? (·.pointer == pointer) =
      g.nodes.toList.findIdx? (·.pointer == pointer) := by
    rw [← List.findIdx?_toArray, Array.toArray_toList]
  simp [find?, pointerList, List.idxOf?, harray, Function.comp_def]

theorem pointer?_of_find? (h : g.find? pointer = some id) : g.pointer? id = some pointer := by
  rw [find?_eq] at h
  obtain ⟨i, hi, rfl⟩ := Option.map_eq_some_iff.1 h
  rw [pointer?_eq]
  exact getElem?_of_idxOf? hi

theorem find?_of_pointer? (hnodup : g.pointerList.Nodup) (h : g.pointer? id = some pointer) :
    g.find? pointer = some id := by
  rw [pointer?_eq] at h
  rw [find?_eq, idxOf?_of_getElem? hnodup h]
  rfl

theorem find?_eq_none_iff : g.find? pointer = none ↔ pointer ∉ g.pointerList := by
  simp [find?_eq]

theorem exists_find?_of_mem (h : pointer ∈ g.pointerList) : ∃ id, g.find? pointer = some id := by
  cases hfind : g.find? pointer with
  | none => exact absurd h (find?_eq_none_iff.1 hfind)
  | some id => exact ⟨id, rfl⟩

theorem mem_pointerList_of_pointer? (h : g.pointer? id = some pointer) :
    pointer ∈ g.pointerList := by
  rw [pointer?_eq] at h
  exact List.mem_of_getElem? h

theorem index_lt_of_pointer? (h : g.pointer? id = some pointer) : id.index < g.size := by
  rw [pointer?_eq] at h
  rw [← length_pointerList]
  exact (List.getElem?_eq_some_iff.1 h).1

theorem exists_pointer?_of_lt (h : id.index < g.size) : ∃ pointer, g.pointer? id = some pointer := by
  rw [← length_pointerList] at h
  exact ⟨_, pointer?_eq.trans (List.getElem?_eq_getElem h)⟩

theorem find?_of_isPrefix (hpre : g.pointerList <+: g'.pointerList)
    (h : g.find? pointer = some id) : g'.find? pointer = some id := by
  rw [find?_eq] at h ⊢
  obtain ⟨i, hi, rfl⟩ := Option.map_eq_some_iff.1 h
  rw [idxOf?_of_isPrefix hpre hi]
  rfl

theorem pointer?_of_isPrefix (hpre : g.pointerList <+: g'.pointerList)
    (h : g.pointer? id = some pointer) : g'.pointer? id = some pointer := by
  rw [pointer?_eq] at h ⊢
  exact getElem?_of_isPrefix hpre h

theorem pointerList_intern :
    (g.intern pointer).1.pointerList =
      if pointer ∈ g.pointerList then g.pointerList else g.pointerList ++ [pointer] := by
  unfold intern
  split
  · rename_i id h
    rw [if_pos (mem_pointerList_of_pointer? (pointer?_of_find? h))]
  · rename_i h
    rw [if_neg (find?_eq_none_iff.1 h)]
    simp [pointerList]

theorem isPrefix_intern : g.pointerList <+: (g.intern pointer).1.pointerList := by
  rw [pointerList_intern]
  split
  · exact List.prefix_rfl
  · exact List.prefix_append _ _

@[simp]
theorem mem_pointerList_intern :
    x ∈ (g.intern pointer).1.pointerList ↔ x = pointer ∨ x ∈ g.pointerList := by
  rw [pointerList_intern]
  split
  · rename_i h
    exact ⟨Or.inr, fun hx => hx.elim (fun heq => heq ▸ h) fun hx => hx⟩
  · rw [List.mem_append, List.mem_singleton, or_comm]

theorem nodup_intern (h : g.pointerList.Nodup) : (g.intern pointer).1.pointerList.Nodup := by
  rw [pointerList_intern]
  split
  · exact h
  · rename_i hmem
    exact h.append (List.nodup_singleton _) (by simpa using hmem)

/-! ## §3 Points-to sets and edges -/

theorem edges_intern : (g.intern pointer).1.edges = g.edges := by
  unfold intern
  split <;> rfl

theorem size_le_intern : g.size ≤ (g.intern pointer).1.size := by
  rw [← length_pointerList, ← length_pointerList]
  exact isPrefix_intern.length_le

theorem objects?_of_lt (h : id.index < g.size) : g.objects? id = some (g.objects id) := by
  have hnode : g.nodes[id.index]? = some g.nodes[id.index] := Array.getElem?_eq_getElem h
  simp [objects, objects?, hnode]

theorem objects_intern : (g.intern pointer).1.objects id = g.objects id := by
  unfold intern
  split
  · rfl
  · simp only [objects, objects?, Array.getElem?_push]
    split
    · rename_i hsize
      simp [hsize]
    · rfl

theorem mem_objects_iff : o ∈ g.objects id ↔ ∃ set, g.objects? id = some set ∧ o ∈ set := by
  unfold objects
  cases h : g.objects? id with
  | none => simp
  | some set => simp

theorem index_lt_of_mem_objects (h : o ∈ g.objects id) : id.index < g.size := by
  obtain ⟨set, hset, _⟩ := mem_objects_iff.1 h
  obtain ⟨node, hnode, _⟩ := Option.map_eq_some_iff.1 hset
  exact (Array.getElem?_eq_some_iff.1 hnode).1

theorem pointerList_grow {delta : ObjSet} : (g.grow id delta).pointerList = g.pointerList := by
  apply List.ext_getElem?
  intro i
  simp only [grow, pointerList, List.getElem?_map, Array.getElem?_toList, Array.getElem?_modify]
  split
  · cases g.nodes[i]? <;> rfl
  · rfl

/-- Growing a node adds the objects to the set of that node and changes no other set. -/
theorem mem_objects_grow {delta : ObjSet} (hid : id.index < g.size) :
    o ∈ (g.grow id delta).objects id' ↔ o ∈ g.objects id' ∨ id' = id ∧ o ∈ delta := by
  rw [mem_objects_iff, objects?_grow]
  by_cases heq : id = id'
  · subst heq
    have hset : g.objects? id = some (g.objects id) := by
      unfold objects
      rw [objects?, Array.getElem?_eq_getElem hid]
      rfl
    simp [hset]
  · have hne : id' ≠ id := fun h => heq h.symm
    simp [heq, hne, mem_objects_iff]

theorem hasFlow_iff {a b : Pointer} :
    g.hasFlow a b = true ↔
      ∃ s t, g.find? a = some s ∧ g.find? b = some t ∧ (s, t) ∈ g.edges := by
  unfold hasFlow
  split
  · rename_i s t hs ht
    simp [hs, ht, hasEdge]
  · rename_i hnone
    constructor
    · simp
    · rintro ⟨s, t, hs, ht, _⟩
      exact absurd ht (hnone s t hs)

theorem mem_pointsTo : o ∈ g.pointsTo pointer ↔ ∃ id, g.find? pointer = some id ∧ o ∈ g.objects id := by
  unfold pointsTo
  cases h : g.find? pointer with
  | none => simp
  | some id => simp

theorem mem_pointers : pointer ∈ g.pointers ↔ pointer ∈ g.pointerList := by
  simp [pointers, pointerList]

end FlowGraph

/-! ## §4 Objects of a heap -/

namespace Heap

variable {h h' : Heap} {site : Location} {ty : Ty} {o : ObjId} {obj : Obj}

/-- The allocation sites of the objects, in the order of their identifiers. -/
def siteList (h : Heap) : List Location := h.objects.toList.map Obj.site

theorem length_siteList : h.siteList.length = h.size := by
  simp [siteList, size]

theorem at?_eq : h.at? site = (h.siteList.idxOf? site).map Id.mk := by
  have harray : h.objects.findIdx? (·.site == site) = h.objects.toList.findIdx? (·.site == site) := by
    rw [← List.findIdx?_toArray, Array.toArray_toList]
  simp [at?, siteList, List.idxOf?, harray, Function.comp_def]

theorem obj?_eq : h.obj? o = h.objects.toList[o.index]? := by
  simp [obj?]

theorem at?_eq_none_iff : h.at? site = none ↔ site ∉ h.siteList := by
  simp [at?_eq]

theorem exists_obj?_of_at? (hat : h.at? site = some o) : ∃ obj, h.obj? o = some obj ∧ obj.site = site := by
  rw [at?_eq] at hat
  obtain ⟨i, hi, rfl⟩ := Option.map_eq_some_iff.1 hat
  have hsite := getElem?_of_idxOf? hi
  rw [siteList, List.getElem?_map] at hsite
  obtain ⟨obj, hobj, hobj'⟩ := Option.map_eq_some_iff.1 hsite
  exact ⟨obj, obj?_eq.trans hobj, hobj'⟩

theorem at?_of_obj? (hnodup : h.siteList.Nodup) (hobj : h.obj? o = some obj) :
    h.at? obj.site = some o := by
  have hsite : h.siteList[o.index]? = some obj.site := by
    rw [siteList, List.getElem?_map, ← obj?_eq, hobj]
    rfl
  rw [at?_eq, idxOf?_of_getElem? hnodup hsite]
  rfl

theorem obj?_of_isPrefix (hpre : h.objects.toList <+: h'.objects.toList)
    (hobj : h.obj? o = some obj) : h'.obj? o = some obj := by
  rw [obj?_eq] at hobj ⊢
  exact getElem?_of_isPrefix hpre hobj

theorem at?_of_isPrefix (hpre : h.objects.toList <+: h'.objects.toList)
    (hat : h.at? site = some o) : h'.at? site = some o := by
  rw [at?_eq] at hat ⊢
  obtain ⟨i, hi, rfl⟩ := Option.map_eq_some_iff.1 hat
  rw [siteList, idxOf?_of_isPrefix (hpre.map _) hi]
  rfl

theorem allocate_fresh (hfresh : h.at? site = none) :
    h.allocate site ty = (⟨h.objects.push ⟨site, ty⟩⟩, ⟨h.size⟩) := by
  simp [allocate, hfresh]

theorem siteList_allocate (hfresh : h.at? site = none) :
    (h.allocate site ty).1.siteList = h.siteList ++ [site] := by
  simp [allocate_fresh hfresh, siteList]

theorem nodup_allocate (hnodup : h.siteList.Nodup) (hfresh : h.at? site = none) :
    (h.allocate site ty).1.siteList.Nodup := by
  rw [siteList_allocate hfresh]
  exact hnodup.append (List.nodup_singleton _) (by simpa using at?_eq_none_iff.1 hfresh)

/-- After an allocation at a new site there is one more object. -/
theorem obj?_allocate (hfresh : h.at? site = none) :
    (h.allocate site ty).1.obj? o = some obj ↔
      h.obj? o = some obj ∨ o = (h.allocate site ty).2 ∧ obj = ⟨site, ty⟩ := by
  rw [allocate_fresh hfresh]
  obtain ⟨i⟩ := o
  simp only [obj?, Array.getElem?_push, size, Id.mk.injEq]
  split
  · rename_i hsize
    subst hsize
    simp [eq_comm]
  · rename_i hsize
    simp [hsize]

theorem isPrefix_allocate : h.objects.toList <+: (h.allocate site ty).1.objects.toList := by
  unfold allocate
  split
  · exact List.prefix_rfl
  · simp

end Heap

end PointsTo
