import PointsTo.Pointer

/-!
# Pointer flow graph

The nodes are pointers, each with its points-to set; an edge from `s` to `t` says that whatever `s`
points to, `t` points to as well. A pointer becomes a node when it is first mentioned and is
addressed by its position from then on. Nodes and edges are only ever added.
-/

namespace PointsTo

/-- A pointer together with its points-to set. -/
structure FlowNode where
  /-- The pointer. -/
  pointer : Pointer
  /-- The objects it may point to. -/
  objects : ObjSet := ∅
deriving DecidableEq

/-- Pointers, their points-to sets and the flow between them. -/
structure FlowGraph where
  /-- The nodes, in the order of their identifiers. -/
  nodes : Array FlowNode := #[]
  /-- The flow edges, as pairs of source and target. -/
  edges : Ascending (PointerId × PointerId) := ∅

namespace FlowGraph

/-! ## §1 Nodes -/

/-- The number of nodes. -/
def size (g : FlowGraph) : Nat := g.nodes.size

/-- The identifiers of the nodes. -/
def ids (g : FlowGraph) : List PointerId := Id.below .pointers g.size

/-- The node of a pointer. -/
def find? (g : FlowGraph) (pointer : Pointer) : Option PointerId :=
  (g.nodes.findIdx? (·.pointer == pointer)).map Id.mk

/-- The node of a pointer, added with an empty points-to set when the pointer is new. -/
def intern (g : FlowGraph) (pointer : Pointer) : FlowGraph × PointerId :=
  match g.find? pointer with
  | some id => (g, id)
  | none => ({ g with nodes := g.nodes.push ⟨pointer, ∅⟩ }, ⟨g.size⟩)

/-- The pointer of a node. -/
def pointer? (g : FlowGraph) (id : PointerId) : Option Pointer :=
  (g.nodes[id.index]?).map FlowNode.pointer

/-- The points-to set of a node. -/
def objects? (g : FlowGraph) (id : PointerId) : Option ObjSet :=
  (g.nodes[id.index]?).map FlowNode.objects

/-- The points-to set of a node; empty for an identifier without a node. -/
def objects (g : FlowGraph) (id : PointerId) : ObjSet :=
  (g.objects? id).getD ∅

/-- Adds objects to the points-to set of a node. -/
def grow (g : FlowGraph) (id : PointerId) (delta : ObjSet) : FlowGraph :=
  { g with
    nodes := g.nodes.modify id.index fun node => { node with objects := node.objects.union delta } }

/-- The points-to set of a pointer; empty for a pointer that is not a node. -/
def pointsTo (g : FlowGraph) (pointer : Pointer) : ObjSet :=
  match g.find? pointer with
  | some id => g.objects id
  | none => ∅

/-- The pointers of all nodes, in listing order. -/
def pointers (g : FlowGraph) : Ascending Pointer :=
  Ascending.ofList (g.nodes.toList.map FlowNode.pointer)

/-! ## §2 Edges -/

/-- Whether there is an edge between two nodes. -/
def hasEdge (g : FlowGraph) (source target : PointerId) : Bool :=
  (source, target) ∈ g.edges

/-- Adds an edge, and tells whether it is new. -/
def addEdge (g : FlowGraph) (source target : PointerId) : FlowGraph × Bool :=
  ({ g with edges := g.edges.insert (source, target) }, !g.hasEdge source target)

/-- The number of edges. -/
def edgeCount (g : FlowGraph) : Nat := g.edges.size

/-- The targets of the edges that leave a node, in ascending order. -/
def successors (g : FlowGraph) (id : PointerId) : List PointerId :=
  g.edges.toList.filterMap fun (source, target) => if source = id then some target else none

/-- Whether there is an edge between the nodes of two pointers. -/
def hasFlow (g : FlowGraph) (source target : Pointer) : Bool :=
  match g.find? source, g.find? target with
  | some s, some t => g.hasEdge s t
  | _, _ => false

/-- Whether the points-to sets are closed under every edge. -/
def isClosed (g : FlowGraph) : Bool :=
  g.edges.toList.all fun (source, target) => (g.objects source).isSubset (g.objects target)

/-! ## §3 What growth changes -/

theorem hasEdge_iff {g : FlowGraph} {s t : PointerId} :
    g.hasEdge s t = true ↔ (s, t) ∈ g.edges := by
  simp [hasEdge]

/-- Adding an edge adds that edge and no other. -/
theorem hasEdge_addEdge {g : FlowGraph} {s t s' t' : PointerId} :
    (g.addEdge s t).1.hasEdge s' t' = true ↔ (s' = s ∧ t' = t) ∨ g.hasEdge s' t' = true := by
  simp [addEdge, hasEdge_iff]

theorem mem_successors {g : FlowGraph} {id target : PointerId} :
    target ∈ g.successors id ↔ g.hasEdge id target = true := by
  rw [hasEdge_iff, Ascending.mem_iff]
  simp only [successors, List.mem_filterMap, Prod.exists]
  constructor
  · rintro ⟨s, t, hmem, h⟩
    split at h
    · rename_i hs
      simp only [Option.some.injEq] at h
      exact hs ▸ h ▸ hmem
    · simp at h
  · exact fun hmem => ⟨id, target, hmem, by simp⟩

/-- Interning makes a pointer findable under the identifier it answers with. -/
theorem find?_intern (g : FlowGraph) (pointer : Pointer) :
    (g.intern pointer).1.find? pointer = some (g.intern pointer).2 := by
  unfold intern
  split
  · rename_i id h
    exact h
  · rename_i h
    -- nothing was found before, so the first hit is the node just added
    have hnone : g.nodes.findIdx? (·.pointer == pointer) = none := by
      simpa [find?] using h
    simp [find?, Array.findIdx?_push, hnone, size]

/-- Growing a node adds the objects to that node, if there is one, and to no other. -/
theorem objects?_grow {g : FlowGraph} {id id' : PointerId} {delta : ObjSet} :
    (g.grow id delta).objects? id' =
      if id = id' then (g.objects? id').map (·.union delta) else g.objects? id' := by
  obtain ⟨i⟩ := id
  obtain ⟨j⟩ := id'
  simp only [grow, objects?, Array.getElem?_modify, Id.mk.injEq]
  split
  · simp [Function.comp_def]
  · rfl

end FlowGraph

end PointsTo
