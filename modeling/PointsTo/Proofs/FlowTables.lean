import PointsTo.Proofs.Arenas
import PointsTo.Proofs.CallTables
import PointsTo.Proofs.Ledger

/-!
# Flow graphs and heaps as tables

A flow graph and a heap number what they are asked for. Both can be kept in tables that are quick to search: an
arena for the pointers or the objects, and for a flow graph also the points-to sets, in a table that runs
parallel to the pointers, and the edges, as a set of targets for every source, with a counter. The tables are
updated one by one. Edges are recorded between any two identifiers, also between those that no pointer has.

What the tables show does not depend on how they are hashed. After every sequence of calls they agree with each
other and with the calls, and they answer every question as the flow graph and the heap do.

- `Digraph`: adjacency sets with a counter.
- `FlowTables`: the tables of a flow graph, with the calls and the questions that they answer.
- `FlowTables.sound_after`, `FlowTables.holds_after`: what every sequence of calls keeps.
- `FlowTables.Coherent`, `HeapTables.Coherent`: how the tables agree.
- `interning_exact`: they do, after every sequence of calls.
-/

namespace PointsTo

/-! ## §1 Adjacency sets -/

/-- A directed graph that only grows: the targets of every source that has any, and the number of edges,
    which is counted while they are added. -/
structure Digraph (ν : Type) [BEq ν] [Hashable ν] where
  targets : Std.HashMap ν (Std.HashSet ν) := ∅
  count : Nat := 0

namespace Digraph

variable {ν : Type} [DecidableEq ν] [Hashable ν]

/-- Adds an edge, and tells whether it is new. -/
def addEdge (g : Digraph ν) (source target : ν) : Digraph ν × Bool :=
  let old := g.targets.getD source ∅
  let isNew := !old.contains target
  ({ targets := g.targets.insert source (old.insert target)
     count := if isNew then g.count + 1 else g.count }, isNew)

/-- Whether there is an edge. -/
def hasEdge (g : Digraph ν) (source target : ν) : Bool :=
  (g.targets[source]?).any (·.contains target)

/-- The targets of the edges that leave a node, in no particular order. -/
def targetsOf (g : Digraph ν) (source : ν) : List ν :=
  (g.targets[source]?).elim [] Std.HashSet.toList

/-- The edges, in no particular order. -/
def edges (g : Digraph ν) : List (ν × ν) :=
  g.targets.toList.flatMap fun (source, targets) => targets.toList.map (source, ·)

variable {g : Digraph ν} {s t s' t' : ν}

theorem hasEdge_iff : g.hasEdge s t = true ↔ ∃ targets, g.targets[s]? = some targets ∧ t ∈ targets := by
  simp [hasEdge, Option.any_eq_true, Std.HashSet.contains_iff_mem]

theorem hasEdge_eq_contains : g.hasEdge s t = (g.targets.getD s ∅).contains t := by
  rw [Std.HashMap.getD_eq_getD_getElem?, hasEdge]
  cases g.targets[s]? <;> simp

/-- An edge is new if it was not there. -/
theorem addEdge_snd : (g.addEdge s t).2 = !g.hasEdge s t := by
  rw [hasEdge_eq_contains]
  rfl

/-- Adding an edge adds that edge and no other. -/
theorem hasEdge_addEdge :
    (g.addEdge s t).1.hasEdge s' t' = true ↔ (s' = s ∧ t' = t) ∨ g.hasEdge s' t' = true := by
  simp only [hasEdge_eq_contains, addEdge, Std.HashMap.getD_insert, beq_iff_eq]
  by_cases hs : s = s'
  · subst hs
    simp [@eq_comm _ t]
  · simp [hs, Ne.symm hs]

theorem nodup_toList (targets : Std.HashSet ν) : targets.toList.Nodup := by
  simpa [List.Nodup] using targets.distinct_toList

theorem mem_targetsOf : t ∈ g.targetsOf s ↔ g.hasEdge s t = true := by
  rw [hasEdge_iff, targetsOf]
  cases g.targets[s]? <;> simp

theorem nodup_targetsOf : (g.targetsOf s).Nodup := by
  rw [targetsOf]
  cases g.targets[s]? with
  | none => exact List.nodup_nil
  | some targets => exact nodup_toList targets

theorem mem_edges : (s, t) ∈ g.edges ↔ g.hasEdge s t = true := by
  rw [hasEdge_iff]
  simp [edges, Std.HashMap.mem_toList_iff_getElem?_eq_some]

/-- No edge is listed twice: sources are listed once, and so are the targets of each. -/
theorem nodup_edges : g.edges.Nodup := by
  apply List.nodup_flatMap.2
  constructor
  · rintro ⟨source, targets⟩ _
    exact (nodup_toList targets).map (Prod.mk_right_injective source)
  · refine g.targets.distinct_keys_toList.imp ?_
    rintro ⟨source, targets⟩ ⟨source', targets'⟩ hne e he he'
    -- both lists are told apart by their source
    obtain ⟨_, _, rfl⟩ := List.mem_map.1 he
    obtain ⟨_, _, heq⟩ := List.mem_map.1 he'
    exact (beq_eq_false_iff_ne.1 hne) (congrArg Prod.fst heq).symm

/-- Adding an edge lists it, unless it is listed already. -/
theorem edges_addEdge_perm :
    (g.addEdge s t).1.edges.Perm (if g.hasEdge s t then g.edges else (s, t) :: g.edges) := by
  have hmem : ∀ e, e ∈ (g.addEdge s t).1.edges ↔ e = (s, t) ∨ e ∈ g.edges := by
    rintro ⟨s', t'⟩
    rw [mem_edges, mem_edges, hasEdge_addEdge, Prod.mk.injEq]
  by_cases hknown : g.hasEdge s t = true
  · rw [if_pos hknown]
    refine (List.perm_ext_iff_of_nodup nodup_edges nodup_edges).2 fun e => ?_
    rw [hmem]
    exact or_iff_right_of_imp fun heq => heq ▸ mem_edges.2 hknown
  · rw [if_neg hknown]
    have hnodup : ((s, t) :: g.edges).Nodup := List.nodup_cons.2 ⟨mt mem_edges.1 hknown, nodup_edges⟩
    refine (List.perm_ext_iff_of_nodup nodup_edges hnodup).2 fun e => ?_
    rw [hmem, List.mem_cons]

/-- The number of edges is counted correctly. -/
theorem count_addEdge (h : g.count = g.edges.length) :
    (g.addEdge s t).1.count = (g.addEdge s t).1.edges.length := by
  have hcount : (g.addEdge s t).1.count = if g.hasEdge s t then g.count else g.count + 1 := by
    rw [hasEdge_eq_contains]
    cases hknown : (g.targets.getD s ∅).contains t <;> simp [addEdge, hknown]
  rw [hcount, edges_addEdge_perm.length_eq]
  split
  · exact h
  · rw [h, List.length_cons]

end Digraph

/-! ## §2 Tables -/

/-- What is asked of a flow graph: a pointer of any kind, or that an edge be there. -/
inductive FlowGraph.Call
  | intern (pointer : Pointer)
  | addEdge (source target : PointerId)

namespace FlowGraph

/-- The pointer that is asked for. -/
def Call.pointer? : Call → Option Pointer
  | .intern pointer => some pointer
  | .addEdge _ _ => none

/-- The graph that a call leaves behind. -/
def perform (g : FlowGraph) : Call → FlowGraph
  | .intern pointer => (g.intern pointer).1
  | .addEdge source target => (g.addEdge source target).1

/-- The graph that a sequence of calls leaves behind. -/
def after (calls : List Call) : FlowGraph := calls.foldl perform {}

/-- Edges are listed by source and target, and so are the targets of one source. -/
theorem sorted_successors (g : FlowGraph) (id : PointerId) :
    (g.successors id).Pairwise Ranked.Before := by
  refine g.edges.sorted.filterMap _ ?_
  rintro ⟨s, a⟩ ⟨s', b⟩ hbefore a' ha b' hb
  simp only [Option.ite_none_right_eq_some, Option.some.injEq] at ha hb
  obtain ⟨rfl, rfl⟩ := ha
  obtain ⟨rfl, rfl⟩ := hb
  have hrank : [s'.index, a.index] < [s'.index, b.index] := hbefore
  have htarget : [a.index] < [b.index] := by simpa using hrank
  exact htarget

end FlowGraph

/-- The tables of a flow graph: pointers and their identifiers, the points-to sets by identifier, and the
    edges between identifiers. -/
structure FlowTables [Hashable Pointer] [Hashable PointerId] where
  arena : Arena .pointers (fun pointer : Pointer => pointer) := {}
  sets : Array ObjSet := #[]
  graph : Digraph PointerId := {}

namespace FlowTables

variable [Hashable Pointer] [Hashable PointerId]

/-- The identifier of a pointer. A new pointer gets one, and an empty points-to set. -/
def intern (t : FlowTables) (pointer : Pointer) : FlowTables × PointerId :=
  match t.arena.find? pointer with
  | some id => (t, id)
  | none =>
    let (arena, id) := t.arena.intern pointer
    ({ t with arena, sets := t.sets.push ∅ }, id)

/-- Adds an edge, and tells whether it is new. The identifiers are not examined. -/
def addEdge (t : FlowTables) (source target : PointerId) : FlowTables × Bool :=
  let (graph, isNew) := t.graph.addEdge source target
  ({ t with graph }, isNew)

/-- What a call leaves behind. -/
def perform (t : FlowTables) : FlowGraph.Call → FlowTables
  | .intern pointer => (t.intern pointer).1
  | .addEdge source target => (t.addEdge source target).1

/-- What a sequence of calls leaves behind. -/
def after (calls : List FlowGraph.Call) : FlowTables := calls.foldl perform {}

/-- The number of pointers. -/
def size (t : FlowTables) : Nat := t.arena.size

/-- The identifier of a pointer. -/
def find? (t : FlowTables) (pointer : Pointer) : Option PointerId := t.arena.find? pointer

/-- The pointer with an identifier. -/
def pointer? (t : FlowTables) (id : PointerId) : Option Pointer := t.arena.get? id

/-- The points-to set with an identifier. -/
def objects? (t : FlowTables) (id : PointerId) : Option ObjSet := t.sets[id.index]?

/-- Whether there is an edge. -/
def hasEdge (t : FlowTables) (source target : PointerId) : Bool := t.graph.hasEdge source target

/-- The edges, in no particular order. -/
def edges (t : FlowTables) : List (PointerId × PointerId) := t.graph.edges

/-- The number of edges. -/
def edgeCount (t : FlowTables) : Nat := t.graph.count

/-- The targets of the edges that leave a node, sorted. -/
def successors (t : FlowTables) (id : PointerId) : List PointerId :=
  (t.graph.targetsOf id).mergeSort fun a b => a.index ≤ b.index

/-! ## §3 What a call changes -/

open FlowGraph (Call)

variable {t : FlowTables} {pointer : Pointer} {id : PointerId} {calls : List Call}

theorem after_concat (calls : List Call) (call : Call) :
    after (calls ++ [call]) = (after calls).perform call := by
  simp [after]

theorem intern_of_known (h : t.find? pointer = some id) : t.intern pointer = (t, id) := by
  have hfind : t.arena.find? pointer = some id := h
  simp [intern, hfind]

theorem intern_of_new (h : t.find? pointer = none) :
    t.intern pointer =
      ({ t with arena := (t.arena.intern pointer).1, sets := t.sets.push ∅ }, (t.arena.intern pointer).2) := by
  have hfind : t.arena.find? pointer = none := h
  simp [intern, hfind]

/-- The arena is asked for the pointer, whether it is known or not. -/
theorem arena_intern (t : FlowTables) (pointer : Pointer) :
    (t.intern pointer).1.arena = (t.arena.intern pointer).1 ∧
      (t.intern pointer).2 = (t.arena.intern pointer).2 ∧ (t.intern pointer).1.graph = t.graph := by
  cases h : t.find? pointer with
  | some id =>
    rw [intern_of_known h, Arena.intern_of_known h]
    exact ⟨rfl, rfl, rfl⟩
  | none =>
    rw [intern_of_new h]
    exact ⟨rfl, rfl, rfl⟩

/-! ## §4 What holds after every sequence of calls -/

/-- The tables agree with each other and with the calls. -/
structure Sound (t : FlowTables) (calls : List Call) : Prop where
  arena : t.arena.Registers (calls.filterMap Call.pointer?)
  sets : t.sets.size = t.size
  edges : ∀ {source target}, t.hasEdge source target = true ↔ .addEdge source target ∈ calls
  count : t.edgeCount = t.edges.length

theorem sound_empty : ({} : FlowTables).Sound [] where
  arena := Arena.registers_empty
  sets := rfl
  edges := by simp [hasEdge, Digraph.hasEdge]
  count := by simp [edgeCount, edges, Digraph.edges]

theorem Sound.intern (h : t.Sound calls) (pointer : Pointer) :
    (t.intern pointer).1.Sound (calls ++ [.intern pointer]) := by
  obtain ⟨harena, _, hgraph⟩ := arena_intern t pointer
  refine ⟨?_, ?_, ?_, ?_⟩
  · rw [harena, List.filterMap_append]
    exact h.arena.intern pointer
  · -- a points-to set is added precisely if a pointer is
    cases hfind : t.find? pointer with
    | some id =>
      rw [intern_of_known hfind]
      exact h.sets
    | none =>
      rw [intern_of_new hfind, size, Arena.intern_of_new hfind]
      simpa [FlowTables.size, Arena.size] using h.sets
  · intro source target
    have hedge : (t.intern pointer).1.hasEdge source target = t.hasEdge source target := by
      rw [hasEdge, hgraph, hasEdge]
    rw [hedge, h.edges]
    simp
  · rw [edgeCount, FlowTables.edges, hgraph]
    exact h.count

theorem Sound.addEdge (h : t.Sound calls) (source target : PointerId) :
    (t.addEdge source target).1.Sound (calls ++ [Call.addEdge source target]) where
  arena := by
    have hpointers : (calls ++ [Call.addEdge source target]).filterMap Call.pointer? =
        calls.filterMap Call.pointer? := by
      simp [Call.pointer?]
    rw [hpointers]
    exact h.arena
  sets := h.sets
  edges {s' t'} := by
    refine Digraph.hasEdge_addEdge.trans ?_
    rw [List.mem_append, List.mem_singleton, Call.addEdge.injEq, or_comm]
    exact or_congr_left h.edges
  count := Digraph.count_addEdge h.count

/-- **The tables are sound** after every sequence of calls. -/
theorem sound_after (calls : List Call) : (after calls).Sound calls := by
  induction calls using List.reverseRecOn with
  | nil => exact sound_empty
  | append_singleton calls call ih =>
    rw [after_concat]
    cases call with
    | intern pointer => exact ih.intern pointer
    | addEdge source target => exact ih.addEdge source target

theorem Sound.find?_iff (h : t.Sound calls) :
    t.find? pointer = some id ↔ t.pointer? id = some pointer := by
  refine h.arena.find?_iff.trans ?_
  constructor
  · rintro ⟨a, ha, rfl⟩
    exact ha
  · exact fun hpointer => ⟨pointer, hpointer, rfl⟩

/-- A pointer keeps its identifier, whatever is asked for next. -/
theorem pointer?_perform (h : t.pointer? id = some pointer) (call : Call) :
    (t.perform call).pointer? id = some pointer := by
  cases call with
  | intern other =>
    rw [perform, pointer?, (arena_intern t other).1]
    exact Arena.get?_intern h
  | addEdge source target => exact h

theorem pointer?_foldl (h : t.pointer? id = some pointer) (later : List Call) :
    (later.foldl perform t).pointer? id = some pointer := by
  induction later generalizing t with
  | nil => exact h
  | cons call rest ih => exact ih (pointer?_perform h call)

/-! ## §5 The same answers as the flow graph -/

/-- The tables hold what the flow graph holds. -/
structure Holds (t : FlowTables) (g : FlowGraph) : Prop where
  pointers : t.arena.entries = g.nodes.map FlowNode.pointer
  sets : t.sets = g.nodes.map FlowNode.objects
  edges : ∀ {source target}, t.hasEdge source target = true ↔ g.hasEdge source target = true

variable {g : FlowGraph}

theorem holds_empty : ({} : FlowTables).Holds {} where
  pointers := by simp
  sets := by simp
  edges := by simp [hasEdge, Digraph.hasEdge, FlowGraph.hasEdge]

theorem Holds.pointer? (h : t.Holds g) : t.pointer? id = g.pointer? id := by
  simp [FlowTables.pointer?, Arena.get?, h.pointers, FlowGraph.pointer?]

theorem Holds.objects? (h : t.Holds g) : t.objects? id = g.objects? id := by
  simp [FlowTables.objects?, h.sets, FlowGraph.objects?]

theorem Holds.find? (h : t.Holds g) (hsound : t.Sound calls) (pointer : Pointer) :
    t.find? pointer = g.find? pointer := by
  -- both find the one identifier that the pointer has
  have hnodup : g.pointerList.Nodup := by
    have hkeys := hsound.arena.nodup_keys
    rwa [h.pointers, List.map_id', Array.toList_map] at hkeys
  apply Option.ext
  intro id
  rw [hsound.find?_iff, h.pointer?]
  exact ⟨FlowGraph.find?_of_pointer? hnodup, FlowGraph.pointer?_of_find?⟩

theorem Holds.perform (h : t.Holds g) (hsound : t.Sound calls) (call : Call) :
    (t.perform call).Holds (g.perform call) := by
  cases call with
  | addEdge source target =>
    refine ⟨h.pointers, h.sets, ?_⟩
    intro s' t'
    refine Digraph.hasEdge_addEdge.trans ?_
    rw [FlowGraph.perform, FlowGraph.hasEdge_addEdge]
    exact or_congr_right h.edges
  | intern pointer =>
    have hfind := h.find? hsound pointer
    rw [FlowTables.perform, FlowGraph.perform, FlowGraph.intern]
    cases hknown : g.find? pointer with
    | some id =>
      rw [intern_of_known (hfind.trans hknown)]
      exact h
    | none =>
      have hnew := hfind.trans hknown
      rw [intern_of_new hnew, Arena.intern_of_new hnew]
      exact ⟨by simp [h.pointers], by simp [h.sets], h.edges⟩

theorem holds_after (calls : List Call) : (after calls).Holds (FlowGraph.after calls) := by
  induction calls using List.reverseRecOn with
  | nil => exact holds_empty
  | append_singleton calls call ih =>
    have hgraph : FlowGraph.after (calls ++ [call]) = (FlowGraph.after calls).perform call := by
      simp [FlowGraph.after]
    rw [after_concat, hgraph]
    exact ih.perform (sound_after calls) call

/-- The tables answer every question as the flow graph does. Only the edges may be listed in another order. -/
structure AnswersLike (t : FlowTables) (g : FlowGraph) : Prop where
  find? : ∀ pointer, t.find? pointer = g.find? pointer
  pointer? : ∀ id, t.pointer? id = g.pointer? id
  objects? : ∀ id, t.objects? id = g.objects? id
  size : t.size = g.size
  hasEdge : ∀ source target, t.hasEdge source target = g.hasEdge source target
  edges : t.edges.Perm g.edges.toList
  edgeCount : t.edgeCount = g.edgeCount
  successors : ∀ id, t.successors id = g.successors id
  intern : ∀ pointer, (t.intern pointer).2 = (g.intern pointer).2
  addEdge : ∀ source target, (t.addEdge source target).2 = (g.addEdge source target).2

theorem mem_successors {target : PointerId} : target ∈ t.successors id ↔ t.hasEdge id target = true := by
  rw [successors, List.mem_mergeSort]
  exact Digraph.mem_targetsOf

/-- Successors are sorted, and none is listed twice. -/
theorem pairwise_successors (t : FlowTables) (id : PointerId) :
    (t.successors id).Pairwise fun a b => a.index < b.index := by
  have hsorted : (t.successors id).Pairwise fun a b => a.index ≤ b.index := CallTables.pairwise_sorted _
  have hnodup : (t.successors id).Nodup := (List.mergeSort_perm _ _).nodup_iff.2 Digraph.nodup_targetsOf
  refine (hsorted.and hnodup).imp ?_
  rintro a b ⟨hle, hne⟩
  exact Nat.lt_of_le_of_ne hle fun heq => hne (congrArg Id.mk heq)

theorem Holds.edges_perm (h : t.Holds g) : t.edges.Perm g.edges.toList := by
  refine (List.perm_ext_iff_of_nodup Digraph.nodup_edges (Ascending.nodup_toList g.edges)).2 ?_
  rintro ⟨source, target⟩
  rw [Digraph.mem_edges, ← Ascending.mem_iff, ← FlowGraph.hasEdge_iff]
  exact h.edges

theorem Holds.answersLike (h : t.Holds g) (hsound : t.Sound calls) : t.AnswersLike g where
  find? := h.find? hsound
  pointer? _ := h.pointer?
  objects? _ := h.objects?
  size := by simp [FlowTables.size, Arena.size, h.pointers, FlowGraph.size]
  hasEdge _ _ := Bool.eq_iff_iff.2 h.edges
  edges := h.edges_perm
  edgeCount := hsound.count.trans h.edges_perm.length_eq
  successors id := by
    -- both lists ascend, and they have the same members
    refine (CallTables.toList_eq_of_mem_iff (s := ⟨_, FlowGraph.sorted_successors g id⟩)
      (pairwise_successors t id) fun target => ?_).symm
    rw [mem_successors, h.edges]
    exact FlowGraph.mem_successors
  intern pointer := by
    have hfind := h.find? hsound pointer
    rw [FlowGraph.intern]
    cases hknown : g.find? pointer with
    | some id => rw [intern_of_known (hfind.trans hknown)]
    | none =>
      have hnew := hfind.trans hknown
      rw [intern_of_new hnew, Arena.intern_of_new hnew, Arena.size, h.pointers, Array.size_map]
      rfl
  addEdge source target := by
    have hedge : t.hasEdge source target = g.hasEdge source target := Bool.eq_iff_iff.2 h.edges
    rw [FlowGraph.addEdge, ← hedge]
    exact Digraph.addEdge_snd

/-! ## §6 Coherence -/

/-- How the tables agree with each other, and with the calls that they come from. -/
structure Coherent (t : FlowTables) (calls : List Call) : Prop where
  /-- A pointer is found at an identifier precisely if the identifier has that pointer. -/
  find?_iff : ∀ {pointer id}, t.find? pointer = some id ↔ t.pointer? id = some pointer
  /-- Different identifiers have different pointers. -/
  distinct : ∀ {id id' pointer}, t.pointer? id = some pointer → t.pointer? id' = some pointer → id = id'
  /-- The pointers are those that were asked for. -/
  asked : ∀ {pointer}, (∃ id, t.pointer? id = some pointer) ↔ .intern pointer ∈ calls
  /-- Below the number of pointers, and only there, identifiers have a pointer and a points-to set. -/
  pointer?_isSome : ∀ {id}, (t.pointer? id).isSome = true ↔ id.index < t.size
  objects?_isSome : ∀ {id}, (t.objects? id).isSome = true ↔ id.index < t.size
  /-- A pointer that has an identifier is not entered again. -/
  intern_known : ∀ {pointer id}, t.pointer? id = some pointer → t.intern pointer = (t, id)
  /-- An edge is there precisely if it was added. -/
  hasEdge_iff : ∀ {source target}, t.hasEdge source target = true ↔ .addEdge source target ∈ calls
  /-- An edge is new precisely if it was not added before. -/
  addEdge_iff : ∀ {source target},
    (t.addEdge source target).2 = true ↔ .addEdge source target ∉ calls
  /-- The edges that were added are listed, each once, and counted. -/
  mem_edges : ∀ {source target}, (source, target) ∈ t.edges ↔ .addEdge source target ∈ calls
  nodup_edges : t.edges.Nodup
  edgeCount_eq : t.edgeCount = t.edges.length
  /-- The successors of a node ascend strictly, and are the targets of its edges. -/
  ascending : ∀ id, (t.successors id).Pairwise fun a b => a.index < b.index
  mem_successors : ∀ {id target}, target ∈ t.successors id ↔ t.hasEdge id target = true

theorem Sound.coherent (h : t.Sound calls) : t.Coherent calls where
  find?_iff := h.find?_iff
  distinct hid hid' := h.arena.id_unique hid hid' rfl
  asked {pointer} := by
    simp only [← h.find?_iff]
    refine h.arena.known_iff.trans ?_
    simp only [exists_eq_right, List.mem_filterMap]
    constructor
    · rintro ⟨call, hcall, hpointer⟩
      cases call with
      | intern _ =>
        cases hpointer
        exact hcall
      | addEdge _ _ => cases hpointer
    · exact fun hcall => ⟨_, hcall, rfl⟩
  pointer?_isSome := Arena.get?_isSome_iff
  objects?_isSome {id} := by
    rw [← h.sets]
    simp [objects?]
  intern_known hid := intern_of_known (h.find?_iff.2 hid)
  hasEdge_iff := h.edges
  addEdge_iff {source target} := by
    have hnew : (t.addEdge source target).2 = !t.hasEdge source target := Digraph.addEdge_snd
    rw [hnew, ← h.edges, Bool.not_eq_true', Bool.not_eq_true]
  mem_edges := Digraph.mem_edges.trans h.edges
  nodup_edges := Digraph.nodup_edges
  edgeCount_eq := h.count
  ascending := pairwise_successors t
  mem_successors := FlowTables.mem_successors

/-- An identifier that was given out keeps its pointer, and is given out again. -/
theorem intern_again (calls later : List Call) (pointer : Pointer) :
    (after (calls ++ .intern pointer :: later)).pointer? ((after calls).intern pointer).2 = some pointer ∧
      (after (calls ++ .intern pointer :: later)).intern pointer =
        (after (calls ++ .intern pointer :: later), ((after calls).intern pointer).2) := by
  have hgiven : ((after calls).intern pointer).1.pointer? ((after calls).intern pointer).2 = some pointer := by
    obtain ⟨harena, hanswer, _⟩ := arena_intern (after calls) pointer
    obtain ⟨a, ha, rfl⟩ := (sound_after calls).arena.get?_answer pointer
    rw [pointer?, harena, hanswer]
    exact ha
  have hlater : (after (calls ++ .intern pointer :: later)).pointer? ((after calls).intern pointer).2 =
      some pointer := by
    rw [after, List.foldl_append, List.foldl_cons]
    exact pointer?_foldl hgiven later
  exact ⟨hlater, (sound_after _).coherent.intern_known hlater⟩

end FlowTables

/-! ## §7 Heaps -/

/-- The tables of a heap: objects and the identifiers of their allocation sites. -/
abbrev HeapTables [Hashable Location] := Arena .objects Obj.site

/-- The heap that a sequence of requests leaves behind, each for the object of a site, with a type in case
    the site is new. -/
def Heap.after (requests : List Obj) : Heap :=
  requests.foldl (fun h obj => (h.allocate obj.site obj.ty).1) {}

namespace HeapTables

variable [Hashable Location] {r : HeapTables} {requests : List Obj} {h : Heap}

/-- How the tables agree with each other, and with the requests that they come from. -/
structure Coherent (r : HeapTables) (requests : List Obj) : Prop where
  /-- A site has an object precisely if that is the site of the object. -/
  find?_iff : ∀ {site o}, r.find? site = some o ↔ ∃ obj, r.get? o = some obj ∧ obj.site = site
  /-- The objects are in bijection with the sites that were asked for. -/
  site_asked : ∀ {o obj}, r.get? o = some obj → obj.site ∈ requests.map Obj.site
  existsUnique_object : ∀ {site}, site ∈ requests.map Obj.site →
    ∃! o, ∃ obj, r.get? o = some obj ∧ obj.site = site
  /-- Below the number of objects, and only there, identifiers have an object. -/
  get?_isSome : ∀ {o}, (r.get? o).isSome = true ↔ o.index < r.size
  /-- The type of an object is that of the first request for its site. -/
  first_type : ∀ {o obj}, r.get? o = some obj →
    (requests.find? (·.site = obj.site)).map Obj.ty = some obj.ty

theorem coherent_of_registers (hr : r.Registers requests) : Coherent r requests where
  find?_iff := hr.find?_iff
  site_asked {o obj} hobj := by
    obtain ⟨a, ha, hsite⟩ := hr.known_iff.1 ⟨o, hr.find?_iff.2 ⟨obj, hobj, rfl⟩⟩
    exact List.mem_map.2 ⟨a, ha, hsite⟩
  existsUnique_object {site} hsite := by
    obtain ⟨o, ho⟩ := hr.known_iff.2 (List.mem_map.1 hsite)
    refine ⟨o, hr.find?_iff.1 ho, fun o' ho' => ?_⟩
    exact Option.some.inj ((hr.find?_iff.2 ho').symm.trans ho)
  get?_isSome := Arena.get?_isSome_iff
  first_type hobj := by
    rw [hr.first hobj]
    rfl

/-- The tables answer every question as the heap does. -/
structure AnswersLike (r : HeapTables) (h : Heap) : Prop where
  find? : ∀ site, r.find? site = h.at? site
  get? : ∀ o, r.get? o = h.obj? o
  size : r.size = h.size
  intern : ∀ obj, (r.intern obj).2 = (h.allocate obj.site obj.ty).2

theorem find?_eq (hr : r.Registers requests) (hobjects : r.entries = h.objects) (site : Location) :
    r.find? site = h.at? site := by
  -- both find the one object that the site has
  have hnodup : h.siteList.Nodup := by
    rw [Heap.siteList, ← hobjects]
    exact hr.nodup_keys
  have hentry : ∀ o, r.get? o = h.obj? o := fun o => by rw [Arena.get?, hobjects, Heap.obj?]
  apply Option.ext
  intro o
  rw [hr.find?_iff, hentry]
  constructor
  · rintro ⟨obj, hobj, rfl⟩
    exact Heap.at?_of_obj? hnodup hobj
  · exact Heap.exists_obj?_of_at?

theorem answersLike (hr : r.Registers requests) (hobjects : r.entries = h.objects) : AnswersLike r h where
  find? := find?_eq hr hobjects
  get? o := by rw [Arena.get?, hobjects, Heap.obj?]
  size := by rw [Arena.size, hobjects, Heap.size]
  intern obj := by
    have hfind := find?_eq hr hobjects obj.site
    rw [Heap.allocate]
    cases hknown : h.at? obj.site with
    | some o => rw [Arena.intern_of_known (hfind.trans hknown)]
    | none =>
      rw [Arena.intern_of_new (hfind.trans hknown), Arena.size, hobjects]
      rfl

/-- The tables hold the objects of the heap. -/
theorem entries_after (requests : List Obj) :
    (Arena.after requests : HeapTables).entries = (Heap.after requests).objects := by
  induction requests using List.reverseRecOn with
  | nil => rfl
  | append_singleton requests obj ih =>
    have hheap : Heap.after (requests ++ [obj]) = ((Heap.after requests).allocate obj.site obj.ty).1 := by
      simp [Heap.after]
    have hfind := find?_eq (Arena.registers_after requests) ih obj.site
    rw [Arena.after_concat, hheap, Heap.allocate]
    cases hknown : (Heap.after requests).at? obj.site with
    | some o => rw [Arena.intern_of_known (hfind.trans hknown), ih]
    | none => rw [Arena.intern_of_new (hfind.trans hknown), ih]

end HeapTables

/-! ## §8 After any sequence of calls -/

/-- **Tables that number what they are asked for are exact**, whatever the hash functions. After every
    sequence of calls the tables of a flow graph agree with each other and with the calls, and give the answers
    of the flow graph; an identifier that was given out keeps its pointer, and the pointer its identifier. After
    every sequence of requests the tables of a heap agree with each other and with the requests, and give the
    answers of the heap. -/
theorem interning_exact [Hashable Pointer] [Hashable PointerId] [Hashable Location] :
    (∀ calls : List FlowGraph.Call,
      (FlowTables.after calls).Coherent calls ∧
      (FlowTables.after calls).AnswersLike (FlowGraph.after calls) ∧
      ∀ pointer later, ∃ id, ((FlowTables.after calls).intern pointer).2 = id ∧
        (FlowTables.after (calls ++ .intern pointer :: later)).pointer? id = some pointer ∧
        (FlowTables.after (calls ++ .intern pointer :: later)).intern pointer =
          (FlowTables.after (calls ++ .intern pointer :: later), id)) ∧
    ∀ requests : List Obj,
      HeapTables.Coherent (Arena.after requests) requests ∧
      HeapTables.AnswersLike (Arena.after requests) (Heap.after requests) := by
  constructor
  · intro calls
    have hsound := FlowTables.sound_after calls
    refine ⟨hsound.coherent, (FlowTables.holds_after calls).answersLike hsound, ?_⟩
    intro pointer later
    exact ⟨_, rfl, FlowTables.intern_again calls later pointer⟩
  · intro requests
    have hregisters : (Arena.after requests : HeapTables).Registers requests :=
      Arena.registers_after requests
    exact ⟨HeapTables.coherent_of_registers hregisters,
      HeapTables.answersLike hregisters (HeapTables.entries_after requests)⟩

end PointsTo
