import PointsTo.Analysis.Solver
import PointsTo.Proofs.Interning

/-!
# The analysis only adds

No operation of the analysis takes anything back. Between two propagations the points-to sets stay as
they are and everything else is extended (`State.Extends`): tables are extended at their end, edges are
kept, and what is queued stays queued. A propagation takes one item from the worklist and adds its
objects to the set they were meant for, so what was due somewhere stays due there (`State.Grows`).

- `State.settle_extends`, `State.receiveAll_extends`: everything that happens between propagations.
- `State.step?_cases`: what a step can do.
- `State.step?_grows`: a step loses nothing.
-/

namespace PointsTo

/-! ## §1 Worklists and call graphs -/

namespace Worklist

variable {w : Worklist} {id : PointerId} {objects : ObjSet} {item : WorkItem}

theorem isPrefix_add : w.items <+: (w.add id objects).items := by
  unfold add
  split
  · exact List.prefix_rfl
  · exact List.prefix_append _ _

theorem mem_items_add :
    item ∈ (w.add id objects).items ↔ item ∈ w.items ∨ item = ⟨id, objects⟩ ∧ objects ≠ ∅ := by
  unfold add
  split
  · rename_i hempty
    simp [Ascending.isEmpty_iff.1 hempty]
  · rename_i hne
    have : objects ≠ ∅ := fun h => hne (Ascending.isEmpty_iff.2 h)
    simp [this]

theorem mem_items_of_poll {rest : Worklist} {x : WorkItem} (h : w.poll = some (item, rest)) :
    x ∈ w.items ↔ x = item ∨ x ∈ rest.items := by
  rw [(items_perm_of_poll h).mem_iff, List.mem_cons]

theorem size_of_poll {rest : Worklist} (h : w.poll = some (item, rest)) :
    w.size = rest.size + 1 :=
  (items_perm_of_poll h).length_eq

theorem size_add_le : (w.add id objects).size ≤ w.size + 1 := by
  unfold add
  split <;> simp [size]

end Worklist

namespace CallGraph

variable {g : CallGraph} {m : MethodId} {e : CallEdge}

theorem methods_addMethod_of_mem (h : m ∈ g.methods) : g.addMethod m = (g, false) := by
  simp [addMethod, h]

theorem isPrefix_addMethod : g.methods <+: (g.addMethod m).1.methods := by
  unfold addMethod
  split
  · exact List.prefix_rfl
  · exact List.prefix_append _ _

theorem entries_addMethod : (g.addMethod m).1.entries = g.entries := by
  unfold addMethod
  split <;> rfl

/-- A new edge between methods that are reachable already is all that is added. -/
theorem addEdge_of_mem (hcaller : e.caller ∈ g.methods) (hcallee : e.callee ∈ g.methods)
    (hnew : g.hasCall e.site e.callee = false) :
    g.addEdge e = ({ g with edges := g.edges ++ [e], arcs := recordCall e g.arcs }, true) := by
  simp [addEdge, hnew, methods_addMethod_of_mem hcaller, methods_addMethod_of_mem hcallee]

theorem methods_addEdge_isPrefix : g.methods <+: (g.addEdge e).1.methods := by
  unfold addEdge
  split
  · exact List.prefix_rfl
  · exact isPrefix_addMethod.trans isPrefix_addMethod

theorem edges_addEdge_isPrefix : g.edges <+: (g.addEdge e).1.edges := by
  unfold addEdge
  split
  · exact List.prefix_rfl
  · simp [edges_addMethod]

theorem entries_addEdge : (g.addEdge e).1.entries = g.entries := by
  unfold addEdge
  split <;> simp [entries_addMethod]

end CallGraph

namespace State

variable {s t u : State} {a b pointer : Pointer} {id : PointerId} {o : ObjId}

/-! ## §2 Edges between pointers -/

/-- The node of the source of a connection. -/
def sourceOf (s : State) (a : Pointer) : PointerId := (s.flow.intern a).2

/-- The node of the target of a connection. -/
def targetOf (s : State) (a b : Pointer) : PointerId := ((s.flow.intern a).1.intern b).2

theorem connect_eq :
    s.connect a b =
      { s with
        flow := (((s.flow.intern a).1.intern b).1.addEdge (s.sourceOf a) (s.targetOf a b)).1
        worklist :=
          if s.flow.hasEdge (s.sourceOf a) (s.targetOf a b) then s.worklist
          else s.worklist.add (s.targetOf a b) (s.flow.objects (s.sourceOf a)) } := by
  have hedge : ((s.flow.intern a).1.intern b).1.hasEdge (s.sourceOf a) (s.targetOf a b) =
      s.flow.hasEdge (s.sourceOf a) (s.targetOf a b) := by
    simp only [FlowGraph.hasEdge, FlowGraph.edges_intern]
  have hobjects : (((s.flow.intern a).1.intern b).1.addEdge (s.sourceOf a)
      (s.targetOf a b)).1.objects (s.sourceOf a) = s.flow.objects (s.sourceOf a) :=
    FlowGraph.objects_intern.trans FlowGraph.objects_intern
  rw [← hedge, ← hobjects]
  unfold connect
  simp only [FlowGraph.addEdge, sourceOf, targetOf]
  -- the definition asks the new graph whether the edge is known, the statement asks the old one
  by_cases hknown : ((s.flow.intern a).1.intern b).1.hasEdge (s.flow.intern a).2
    ((s.flow.intern a).1.intern b).2 = true <;> simp [hknown]

theorem heap_connect : (s.connect a b).heap = s.heap := by rw [connect_eq]

theorem calls_connect : (s.connect a b).calls = s.calls := by rw [connect_eq]

theorem pending_connect : (s.connect a b).pending = s.pending := by rw [connect_eq]

theorem objects_connect : (s.connect a b).flow.objects id = s.flow.objects id := by
  rw [connect_eq]
  exact FlowGraph.objects_intern.trans FlowGraph.objects_intern

theorem mem_edges_connect {e : PointerId × PointerId} :
    e ∈ (s.connect a b).flow.edges ↔ e = (s.sourceOf a, s.targetOf a b) ∨ e ∈ s.flow.edges := by
  rw [connect_eq]
  simp [FlowGraph.addEdge, FlowGraph.edges_intern]

theorem pointerList_connect :
    (s.connect a b).flow.pointerList = ((s.flow.intern a).1.intern b).1.pointerList := by
  rw [connect_eq]
  rfl

theorem find?_source_connect : (s.connect a b).flow.find? a = some (s.sourceOf a) := by
  refine FlowGraph.find?_of_isPrefix (g := (s.flow.intern a).1) ?_ (FlowGraph.find?_intern _ _)
  rw [pointerList_connect]
  exact FlowGraph.isPrefix_intern

theorem find?_target_connect : (s.connect a b).flow.find? b = some (s.targetOf a b) := by
  refine FlowGraph.find?_of_isPrefix (g := ((s.flow.intern a).1.intern b).1) ?_
    (FlowGraph.find?_intern _ _)
  exact pointerList_connect ▸ List.prefix_rfl

theorem mem_items_connect {item : WorkItem} :
    item ∈ (s.connect a b).worklist.items ↔ item ∈ s.worklist.items ∨
      (s.sourceOf a, s.targetOf a b) ∉ s.flow.edges ∧
        item = ⟨s.targetOf a b, s.flow.objects (s.sourceOf a)⟩ ∧
          s.flow.objects (s.sourceOf a) ≠ ∅ := by
  rw [connect_eq]
  dsimp only
  split
  · rename_i hknown
    simp [FlowGraph.hasEdge_iff.1 hknown]
  · rename_i hnew
    have hnew' : (s.sourceOf a, s.targetOf a b) ∉ s.flow.edges := by
      rwa [FlowGraph.hasEdge_iff] at hnew
    simp [hnew', Worklist.mem_items_add]

/-- After a connection its edge is there. -/
theorem hasFlow_connect : (s.connect a b).flow.hasFlow a b = true :=
  FlowGraph.hasFlow_iff.2
    ⟨_, _, find?_source_connect, find?_target_connect, mem_edges_connect.2 (Or.inl rfl)⟩

/-! ## §3 Extension -/

/-- The second state has everything that the first one has, and the same points-to sets. -/
structure Extends (s t : State) : Prop where
  heap : s.heap.objects.toList <+: t.heap.objects.toList
  pointers : s.flow.pointerList <+: t.flow.pointerList
  objects : ∀ id, t.flow.objects id = s.flow.objects id
  edges : ∀ e, e ∈ s.flow.edges → e ∈ t.flow.edges
  items : s.worklist.items <+: t.worklist.items
  methods : s.calls.methods <+: t.calls.methods
  calls : s.calls.edges <+: t.calls.edges
  entries : t.calls.entries = s.calls.entries
  iterations : t.iterations = s.iterations

theorem Extends.refl (s : State) : s.Extends s :=
  ⟨List.prefix_rfl, List.prefix_rfl, fun _ => rfl, fun _ he => he, List.prefix_rfl, List.prefix_rfl,
    List.prefix_rfl, rfl, rfl⟩

theorem Extends.trans (h : s.Extends t) (h' : t.Extends u) : s.Extends u where
  heap := h.heap.trans h'.heap
  pointers := h.pointers.trans h'.pointers
  objects id := (h'.objects id).trans (h.objects id)
  edges e he := h'.edges e (h.edges e he)
  items := h.items.trans h'.items
  methods := h.methods.trans h'.methods
  calls := h.calls.trans h'.calls
  entries := h'.entries.trans h.entries
  iterations := h'.iterations.trans h.iterations

theorem foldl_extends {α : Type} {f : State → α → State} (hf : ∀ s x, Extends s (f s x))
    (l : List α) (s : State) : s.Extends (l.foldl f s) := by
  induction l generalizing s with
  | nil => exact Extends.refl s
  | cons x rest ih => exact (hf s x).trans (ih (f s x))

/-- What one round of a fold establishes holds after the fold, if extension keeps it. -/
theorem foldl_establishes {α : Type} {f : State → α → State} (hf : ∀ s x, Extends s (f s x))
    {Q : State → Prop} (hQ : ∀ {s t : State}, s.Extends t → Q s → Q t) {l : List α} {x : α}
    (hx : x ∈ l) (hround : ∀ t, s.Extends t → Q (f t x)) : Q (l.foldl f s) := by
  -- the state is generalized: the round of interest starts where the earlier rounds end
  induction l generalizing s with
  | nil => exact absurd hx List.not_mem_nil
  | cons y rest ih =>
    rcases List.mem_cons.1 hx with rfl | hrest
    · exact hQ (foldl_extends hf rest _) (hround s (Extends.refl s))
    · exact ih hrest fun t ht => hround t ((hf s y).trans ht)

theorem emit_extends (e : Event) : s.Extends (s.emit e) :=
  ⟨List.prefix_rfl, List.prefix_rfl, fun _ => rfl, fun _ he => he, List.prefix_rfl, List.prefix_rfl,
    List.prefix_rfl, rfl, rfl⟩

theorem pending_extends (pending : List MethodId) : s.Extends { s with pending } :=
  ⟨List.prefix_rfl, List.prefix_rfl, fun _ => rfl, fun _ he => he, List.prefix_rfl, List.prefix_rfl,
    List.prefix_rfl, rfl, rfl⟩

theorem mention_extends (pointer : Pointer) : s.Extends (s.mention pointer) where
  heap := List.prefix_rfl
  pointers := FlowGraph.isPrefix_intern
  objects _ := FlowGraph.objects_intern
  edges e he := by
    show e ∈ (s.flow.intern pointer).1.edges
    rwa [FlowGraph.edges_intern]
  items := List.prefix_rfl
  methods := List.prefix_rfl
  calls := List.prefix_rfl
  entries := rfl
  iterations := rfl

theorem feed_extends (pointer : Pointer) (objects : ObjSet) : s.Extends (s.feed pointer objects) where
  heap := List.prefix_rfl
  pointers := FlowGraph.isPrefix_intern
  objects _ := FlowGraph.objects_intern
  edges e he := by
    show e ∈ (s.flow.intern pointer).1.edges
    rwa [FlowGraph.edges_intern]
  items := Worklist.isPrefix_add
  methods := List.prefix_rfl
  calls := List.prefix_rfl
  entries := rfl
  iterations := rfl

theorem connect_extends (a b : Pointer) : s.Extends (s.connect a b) where
  heap := heap_connect ▸ List.prefix_rfl
  pointers := by
    rw [pointerList_connect]
    exact FlowGraph.isPrefix_intern.trans FlowGraph.isPrefix_intern
  objects _ := objects_connect
  edges e he := mem_edges_connect.2 (Or.inr he)
  items := by
    rw [connect_eq]
    dsimp only
    split
    · exact List.prefix_rfl
    · exact Worklist.isPrefix_add
  methods := calls_connect ▸ List.prefix_rfl
  calls := calls_connect ▸ List.prefix_rfl
  entries := by rw [calls_connect]
  iterations := by rw [connect_eq]

theorem connectAll_extends (edges : List (Pointer × Pointer)) : s.Extends (s.connectAll edges) := by
  unfold connectAll
  refine foldl_extends ?_ edges s
  rintro s ⟨a, b⟩
  exact connect_extends a b

theorem reach_extends (m : MethodId) : s.Extends (s.reach m) := by
  unfold reach
  dsimp only
  split
  · exact
      { Extends.refl s with
        methods := CallGraph.isPrefix_addMethod
        calls := CallGraph.edges_addMethod s.calls m ▸ List.prefix_rfl
        entries := CallGraph.entries_addMethod }
  · exact Extends.refl s

/-- Recording a call edge extends the state. -/
theorem record_extends (e : CallEdge) : s.Extends { s with calls := (s.calls.addEdge e).1 } :=
  { Extends.refl s with
    methods := CallGraph.methods_addEdge_isPrefix
    calls := CallGraph.edges_addEdge_isPrefix
    entries := CallGraph.entries_addEdge }

theorem allocate_extends (site : Location) (ty : Ty) :
    s.Extends { s with heap := (s.heap.allocate site ty).1 } :=
  { Extends.refl s with heap := Heap.isPrefix_allocate }

/-! ## §4 What happens between propagations -/

variable {p : Program}

theorem passResult_extends (returned : List VarId) (result : Option VarId) :
    s.Extends (s.passResult returned result) := by
  cases result with
  | none => exact Extends.refl s
  | some r => exact (mention_extends _).trans (connectAll_extends _)

theorem passValues_extends (call : Invoke) (callee : Method) :
    s.Extends (s.passValues call callee) :=
  (connectAll_extends _).trans (passResult_extends _ _)

theorem link_extends (site : Location) (call : Invoke) (callee : MethodId) :
    s.Extends (s.link p site call callee) := by
  refine (reach_extends callee).trans ?_
  unfold link
  dsimp only
  split
  · refine (record_extends ⟨call.kind, site, callee⟩).trans
      ((emit_extends (.called site callee)).trans ?_)
    split
    · exact Extends.refl _
    · exact passValues_extends _ _
  · exact Extends.refl _

theorem bindReceiver_extends (callee : MethodId) (receiver : ObjId) :
    s.Extends (s.bindReceiver p callee receiver) := by
  unfold bindReceiver
  split
  · exact Extends.refl s
  · exact feed_extends _ _

theorem callStatic_extends (site : Location) (call : Invoke) :
    s.Extends (s.callStatic p site call) := by
  unfold callStatic
  split
  · exact emit_extends _
  · exact link_extends _ _ _

theorem callInstance_extends (receiver : ObjId) (site : Location) :
    s.Extends (s.callInstance p receiver site) := by
  unfold callInstance
  split
  · split
    · exact emit_extends _
    · exact (bindReceiver_extends _ _).trans (link_extends _ _ _)
  · exact Extends.refl s

theorem enterStmt_extends (loc : Location) (stmt : Stmt) : s.Extends (s.enterStmt p loc stmt) := by
  unfold enterStmt
  split
  · exact (allocate_extends _ _).trans (feed_extends _ _)
  · exact connect_extends _ _
  · exact connect_extends _ _
  · exact connect_extends _ _
  · exact connect_extends _ _
  · split
    · exact callStatic_extends _ _
    · exact Extends.refl s
  · exact Extends.refl s

theorem enterMethod_extends (m : MethodId) : s.Extends (s.enterMethod p m) := by
  unfold enterMethod
  split
  · exact Extends.refl s
  · refine foldl_extends ?_ _ s
    rintro s ⟨stmt, i⟩
    exact enterStmt_extends ⟨m, i⟩ stmt

theorem enterPending_extends (n : Nat) (s : State) : s.Extends (s.enterPending p n) := by
  induction n generalizing s with
  | zero => exact Extends.refl s
  | succ n ih =>
    unfold enterPending
    split
    · exact Extends.refl s
    · exact (pending_extends _).trans ((enterMethod_extends _).trans (ih _))

theorem settle_extends : s.Extends (s.settle p) := enterPending_extends _ s

theorem receive_extends (v : VarId) (obj : ObjId) : s.Extends (receive p v s obj) := by
  unfold receive
  split
  · exact Extends.refl s
  · exact (connectAll_extends _).trans (foldl_extends (fun _ site => callInstance_extends _ site) _ _)

theorem receiveAll_extends (pointer : Pointer) (delta : ObjSet) :
    s.Extends (s.receiveAll p pointer delta) := by
  unfold receiveAll
  split
  · exact foldl_extends (fun _ obj => receive_extends _ obj) _ s
  · exact Extends.refl s

/-! ## §5 Propagations -/

/-- An object has arrived at a node or is on its way there. -/
def Due (s : State) (id : PointerId) (o : ObjId) : Prop :=
  o ∈ s.flow.objects id ∨ ∃ item ∈ s.worklist.items, item.pointer = id ∧ o ∈ item.objects

theorem Extends.due (h : s.Extends t) (hdue : s.Due id o) : t.Due id o := by
  rcases hdue with harrived | ⟨item, hitem, hid, ho⟩
  · exact Or.inl (h.objects id ▸ harrived)
  · exact Or.inr ⟨item, h.items.subset hitem, hid, ho⟩

/-- The second state has everything that the first one has, and nothing due has been dropped. -/
structure Grows (s t : State) : Prop where
  heap : s.heap.objects.toList <+: t.heap.objects.toList
  pointers : s.flow.pointerList <+: t.flow.pointerList
  objects : ∀ id o, o ∈ s.flow.objects id → o ∈ t.flow.objects id
  edges : ∀ e, e ∈ s.flow.edges → e ∈ t.flow.edges
  methods : s.calls.methods <+: t.calls.methods
  calls : s.calls.edges <+: t.calls.edges
  entries : t.calls.entries = s.calls.entries
  due : ∀ id o, s.Due id o → t.Due id o

theorem Grows.refl (s : State) : s.Grows s :=
  ⟨List.prefix_rfl, List.prefix_rfl, fun _ _ ho => ho, fun _ he => he, List.prefix_rfl,
    List.prefix_rfl, rfl, fun _ _ hdue => hdue⟩

theorem Grows.trans (h : s.Grows t) (h' : t.Grows u) : s.Grows u where
  heap := h.heap.trans h'.heap
  pointers := h.pointers.trans h'.pointers
  objects id o ho := h'.objects id o (h.objects id o ho)
  edges e he := h'.edges e (h.edges e he)
  methods := h.methods.trans h'.methods
  calls := h.calls.trans h'.calls
  entries := h'.entries.trans h.entries
  due id o hdue := h'.due id o (h.due id o hdue)

theorem Extends.grows (h : s.Extends t) : s.Grows t where
  heap := h.heap
  pointers := h.pointers
  objects id _ ho := h.objects id ▸ ho
  edges := h.edges
  methods := h.methods
  calls := h.calls
  entries := h.entries
  due _ _ := h.due

/-- The state after taking an item, before anything is done about it. -/
def polled (s : State) (rest : Worklist) : State :=
  { s with worklist := rest, iterations := s.iterations + 1 }

/-- The objects of an item that its node does not have yet. -/
def newObjects (s : State) (item : WorkItem) : ObjSet :=
  item.objects.sdiff (s.flow.objects item.pointer)

/-- **What a step can do**: it takes an item; if the item brings nothing new, that is all, and
    otherwise the new objects are propagated, received and the methods they reach are entered. -/
theorem step?_cases (hnodes : ∀ item ∈ s.worklist.items, item.pointer.index < s.flow.size)
    (h : s.step? p = some t) :
    ∃ item rest pointer, s.worklist.poll = some (item, rest) ∧
      s.flow.pointer? item.pointer = some pointer ∧
      (s.newObjects item = ∅ ∧ t = s.polled rest ∨
        s.newObjects item ≠ ∅ ∧
          t = (((s.polled rest).propagate item.pointer pointer (s.newObjects item)).receiveAll p
            pointer (s.newObjects item)).settle p) := by
  obtain ⟨⟨item, rest⟩, hpoll, hstep⟩ := Option.map_eq_some_iff.1 h
  have hmem : item ∈ s.worklist.items :=
    (Worklist.mem_items_of_poll hpoll).2 (Or.inl rfl)
  obtain ⟨pointer, hpointer⟩ := FlowGraph.exists_pointer?_of_lt (hnodes item hmem)
  refine ⟨item, rest, pointer, hpoll, hpointer, ?_⟩
  unfold absorb at hstep
  simp only [hpointer] at hstep
  split at hstep
  · rename_i hempty
    -- nothing new: the item is dropped
    exact Or.inl ⟨Ascending.isEmpty_iff.1 hempty, hstep.symm⟩
  · rename_i hne
    exact Or.inr ⟨fun hempty => hne (Ascending.isEmpty_iff.2 hempty), hstep.symm⟩

theorem mem_items_foldl_add {targets : List PointerId} {delta : ObjSet} {w : Worklist}
    {item : WorkItem} :
    item ∈ (targets.foldl (fun w target => w.add target delta) w).items ↔
      item ∈ w.items ∨ delta ≠ ∅ ∧ ∃ target ∈ targets, item = ⟨target, delta⟩ := by
  induction targets generalizing w with
  | nil => simp
  | cons target rest ih =>
    rw [List.foldl_cons, ih, Worklist.mem_items_add]
    constructor
    · rintro ((hmem | ⟨rfl, hne⟩) | ⟨hne, target', hmem, rfl⟩)
      · exact Or.inl hmem
      · exact Or.inr ⟨hne, target, List.mem_cons_self, rfl⟩
      · exact Or.inr ⟨hne, target', List.mem_cons_of_mem _ hmem, rfl⟩
    · rintro (hmem | ⟨hne, target', hmem, rfl⟩)
      · exact Or.inl (Or.inl hmem)
      · rcases List.mem_cons.1 hmem with rfl | hmem
        · exact Or.inl (Or.inr ⟨rfl, hne⟩)
        · exact Or.inr ⟨hne, target', hmem, rfl⟩

/-- Propagating queues the objects for the successors of the node. -/
theorem mem_items_propagate {delta : ObjSet} {item : WorkItem} :
    item ∈ (s.propagate id pointer delta).worklist.items ↔
      item ∈ s.worklist.items ∨
        delta ≠ ∅ ∧ ∃ target, (id, target) ∈ s.flow.edges ∧ item = ⟨target, delta⟩ := by
  unfold propagate
  dsimp only
  rw [mem_items_foldl_add]
  simp only [FlowGraph.mem_successors, FlowGraph.hasEdge_iff]
  rfl

theorem propagate_due {delta : ObjSet} (hid : id.index < s.flow.size) {id' : PointerId}
    (h : s.Due id' o ∨ id' = id ∧ o ∈ delta) : (s.propagate id pointer delta).Due id' o := by
  rcases h with (harrived | ⟨item, hitem, hid', ho⟩) | hnew
  · exact Or.inl ((FlowGraph.mem_objects_grow hid).2 (Or.inl harrived))
  · exact Or.inr ⟨item, mem_items_propagate.2 (Or.inl hitem), hid', ho⟩
  · exact Or.inl ((FlowGraph.mem_objects_grow hid).2 (Or.inr hnew))

/-- What was due before an item is taken is due afterwards, or is among the objects of the item. -/
theorem due_polled {item : WorkItem} {rest : Worklist}
    (hpoll : s.worklist.poll = some (item, rest)) (h : s.Due id o) :
    (s.polled rest).Due id o ∨ id = item.pointer ∧ o ∈ s.newObjects item := by
  rcases h with harrived | ⟨item', hitem, rfl, ho⟩
  · exact Or.inl (Or.inl harrived)
  · rcases (Worklist.mem_items_of_poll hpoll).1 hitem with rfl | hrest
    · -- what the item brings is new, or had arrived before
      by_cases harrived : o ∈ s.flow.objects item'.pointer
      · exact Or.inl (Or.inl harrived)
      · exact Or.inr ⟨rfl, Ascending.mem_sdiff.2 ⟨ho, harrived⟩⟩
    · exact Or.inl (Or.inr ⟨item', hrest, rfl, ho⟩)

/-- Taking an item that brings something new and propagating it loses nothing. -/
theorem propagate_grows (pointer : Pointer) {item : WorkItem} {rest : Worklist}
    (hpoll : s.worklist.poll = some (item, rest)) (hid : item.pointer.index < s.flow.size) :
    s.Grows ((s.polled rest).propagate item.pointer pointer (s.newObjects item)) where
  heap := List.prefix_rfl
  pointers := FlowGraph.pointerList_grow (g := s.flow) ▸ List.prefix_rfl
  objects _ _ ho := (FlowGraph.mem_objects_grow (g := s.flow) hid).2 (Or.inl ho)
  edges _ he := he
  methods := List.prefix_rfl
  calls := List.prefix_rfl
  entries := rfl
  due _ _ hdue := propagate_due (s := s.polled rest) hid (due_polled hpoll hdue)

theorem step?_grows (hnodes : ∀ item ∈ s.worklist.items, item.pointer.index < s.flow.size)
    (h : s.step? p = some t) : s.Grows t := by
  obtain ⟨item, rest, pointer, hpoll, hpointer, ⟨hempty, rfl⟩ | ⟨_, rfl⟩⟩ := step?_cases hnodes h
  · refine { Grows.refl s with due := fun id o hdue => ?_ }
    rcases due_polled hpoll hdue with hdue' | ⟨_, ho⟩
    · exact hdue'
    · rw [hempty] at ho
      exact absurd ho (Ascending.not_mem_empty o)
  · -- after the propagation everything is extension
    have hid := FlowGraph.index_lt_of_pointer? hpointer
    exact (propagate_grows _ hpoll hid).trans
      ((receiveAll_extends _ _).trans settle_extends).grows

end State

end PointsTo
