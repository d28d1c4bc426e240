import PointsTo.Proofs.Growth
import PointsTo.Proofs.Rules
import PointsTo.Proofs.WellFormed

/-!
# Supported states

A state of the analysis is supported by a set of facts if everything that it records, or has queued, is
one of them: reachable methods, call edges, flow edges, members of points-to sets and objects that are
still on their way. Each change that the analysis makes to a state keeps it supported, by every solution
of the rules, provided that the solution calls for the change.

- `State.Supported`: the invariant.
- `State.Supported.connect`, `State.Supported.feed`, ...: the changes between propagations.
- `State.Supported.propagate`: a propagation.
-/

namespace PointsTo

/-! ## §1 Supported states -/

/-- The program has what the pointer refers to, and the method of a variable is among the given. -/
def Pointer.Within (p : Program) (methods : List MethodId) : Pointer → Prop
  | .var v => ∃ m ∈ methods, p.Owns m v
  | .field _ f => f.index < p.fields.size
  | .element _ => True
  | .staticField f => f.index < p.fields.size

theorem Pointer.Within.mono {p : Program} {methods methods' : List MethodId} {pointer : Pointer}
    (hsub : ∀ m ∈ methods, m ∈ methods') (h : pointer.Within p methods) :
    pointer.Within p methods' := by
  cases pointer with
  | var v =>
    obtain ⟨m, hm, howns⟩ := h
    exact ⟨m, hsub m hm, howns⟩
  | field o f => exact h
  | element o => exact h
  | staticField f => exact h

namespace State

/-- The place that names a node. -/
def placeOf? (s : State) (id : PointerId) : Option Place :=
  (s.flow.pointer? id).bind s.heap.place?

section

variable (p : Program) (F : Fact → Prop) (s : State)

/-- A pointer that may be a node. -/
def NodeOk (pointer : Pointer) : Prop :=
  pointer.Within p s.calls.methods ∧
    ∃ place, s.heap.place? pointer = some place ∧ Listed p F place

/-- A pair of nodes that may be an edge. -/
def EdgeOk (e : PointerId × PointerId) : Prop :=
  ∃ x y, s.placeOf? e.1 = some x ∧ s.placeOf? e.2 = some y ∧ F (.flows x y)

/-- An object that may be at a node. -/
def MemberOk (id : PointerId) (o : ObjId) : Prop :=
  ∃ x site, s.placeOf? id = some x ∧ s.heap.site? o = some site ∧ F (.pointsTo x site)

/-- Everything that the state records or has queued is among the facts. -/
structure Supported : Prop where
  pointersNodup : s.flow.pointerList.Nodup
  sitesNodup : s.heap.siteList.Nodup
  callsNodup : s.calls.edges.Nodup
  methods : ∀ m ∈ s.calls.methods, F (.reachable m) ∧ m.index < p.methods.size
  calls : ∀ e ∈ s.calls.edges,
    F (.calls e) ∧ ∃ call, p.stmt? e.site = some (.invoke call) ∧ call.kind = e.kind
  objects : ∀ o obj, s.heap.obj? o = some obj → ∃ lhs, p.stmt? obj.site = some (.new lhs obj.ty)
  nodes : ∀ pointer ∈ s.flow.pointerList, s.NodeOk p F pointer
  edges : ∀ e ∈ s.flow.edges, s.EdgeOk F e
  members : ∀ id o, o ∈ s.flow.objects id → s.MemberOk F id o
  items : ∀ item ∈ s.worklist.items, item.pointer.index < s.flow.size ∧ item.objects ≠ ∅ ∧
    ∀ o ∈ item.objects, s.MemberOk F item.pointer o

end

variable {p : Program} {F : Fact → Prop} {entry : MethodId} {s t u : State}

theorem placeOf?_eq_some_iff {id : PointerId} {place : Place} :
    s.placeOf? id = some place ↔
      ∃ pointer, s.flow.pointer? id = some pointer ∧ s.heap.place? pointer = some place :=
  Option.bind_eq_some_iff

theorem Grows.placeOf? (h : s.Grows t) {id : PointerId} {place : Place}
    (hplace : s.placeOf? id = some place) : t.placeOf? id = some place := by
  obtain ⟨pointer, hpointer, hname⟩ := placeOf?_eq_some_iff.1 hplace
  exact placeOf?_eq_some_iff.2 ⟨pointer, FlowGraph.pointer?_of_isPrefix h.pointers hpointer,
    Heap.place?_of_isPrefix h.heap hname⟩

theorem Grows.nodeOk (h : s.Grows t) {pointer : Pointer} (hnode : s.NodeOk p F pointer) :
    t.NodeOk p F pointer := by
  obtain ⟨hwithin, place, hplace, hlisted⟩ := hnode
  exact ⟨hwithin.mono fun m hm => h.methods.subset hm, place,
    Heap.place?_of_isPrefix h.heap hplace, hlisted⟩

theorem Grows.edgeOk (h : s.Grows t) {e : PointerId × PointerId} (hedge : s.EdgeOk F e) :
    t.EdgeOk F e := by
  obtain ⟨x, y, hx, hy, hflow⟩ := hedge
  exact ⟨x, y, h.placeOf? hx, h.placeOf? hy, hflow⟩

theorem Grows.memberOk (h : s.Grows t) {id : PointerId} {o : ObjId} (hmember : s.MemberOk F id o) :
    t.MemberOk F id o := by
  obtain ⟨x, site, hx, hsite, hfact⟩ := hmember
  exact ⟨x, site, h.placeOf? hx, Heap.site?_of_isPrefix h.heap hsite, hfact⟩

theorem Grows.size_le (h : s.Grows t) : s.flow.size ≤ t.flow.size := by
  rw [← FlowGraph.length_pointerList, ← FlowGraph.length_pointerList]
  exact h.pointers.length_le

/-- The invariant carries over to a larger state if what is new in it obeys the invariant. -/
theorem Supported.transfer (h : s.Supported p F) (hgrows : s.Grows t)
    (hpointers : t.flow.pointerList.Nodup) (hsites : t.heap.siteList.Nodup)
    (hedgesNodup : t.calls.edges.Nodup)
    (hmethods : ∀ m ∈ t.calls.methods,
      m ∈ s.calls.methods ∨ F (.reachable m) ∧ m.index < p.methods.size)
    (hcalls : ∀ e ∈ t.calls.edges, e ∈ s.calls.edges ∨
      F (.calls e) ∧ ∃ call, p.stmt? e.site = some (.invoke call) ∧ call.kind = e.kind)
    (hobjects : ∀ o obj, t.heap.obj? o = some obj → s.heap.obj? o = some obj ∨
      ∃ lhs, p.stmt? obj.site = some (.new lhs obj.ty))
    (hnodes : ∀ pointer ∈ t.flow.pointerList, pointer ∈ s.flow.pointerList ∨ t.NodeOk p F pointer)
    (hedges : ∀ e ∈ t.flow.edges, e ∈ s.flow.edges ∨ t.EdgeOk F e)
    (hmembers : ∀ id o, o ∈ t.flow.objects id → o ∈ s.flow.objects id ∨ t.MemberOk F id o)
    (hitems : ∀ item ∈ t.worklist.items, item ∈ s.worklist.items ∨
      item.pointer.index < t.flow.size ∧ item.objects ≠ ∅ ∧
        ∀ o ∈ item.objects, t.MemberOk F item.pointer o) :
    t.Supported p F where
  pointersNodup := hpointers
  sitesNodup := hsites
  callsNodup := hedgesNodup
  methods m hm := (hmethods m hm).elim (h.methods m) fun hnew => hnew
  calls e he := (hcalls e he).elim (h.calls e) fun hnew => hnew
  objects o obj hobj := (hobjects o obj hobj).elim (h.objects o obj) fun hnew => hnew
  nodes pointer hmem :=
    (hnodes pointer hmem).elim (fun hold => hgrows.nodeOk (h.nodes pointer hold)) fun hnew => hnew
  edges e he := (hedges e he).elim (fun hold => hgrows.edgeOk (h.edges e hold)) fun hnew => hnew
  members id o ho :=
    (hmembers id o ho).elim (fun hold => hgrows.memberOk (h.members id o hold)) fun hnew => hnew
  items item hitem := by
    rcases hitems item hitem with hold | hnew
    · obtain ⟨hlt, hne, hmember⟩ := h.items item hold
      exact ⟨Nat.lt_of_lt_of_le hlt hgrows.size_le, hne, fun o ho => hgrows.memberOk (hmember o ho)⟩
    · exact hnew

/-! ## §2 Changes between propagations -/

/-- Two pointers that the facts let flow one into the other. -/
def Connectable (p : Program) (F : Fact → Prop) (s : State) (a b : Pointer) : Prop :=
  a.Within p s.calls.methods ∧ b.Within p s.calls.methods ∧
    ∃ x y, s.heap.place? a = some x ∧ s.heap.place? b = some y ∧ F (.flows x y)

/-- An object that the facts let a pointer point to. -/
def Feedable (p : Program) (F : Fact → Prop) (s : State) (pointer : Pointer) (o : ObjId) : Prop :=
  pointer.Within p s.calls.methods ∧
    ∃ x site, s.heap.place? pointer = some x ∧ s.heap.site? o = some site ∧ F (.pointsTo x site)

theorem Supported.mention (h : s.Supported p F) {pointer : Pointer}
    (hnode : s.NodeOk p F pointer) : (s.mention pointer).Supported p F := by
  have hgrows := (mention_extends (s := s) pointer).grows
  refine h.transfer hgrows (FlowGraph.nodup_intern h.pointersNodup) h.sitesNodup h.callsNodup
    (fun _ hm => Or.inl hm) (fun _ he => Or.inl he) (fun _ _ ho => Or.inl ho) ?_ ?_ ?_
    (fun _ hitem => Or.inl hitem)
  · -- the only new node is the pointer itself
    intro x hx
    rcases FlowGraph.mem_pointerList_intern.1 hx with rfl | hx
    · exact Or.inr (hgrows.nodeOk hnode)
    · exact Or.inl hx
  · intro e he
    have hedges : (s.mention pointer).flow.edges = s.flow.edges := FlowGraph.edges_intern
    exact Or.inl (hedges ▸ he)
  · intro id o ho
    have hobjects : (s.mention pointer).flow.objects id = s.flow.objects id :=
      FlowGraph.objects_intern
    exact Or.inl (hobjects ▸ ho)

/-- The node of a pointer that has just been mentioned has the name of the pointer. -/
theorem placeOf?_of_find? {pointer : Pointer} {id : PointerId} {place : Place}
    (hfind : s.flow.find? pointer = some id) (hplace : s.heap.place? pointer = some place) :
    s.placeOf? id = some place :=
  placeOf?_eq_some_iff.2 ⟨pointer, FlowGraph.pointer?_of_find? hfind, hplace⟩

theorem Supported.feed (h : s.Supported p F) {pointer : Pointer} {o : ObjId}
    (hfeed : s.Feedable p F pointer o) :
    (s.feed pointer (Ascending.singleton o)).Supported p F := by
  obtain ⟨hwithin, x, site, hplace, hsite, hfact⟩ := hfeed
  have hmention := h.mention ⟨hwithin, x, hplace, .pointing hfact⟩
  have hfind := FlowGraph.find?_intern s.flow pointer
  refine { hmention with items := fun item hitem => ?_ }
  rcases Worklist.mem_items_add.1 hitem with hold | ⟨rfl, hne⟩
  · exact hmention.items item hold
  · refine ⟨FlowGraph.index_lt_of_pointer? (FlowGraph.pointer?_of_find? hfind), hne, ?_⟩
    intro o' ho'
    rw [Ascending.mem_singleton.1 ho']
    exact ⟨x, site, placeOf?_of_find? (s := s.mention pointer) hfind hplace, hsite, hfact⟩

theorem Supported.connect (h : s.Supported p F) (hF : Closed p entry F) {a b : Pointer}
    (hconnect : s.Connectable p F a b) : (s.connect a b).Supported p F := by
  obtain ⟨ha, hb, x, y, hx, hy, hflow⟩ := hconnect
  have hgrows := (connect_extends (s := s) a b).grows
  have hsource : (s.connect a b).placeOf? (s.sourceOf a) = some x :=
    placeOf?_of_find? find?_source_connect (by rwa [heap_connect])
  have htarget : (s.connect a b).placeOf? (s.targetOf a b) = some y :=
    placeOf?_of_find? find?_target_connect (by rwa [heap_connect])
  refine h.transfer hgrows ?_ (by rw [heap_connect]; exact h.sitesNodup)
    (by rw [calls_connect]; exact h.callsNodup)
    (fun m hm => Or.inl (by rwa [calls_connect] at hm))
    (fun e he => Or.inl (by rwa [calls_connect] at he))
    (fun o obj ho => Or.inl (by rwa [heap_connect] at ho)) ?_ ?_
    (fun id o ho => Or.inl (by rwa [objects_connect] at ho)) ?_
  · rw [pointerList_connect]
    exact FlowGraph.nodup_intern (FlowGraph.nodup_intern h.pointersNodup)
  · -- the ends of the edge are listed because they are the ends of a flow
    intro pointer hpointer
    rw [pointerList_connect, FlowGraph.mem_pointerList_intern,
      FlowGraph.mem_pointerList_intern] at hpointer
    rcases hpointer with rfl | rfl | hold
    · exact Or.inr (hgrows.nodeOk ⟨hb, y, hy, .target hflow⟩)
    · exact Or.inr (hgrows.nodeOk ⟨ha, x, hx, .source hflow⟩)
    · exact Or.inl hold
  · intro e he
    rcases mem_edges_connect.1 he with rfl | hold
    · exact Or.inr ⟨x, y, hsource, htarget, hflow⟩
    · exact Or.inl hold
  · intro item hitem
    rcases mem_items_connect.1 hitem with hold | ⟨_, rfl, hne⟩
    · exact Or.inl hold
    · refine Or.inr ⟨?_, hne, fun o ho => ?_⟩
      · exact FlowGraph.index_lt_of_pointer? (FlowGraph.pointer?_of_find? find?_target_connect)
      · -- what the source points to was supported there, so the flow rule supports it here
        obtain ⟨x', site, hx', hsite, hfact⟩ := hgrows.memberOk (h.members _ o ho)
        rw [hsource, Option.some.injEq] at hx'
        subst hx'
        exact ⟨y, site, htarget, hsite, hF _ (.flow hflow hfact)⟩

theorem Supported.reach (h : s.Supported p F) {m : MethodId} (hm : F (.reachable m))
    (hlt : m.index < p.methods.size) : (s.reach m).Supported p F := by
  unfold State.reach
  dsimp only
  split
  · refine h.transfer (t := emit _ _)
      (by simpa [State.reach, *] using (reach_extends (s := s) m).grows)
      h.pointersNodup h.sitesNodup ?_ ?_ ?_ (fun _ _ ho => Or.inl ho) (fun _ hx => Or.inl hx)
      (fun _ he => Or.inl he) (fun _ _ ho => Or.inl ho) (fun _ hitem => Or.inl hitem)
    · show (s.calls.addMethod m).1.edges.Nodup
      rw [CallGraph.edges_addMethod]
      exact h.callsNodup
    · intro m' hm'
      rcases CallGraph.mem_methods_addMethod.1 hm' with rfl | hold
      · exact Or.inr ⟨hm, hlt⟩
      · exact Or.inl hold
    · intro e he
      exact Or.inl (by rwa [← CallGraph.edges_addMethod s.calls m])
  · exact h

theorem Supported.record (h : s.Supported p F) {e : CallEdge} {call : Invoke} (he : F (.calls e))
    (hstmt : p.stmt? e.site = some (.invoke call)) (hkind : call.kind = e.kind)
    (hcaller : e.caller ∈ s.calls.methods) (hcallee : e.callee ∈ s.calls.methods)
    (hnew : s.calls.hasCall e.site e.callee = false) :
    ({ s with calls := (s.calls.addEdge e).1 } : State).Supported p F := by
  have hedges := congrArg Prod.fst (CallGraph.addEdge_of_mem hcaller hcallee hnew)
  -- an edge is new if no edge has its site and callee, whatever the kinds are
  have hfresh : e ∉ s.calls.edges := by
    intro hmem
    have := CallGraph.hasCall_iff.2 ⟨e, hmem, rfl, rfl⟩
    simp [hnew] at this
  refine h.transfer (record_extends e).grows h.pointersNodup h.sitesNodup ?_ ?_ ?_
    (fun _ _ ho => Or.inl ho) (fun _ hx => Or.inl hx) (fun _ he => Or.inl he)
    (fun _ _ ho => Or.inl ho) (fun _ hitem => Or.inl hitem)
  · simp only [hedges]
    exact h.callsNodup.append (List.nodup_singleton _) (by simpa using hfresh)
  · intro m hm
    simp only [hedges] at hm
    exact Or.inl hm
  · intro e' he'
    simp only [hedges, List.mem_append, List.mem_singleton] at he'
    rcases he' with hold | rfl
    · exact Or.inl hold
    · exact Or.inr ⟨he, call, hstmt, hkind⟩

theorem Supported.allocate (h : s.Supported p F) {loc : Location} {lhs : VarId} {ty : Ty}
    (hstmt : p.stmt? loc = some (.new lhs ty)) (hfresh : s.heap.at? loc = none) :
    ({ s with heap := (s.heap.allocate loc ty).1 } : State).Supported p F := by
  refine h.transfer (allocate_extends loc ty).grows h.pointersNodup
    (Heap.nodup_allocate h.sitesNodup hfresh) h.callsNodup (fun _ hm => Or.inl hm)
    (fun _ he => Or.inl he) ?_ (fun _ hx => Or.inl hx) (fun _ he => Or.inl he)
    (fun _ _ ho => Or.inl ho) (fun _ hitem => Or.inl hitem)
  intro o obj hobj
  rcases (Heap.obj?_allocate hfresh).1 hobj with hold | ⟨_, rfl⟩
  · exact Or.inl hold
  · exact Or.inr ⟨lhs, hstmt⟩

/-! ## §3 Propagations -/

/-- Taking an item from the worklist keeps support. -/
theorem Supported.polled (h : s.Supported p F) {item : WorkItem} {rest : Worklist}
    (hpoll : s.worklist.poll = some (item, rest)) : (s.polled rest).Supported p F :=
  { h with
    items := fun item' hitem =>
      h.items item' ((Worklist.mem_items_of_poll hpoll).2 (Or.inr hitem)) }

/-- **A propagation keeps support**: the objects of an item were supported at its node, and the flow
    rule supports them at the successors of the node. -/
theorem Supported.propagate (h : s.Supported p F) (hF : Closed p entry F) {item : WorkItem}
    {rest : Worklist} (hpoll : s.worklist.poll = some (item, rest)) (pointer : Pointer) :
    ((s.polled rest).propagate item.pointer pointer (s.newObjects item)).Supported p F := by
  have hitem : item ∈ s.worklist.items :=
    (Worklist.mem_items_of_poll hpoll).2 (Or.inl rfl)
  obtain ⟨hid, _, hobjects⟩ := h.items item hitem
  have hgrows := propagate_grows pointer hpoll hid
  have hnew : ∀ o ∈ s.newObjects item, s.MemberOk F item.pointer o := by
    intro o ho
    exact hobjects o (Ascending.mem_sdiff.1 ho).1
  refine h.transfer hgrows ?_ h.sitesNodup h.callsNodup (fun _ hm => Or.inl hm)
    (fun _ he => Or.inl he) (fun _ _ ho => Or.inl ho) ?_ (fun _ he => Or.inl he) ?_ ?_
  · exact (FlowGraph.pointerList_grow (g := s.flow)).symm ▸ h.pointersNodup
  · intro x hx
    exact Or.inl (FlowGraph.pointerList_grow (g := s.flow) ▸ hx)
  · intro id o ho
    rcases (FlowGraph.mem_objects_grow (g := s.flow) hid).1 ho with hold | ⟨rfl, hdelta⟩
    · exact Or.inl hold
    · exact Or.inr (hgrows.memberOk (hnew o hdelta))
  · intro item' hitem'
    rcases mem_items_propagate.1 hitem' with hold | ⟨hne, target, hedge, rfl⟩
    · exact Or.inl ((Worklist.mem_items_of_poll hpoll).2 (Or.inr hold))
    · refine Or.inr ?_
      obtain ⟨x, y, hx, hy, hflow⟩ := h.edges (item.pointer, target) hedge
      refine ⟨?_, hne, fun o ho => ?_⟩
      · obtain ⟨_, hpointer, _⟩ := placeOf?_eq_some_iff.1 hy
        exact Nat.lt_of_lt_of_le (FlowGraph.index_lt_of_pointer? hpointer) hgrows.size_le
      · -- the item was supported at the source, and the edge is a flow
        obtain ⟨x', site, hx', hsite, hfact⟩ := hnew o ho
        have hxx : x' = x := Option.some.inj (hx'.symm.trans hx)
        subst hxx
        exact hgrows.memberOk ⟨y, site, hy, hsite, hF _ (.flow hflow hfact)⟩

end State

end PointsTo
