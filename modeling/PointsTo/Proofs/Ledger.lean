import PointsTo.Proofs.Callees
import PointsTo.Proofs.Courses

/-!
# Where the work items come from

Every item that the analysis queues has a cause: an allocation, an edge that carries the objects of its
source, or a call that binds an object to the receiver of a method. The items of a run are entered into a
ledger with their causes. For one cause no object is entered twice, although an edge may be created before,
after or while the objects of its source arrive. So the number of propagations is at most the number of
causes, each counted with the objects that it may ship.

- `Cause`, `Shipment`: the entries of a ledger.
- `Cause.Justifies`: a cause calls for an item.
- `Balanced`: a ledger accounts for a list of items.
- `State.Course.balanced`: every course has a ledger.
- `Result.load`, `Balanced.length_le`: the bound.
- `Program.analyze_ledger`: the ledger of the analysis.
-/

namespace PointsTo

/-! ## §1 Ledgers -/

/-- Why an item is queued. -/
inductive Cause
  /-- The object of an allocation is sent to its variable. -/
  | allocation (site : Location)
  /-- Objects flow along an edge. -/
  | flow (source target : PointerId)
  /-- An object is bound to the receiver of a method that a call runs for it. -/
  | binding (site : Location) (receiver : ObjId)

/-- An item together with its cause. -/
structure Shipment where
  /-- Why the item is queued. -/
  cause : Cause
  /-- The item. -/
  item : WorkItem

/-- The objects, pointers, edges and visits that there are give a reason for an item. -/
def Cause.Justifies (p : Program) (heap : Heap) (flow : FlowGraph) (visited : Visit → Prop)
    (item : WorkItem) : Cause → Prop
  | allocation site => ∃ lhs ty o, p.stmt? site = some (.new lhs ty) ∧ heap.at? site = some o ∧
      flow.find? (.var lhs) = some item.pointer ∧ item.objects = Ascending.singleton o
  | .flow source target => (source, target) ∈ flow.edges ∧ item.pointer = target ∧
      ∀ o ∈ item.objects, o ∈ flow.objects source
  | binding site o => ∃ callee method self, visited ⟨site, o, some callee⟩ ∧
      p.method? callee = some method ∧ method.self = some self ∧
      flow.find? (.var self) = some item.pointer ∧ item.objects = Ascending.singleton o

/-- A ledger accounts for a list of items: each is entered with a cause that calls for it, and what is shipped
    for one cause is shipped once. -/
structure Balanced (p : Program) (heap : Heap) (flow : FlowGraph) (visited : Visit → Prop)
    (items : List WorkItem) (ledger : List Shipment) : Prop where
  items : (ledger.map Shipment.item).Perm items
  nonempty : ∀ x ∈ ledger, x.item.objects ≠ ∅
  justified : ∀ x ∈ ledger, x.cause.Justifies p heap flow visited x.item
  apart : ledger.Pairwise fun x y => x.cause = y.cause → ∀ o ∈ x.item.objects, o ∉ y.item.objects

namespace State

variable {p : Program} {entry : MethodId} {s t : State} {taken : List WorkItem} {visits : List Visit}
  {visited visited' : Visit → Prop} {ledger : List Shipment}

/-- A reason stays a reason. -/
theorem Grows.justifies (h : s.Grows t) (hvisited : ∀ x, visited x → visited' x) {item : WorkItem}
    {cause : Cause} (hs : cause.Justifies p s.heap s.flow visited item) :
    cause.Justifies p t.heap t.flow visited' item := by
  cases cause with
  | allocation site =>
    obtain ⟨lhs, ty, o, hstmt, hat, hfind, hobjects⟩ := hs
    exact ⟨lhs, ty, o, hstmt, Heap.at?_of_isPrefix h.heap hat,
      FlowGraph.find?_of_isPrefix h.pointers hfind, hobjects⟩
  | flow source target =>
    obtain ⟨hedge, hpointer, hobjects⟩ := hs
    exact ⟨h.edges _ hedge, hpointer, fun o ho => h.objects _ o (hobjects o ho)⟩
  | binding site o =>
    obtain ⟨callee, method, self, hvisit, hmethod, hself, hfind, hobjects⟩ := hs
    exact ⟨callee, method, self, hvisited _ hvisit, hmethod, hself,
      FlowGraph.find?_of_isPrefix h.pointers hfind, hobjects⟩

/-! ## §2 What changes enter -/

/-- The ledger accounts for the items that were taken and those that are queued. -/
def Books (p : Program) (taken : List WorkItem) (visits : List Visit) (ledger : List Shipment)
    (s : State) : Prop :=
  Balanced p s.heap s.flow (· ∈ visits) (taken ++ s.worklist.items) ledger

/-- A change has to enter what it queues, with causes that have not shipped any of it before. -/
theorem Books.enter (hs : Books p taken visits ledger s) (hgrows : s.Grows t) (x : List Visit)
    (new : List Shipment)
    (hitems : t.worklist.items = s.worklist.items ++ new.map Shipment.item)
    (hnonempty : ∀ y ∈ new, y.item.objects ≠ ∅)
    (hjustified : ∀ y ∈ new, y.cause.Justifies p t.heap t.flow (· ∈ visits ++ x) y.item)
    (hapart : new.Pairwise fun y z => y.cause = z.cause → ∀ o ∈ y.item.objects, o ∉ z.item.objects)
    (hold : ∀ y ∈ ledger, ∀ z ∈ new, y.cause = z.cause → ∀ o ∈ y.item.objects, o ∉ z.item.objects) :
    Books p taken (visits ++ x) (ledger ++ new) t where
  items := by
    rw [hitems, List.map_append, ← List.append_assoc]
    exact hs.items.append_right _
  nonempty y hy := (List.mem_append.1 hy).elim (hs.nonempty y) (hnonempty y)
  justified y hy := by
    rcases List.mem_append.1 hy with hmem | hmem
    · exact hgrows.justifies (fun _ hx => List.mem_append_left _ hx) (hs.justified y hmem)
    · exact hjustified y hmem
  apart := List.pairwise_append.2 ⟨hs.apart, hapart, hold⟩

/-- A change that queues nothing enters nothing. -/
theorem Books.idle (hs : Books p taken visits ledger s) (hgrows : s.Grows t) (x : List Visit)
    (hworklist : t.worklist = s.worklist) : ∃ ledger, Books p taken (visits ++ x) ledger t := by
  refine ⟨ledger ++ [], hs.enter hgrows x [] ?_ ?_ ?_ List.Pairwise.nil ?_⟩
  · rw [hworklist, List.map_nil, List.append_nil]
  · exact fun y hy => absurd hy List.not_mem_nil
  · exact fun y hy => absurd hy List.not_mem_nil
  · exact fun y _ z hz => absurd hz List.not_mem_nil

/-- A change that queues one item, or none if there is nothing to ship, enters that item. -/
theorem Books.ship (hs : Books p taken visits ledger s) (hgrows : s.Grows t) (x : List Visit)
    (cause : Cause) {id : PointerId} {objects : ObjSet}
    (hworklist : t.worklist = s.worklist.add id objects)
    (hjustified : cause.Justifies p t.heap t.flow (· ∈ visits ++ x) ⟨id, objects⟩)
    (hold : ∀ y ∈ ledger, y.cause = cause → ∀ o ∈ y.item.objects, o ∉ objects) :
    ∃ ledger, Books p taken (visits ++ x) ledger t := by
  by_cases hempty : objects.isEmpty
  · -- an empty set is not queued
    apply hs.idle hgrows x
    rw [hworklist, Worklist.add, if_pos hempty]
  · refine ⟨ledger ++ [⟨cause, ⟨id, objects⟩⟩], hs.enter hgrows x _ ?_ ?_ ?_ ?_ ?_⟩
    · rw [hworklist, Worklist.add, if_neg hempty]
      rfl
    · intro y hy
      rw [List.mem_singleton.1 hy]
      exact fun hnone => hempty (Ascending.isEmpty_iff.2 hnone)
    · intro y hy
      rw [List.mem_singleton.1 hy]
      exact hjustified
    · exact List.pairwise_singleton _ _
    · intro y hy z hz hcause
      rw [List.mem_singleton.1 hz] at hcause ⊢
      exact hold y hy hcause

/-- A new edge ships what its source points to, and has shipped nothing before. -/
theorem Books.connect (hs : Books p taken visits ledger s) (a b : Pointer) :
    ∃ ledger, Books p taken (visits ++ []) ledger (s.connect a b) := by
  have hgrows := (connect_extends (s := s) a b).grows
  by_cases hknown : (s.sourceOf a, s.targetOf a b) ∈ s.flow.edges
  · apply hs.idle hgrows
    rw [connect_eq]
    simp [FlowGraph.hasEdge, hknown]
  · have hworklist : (s.connect a b).worklist =
        s.worklist.add (s.targetOf a b) (s.flow.objects (s.sourceOf a)) := by
      rw [connect_eq]
      simp [FlowGraph.hasEdge, hknown]
    apply hs.ship hgrows [] (.flow (s.sourceOf a) (s.targetOf a b)) hworklist
    · refine ⟨mem_edges_connect.2 (Or.inl rfl), rfl, fun o ho => ?_⟩
      rw [objects_connect]
      exact ho
    · -- only edges that exist have shipped something
      intro y hy hcause
      have hjustified := hs.justified y hy
      rw [hcause] at hjustified
      exact absurd hjustified.1 hknown

/-- A new object is sent to its variable. -/
theorem Books.spawn (hs : Books p taken visits ledger s) {loc : Location} {lhs : VarId} {ty : Ty}
    (hstmt : p.stmt? loc = some (.new lhs ty)) (hfresh : s.heap.at? loc = none) :
    ∃ ledger, Books p taken (visits ++ []) ledger
      ({ s with heap := (s.heap.allocate loc ty).1 }.feed (.var lhs)
        (Ascending.singleton (s.heap.allocate loc ty).2)) := by
  have hgrows := (Move.spawn hstmt hfresh).extends.grows
  have hworklist : ({ s with heap := (s.heap.allocate loc ty).1 }.feed (.var lhs)
      (Ascending.singleton (s.heap.allocate loc ty).2)).worklist =
        s.worklist.add (s.flow.intern (.var lhs)).2
          (Ascending.singleton (s.heap.allocate loc ty).2) := rfl
  apply hs.ship hgrows [] (.allocation loc) hworklist
  · exact ⟨lhs, ty, _, hstmt, Heap.at?_allocate s.heap loc ty,
      FlowGraph.find?_intern s.flow (.var lhs), rfl⟩
  · intro y hy hcause
    have hjustified := hs.justified y hy
    rw [hcause] at hjustified
    obtain ⟨_, _, o, _, hat, _⟩ := hjustified
    rw [hfresh] at hat
    contradiction

/-- An object is bound once for a call, since it visits the call once. -/
theorem Books.bind (hs : Books p taken visits ledger s) {x : Visit} {callee : MethodId}
    (htarget : x.target = some callee) (hnodup : ((visits ++ [x]).map Visit.key).Nodup) :
    ∃ ledger, Books p taken (visits ++ [x]) ledger (s.bindReceiver p callee x.receiver) := by
  have hgrows := (bindReceiver_extends (p := p) (s := s) callee x.receiver).grows
  unfold bindReceiver at hgrows ⊢
  split at hgrows
  · exact hs.idle hgrows [x] rfl
  · rename_i self hself
    obtain ⟨method, hmethod, hvar⟩ := Option.bind_eq_some_iff.1 hself
    have hworklist : (s.feed (.var self) (Ascending.singleton x.receiver)).worklist =
        s.worklist.add (s.flow.intern (.var self)).2 (Ascending.singleton x.receiver) := rfl
    apply hs.ship hgrows [x] (.binding x.site x.receiver) hworklist
    · have hmem : (⟨x.site, x.receiver, some callee⟩ : Visit) ∈ visits ++ [x] := by
        rw [← htarget]
        exact List.mem_append_right _ List.mem_cons_self
      exact ⟨callee, method, self, hmem, hmethod, hvar, FlowGraph.find?_intern s.flow (.var self), rfl⟩
    · intro y hy hcause
      have hjustified := hs.justified y hy
      rw [hcause] at hjustified
      obtain ⟨callee', _, _, hvisit, _⟩ := hjustified
      -- an earlier binding would be due to an earlier visit
      rw [List.map_append, List.nodup_append] at hnodup
      exact absurd rfl (hnodup.2.2 x.key (List.mem_map.2 ⟨_, hvisit, rfl⟩) x.key List.mem_cons_self)

theorem worklist_reach {m : MethodId} : (s.reach m).worklist = s.worklist := by
  by_cases hm : m ∈ s.calls.methods
  · rw [reach_of_mem hm]
  · rw [reach_of_not_mem hm]
    rfl

theorem Books.move (hs : Books p taken visits ledger s) {x : List Visit} (h : Move p s x t)
    (hnodup : ((visits ++ x).map Visit.key).Nodup) :
    ∃ ledger, Books p taken (visits ++ x) ledger t := by
  have hgrows := h.extends.grows
  -- edges, objects and bindings queue items, and nothing else does
  cases h with
  | pop _ => exact hs.idle hgrows [] rfl
  | mention _ => exact hs.idle hgrows [] rfl
  | connect a b => exact hs.connect a b
  | reach _ => exact hs.idle hgrows [] worklist_reach
  | record _ _ _ => exact hs.idle hgrows [] rfl
  | unresolved _ _ => exact hs.idle hgrows [] rfl
  | spawn hstmt hfresh => exact hs.spawn hstmt hfresh
  | miss _ _ => exact hs.idle hgrows _ rfl
  | bind _ htarget => exact hs.bind htarget hnodup

/-! ## §3 What propagations enter -/

/-- An item that is taken stays in the ledger. -/
theorem Books.polled (hs : Books p taken visits ledger s) {item : WorkItem} {rest : Worklist}
    (hpoll : s.worklist.poll = some (item, rest)) :
    Books p (taken ++ [item]) visits ledger (s.polled rest) := by
  refine { hs with items := hs.items.trans ?_ }
  have hperm := Worklist.items_perm_of_poll hpoll
  rw [List.append_assoc]
  exact hperm.append_left taken

theorem items_foldl_add {targets : List PointerId} {delta : ObjSet} {w : Worklist} (hne : delta ≠ ∅) :
    (targets.foldl (fun w target => w.add target delta) w).items =
      w.items ++ targets.map fun target => ⟨target, delta⟩ := by
  induction targets generalizing w with
  | nil => simp
  | cons target rest ih =>
    have hfirst : (w.add target delta).items = w.items ++ [⟨target, delta⟩] := by
      rw [Worklist.add, if_neg fun hempty => hne (Ascending.isEmpty_iff.1 hempty)]
    rw [List.foldl_cons, ih, hfirst, List.append_assoc]
    rfl

theorem nodup_successors (g : FlowGraph) (id : PointerId) : (g.successors id).Nodup := by
  refine (Ascending.nodup_toList g.edges).filterMap ?_
  rintro ⟨a, b⟩ ⟨a', b'⟩ target htarget htarget'
  simp only [Option.mem_def, Option.ite_none_right_eq_some, Option.some.injEq] at htarget htarget'
  rw [htarget.1, htarget.2, htarget'.1, htarget'.2]

/-- The shipments of objects along the edges that leave a node. -/
def carried (g : FlowGraph) (id : PointerId) (delta : ObjSet) : List Shipment :=
  (g.successors id).map fun target => ⟨.flow id target, ⟨target, delta⟩⟩

/-- **A propagation ships what is new**: along the edges that leave a node it sends objects that the node did
    not have, and whatever was shipped along them before, the node had. -/
theorem Books.propagate (hs : Books p taken visits ledger s) {item : WorkItem} {rest : Worklist}
    {pointer : Pointer} (hpoll : s.worklist.poll = some (item, rest))
    (hfind : s.flow.find? pointer = some item.pointer) (hne : s.newObjects item ≠ ∅) :
    ∃ ledger, Books p (taken ++ [item]) visits ledger
      ((s.polled rest).propagate item.pointer pointer (s.newObjects item)) := by
  have hid := FlowGraph.index_lt_of_pointer? (FlowGraph.pointer?_of_find? hfind)
  have hgrows : (s.polled rest).Grows
      ((s.polled rest).propagate item.pointer pointer (s.newObjects item)) :=
    { propagate_grows pointer hpoll hid with
      due := fun id o hdue => propagate_due (s := s.polled rest) hid (Or.inl hdue) }
  refine ⟨ledger ++ carried s.flow item.pointer (s.newObjects item), ?_⟩
  rw [← List.append_nil visits]
  apply (hs.polled hpoll).enter hgrows []
  · rw [carried, List.map_map]
    exact items_foldl_add hne
  · intro y hy
    obtain ⟨target, _, rfl⟩ := List.mem_map.1 hy
    exact hne
  · intro y hy
    obtain ⟨target, htarget, rfl⟩ := List.mem_map.1 hy
    refine ⟨FlowGraph.hasEdge_iff.1 (FlowGraph.mem_successors.1 htarget), rfl, fun o ho => ?_⟩
    exact (FlowGraph.mem_objects_grow (g := s.flow) hid).2 (Or.inr ⟨rfl, ho⟩)
  · -- different successors are reached along different edges
    refine List.pairwise_map.2 ((nodup_successors s.flow item.pointer).imp ?_)
    intro a b hab hcause
    exact absurd (Cause.flow.inj hcause).2 hab
  · -- earlier shipments along an edge were at its source, and new objects were not
    intro y hy z hz hcause o ho hnew
    obtain ⟨target, _, rfl⟩ := List.mem_map.1 hz
    have hjustified := hs.justified y hy
    rw [hcause] at hjustified
    exact (Ascending.mem_sdiff.1 hnew).2 (hjustified.2.2 o ho)

/-- **Every course has a ledger**, provided that no visit is paid twice. -/
theorem Course.balanced (h : Course p s taken visits t) (hnodup : (visits.map Visit.key).Nodup)
    (hs : Books p [] [] [] s) : ∃ ledger, Books p taken visits ledger t := by
  induction h with
  | start => exact ⟨[], hs⟩
  | move _ hmove ih =>
    have hbefore := hnodup
    rw [List.map_append] at hbefore
    obtain ⟨ledger, hbooks⟩ := ih hbefore.of_append_left
    exact hbooks.move hmove hnodup
  | drop _ hpoll _ ih =>
    obtain ⟨ledger, hbooks⟩ := ih hnodup
    exact ⟨ledger, hbooks.polled hpoll⟩
  | propagate _ hpoll hfind hne ih =>
    obtain ⟨ledger, hbooks⟩ := ih hnodup
    exact hbooks.propagate hpoll hfind hne

theorem blank_books (order : WorkOrder) : Books p [] [] [] (blank order entry) where
  items := List.Perm.refl _
  nonempty _ hy := absurd hy List.not_mem_nil
  justified _ hy := absurd hy List.not_mem_nil
  apart := List.Pairwise.nil

end State

/-! ## §4 The bound -/

/-- The instance calls of a method, with their receivers. -/
def Program.instanceCalls (p : Program) (m : MethodId) : List (Location × VarId) :=
  (p.statementsOf m).filterMap fun
    | (loc, .invoke call) => if call.kind = .static then none else call.receiver.map (loc, ·)
    | _ => none

theorem Program.mem_instanceCalls {p : Program} {loc : Location} {call : Invoke} {v : VarId}
    (hstmt : p.stmt? loc = some (.invoke call)) (hkind : call.kind ≠ .static)
    (hreceiver : call.receiver = some v) : (loc, v) ∈ p.instanceCalls loc.method := by
  have hloc : loc ∈ p.locationsOf loc.method := mem_locationsOf.2 ⟨rfl, _, hstmt⟩
  obtain ⟨⟨_, stmt⟩, hmem, rfl⟩ := List.mem_map.1 hloc
  have hsame : stmt = .invoke call := Option.some.inj ((mem_statementsOf hmem).2.symm.trans hstmt)
  subst hsame
  exact List.mem_filterMap.2 ⟨_, hmem, by simp [hkind, hreceiver]⟩

/-- The objects of a shipment, each with the cause of the shipment. -/
def Shipment.loads (x : Shipment) : List (Cause × ObjId) := x.item.objects.toList.map (x.cause, ·)

namespace Result

variable {p : Program} {r : Result} {items : List WorkItem} {ledger : List Shipment}

/-- What there is to ship: every object for its allocation, the objects at the source of an edge for the edge,
    and the objects at the receiver of an instance call for the call. -/
def dues (r : Result) (p : Program) : List (Cause × ObjId) :=
  r.heap.ids.filterMap (fun o => (r.heap.site? o).map fun site => (.allocation site, o))
    ++ r.flow.edges.toList.flatMap (fun e =>
      (r.flow.objects e.1).toList.map fun o => (.flow e.1 e.2, o))
    ++ (r.calls.methods.flatMap p.instanceCalls).flatMap (fun c =>
      (r.pointsTo (.var c.2)).toList.map fun o => (.binding c.1 o, o))

/-- The number of objects, of objects at the sources of the edges, and of objects at the receivers of the
    instance calls of reachable methods. -/
def load (r : Result) (p : Program) : Nat :=
  r.heap.size + (r.flow.edges.toList.map fun e => (r.flow.objects e.1).size).sum
    + ((r.calls.methods.flatMap p.instanceCalls).map fun c => (r.pointsTo (.var c.2)).size).sum

theorem length_dues_le : (r.dues p).length ≤ r.load p := by
  have hobjects := List.length_filterMap_le
    (fun o => (r.heap.site? o).map fun site => (Cause.allocation site, o)) r.heap.ids
  have hsize : r.heap.ids.length = r.heap.size := by simp [Heap.ids, Id.below]
  simp only [dues, load, Ascending.size, List.length_append, List.length_flatMap, List.length_map]
  omega

/-- What is shipped is due. -/
theorem mem_dues (h : Balanced p r.heap r.flow (r.Visited p) items ledger) {x : Shipment}
    (hx : x ∈ ledger) {o : ObjId} (ho : o ∈ x.item.objects) : (x.cause, o) ∈ r.dues p := by
  have hjustified := h.justified x hx
  unfold dues
  cases hcause : x.cause with
  | allocation site =>
    rw [hcause] at hjustified
    obtain ⟨_, _, o', _, hat, _, hobjects⟩ := hjustified
    rw [hobjects] at ho
    obtain rfl := Ascending.mem_singleton.1 ho
    obtain ⟨obj, hobj, rfl⟩ := Heap.exists_obj?_of_at? hat
    refine List.mem_append_left _ (List.mem_append_left _ (List.mem_filterMap.2 ⟨o, ?_, ?_⟩))
    · exact Id.mem_below.2 (Array.getElem?_eq_some_iff.1 hobj).1
    · rw [Heap.site?_of_obj? hobj]
      rfl
  | flow source target =>
    rw [hcause] at hjustified
    obtain ⟨hedge, _, hobjects⟩ := hjustified
    refine List.mem_append_left _ (List.mem_append_right _ (List.mem_flatMap.2 ⟨_, hedge, ?_⟩))
    exact List.mem_map.2 ⟨o, hobjects o ho, rfl⟩
  | binding site receiver =>
    rw [hcause] at hjustified
    obtain ⟨_, _, _, ⟨hmethod, call, v, _, hstmt, hkind, hreceiver, hmem, _⟩, _, _, _, hobjects⟩ :=
      hjustified
    rw [hobjects] at ho
    obtain rfl := Ascending.mem_singleton.1 ho
    refine List.mem_append_right _ (List.mem_flatMap.2 ⟨(site, v), ?_, ?_⟩)
    · exact List.mem_flatMap.2 ⟨_, hmethod, Program.mem_instanceCalls hstmt hkind hreceiver⟩
    · exact List.mem_map.2 ⟨o, hmem, rfl⟩

end Result

namespace Balanced

variable {p : Program} {heap : Heap} {flow : FlowGraph} {visited : Visit → Prop}
  {items : List WorkItem} {ledger : List Shipment}

/-- No object is shipped twice for one cause. -/
theorem nodup_loads (h : Balanced p heap flow visited items ledger) :
    (ledger.flatMap Shipment.loads).Nodup := by
  rw [List.nodup_flatMap]
  constructor
  · intro x _
    exact (Ascending.nodup_toList _).map fun a b hab => (Prod.mk.inj hab).2
  · refine h.apart.imp fun hxy load hx hy => ?_
    obtain ⟨o, ho, rfl⟩ := List.mem_map.1 hx
    obtain ⟨o', ho', heq⟩ := List.mem_map.1 hy
    obtain ⟨hcause, rfl⟩ := Prod.mk.inj heq
    exact hxy hcause.symm _ ho ho'

/-- Every shipment ships something. -/
theorem length_le_loads (h : Balanced p heap flow visited items ledger) :
    ledger.length ≤ (ledger.flatMap Shipment.loads).length := by
  have hpos : ∀ n ∈ ledger.map fun x => x.loads.length, 1 ≤ n := by
    intro n hn
    obtain ⟨x, hx, rfl⟩ := List.mem_map.1 hn
    rw [Shipment.loads, List.length_map]
    exact Ascending.size_pos (h.nonempty x hx)
  rw [List.length_flatMap, ← List.length_map fun x : Shipment => x.loads.length]
  exact List.length_le_sum_of_one_le _ hpos

/-- **The bound**: there are at most as many items as there are objects to ship for all causes. -/
theorem length_le {r : Result} (h : Balanced p r.heap r.flow (r.Visited p) items ledger) :
    items.length ≤ r.load p := by
  have hdues : ∀ load ∈ ledger.flatMap Shipment.loads, load ∈ r.dues p := by
    intro load hload
    obtain ⟨x, hx, hload⟩ := List.mem_flatMap.1 hload
    obtain ⟨o, ho, rfl⟩ := List.mem_map.1 hload
    exact Result.mem_dues h hx ho
  calc items.length = ledger.length := by rw [← h.items.length_eq, List.length_map]
    _ ≤ (ledger.flatMap Shipment.loads).length := h.length_le_loads
    _ ≤ (r.dues p).length := length_le_of_subset h.nodup_loads hdues
    _ ≤ r.load p := Result.length_dues_le

end Balanced

/-! ## §5 The analysis -/

namespace Program

variable {p : Program} {entry : MethodId}

theorem solve_balanced (hp : p.WellFormed) (hentry : entry.index < p.methods.size) (order : WorkOrder) :
    (p.taken order entry).length = (p.solve order entry).iterations ∧
      ∃ ledger, Balanced p (p.solve order entry).heap (p.solve order entry).flow
        ((p.solve order entry).result.Visited p) (p.taken order entry) ledger := by
  obtain ⟨visits, hcourse, honce, hvisited⟩ := solve_course hp hentry order
  obtain ⟨ledger, hbooks⟩ := hcourse.balanced honce (State.blank_books order)
  constructor
  · rw [hcourse.iterations]
    exact (Nat.zero_add _).symm
  · -- nothing is queued in the end, so the ledger accounts for the items that were taken
    have hfinished := solve_finished hp (Derivable.closed p entry) hentry order
    have hitems := hbooks.items
    rw [hfinished.worklist, List.append_nil] at hitems
    refine ⟨ledger, hitems, hbooks.nonempty, fun x hx => ?_, hbooks.apart⟩
    exact (State.Grows.refl _).justifies (fun y hy => (hvisited y).1 hy) (hbooks.justified x hx)

/-- **Ledgers**: the analysis of a built program does at most as many propagations as there are objects,
    objects at the sources of edges and objects at the receivers of instance calls of reachable methods. For
    the items that it takes have a ledger: each item is shipped for an allocation, along an edge or for an
    object that visits a call, and no object is shipped twice for one cause. -/
theorem analyze_ledger (hp : p.Built) (hmain : p.main = some entry) (options : Options) :
    ∃ run, p.analyze options = .ok run ∧ run.result.iterations ≤ run.result.load p ∧
      (p.taken options.order entry).length = run.result.iterations ∧
      ∃ ledger, Balanced p run.result.heap run.result.flow (run.result.Visited p)
        (p.taken options.order entry) ledger := by
  have hwell := hp.wellFormed
  obtain ⟨run, hrun, hresult⟩ := analyze_eq hmain options
  obtain ⟨hlength, ledger, hbalanced⟩ :=
    solve_balanced hwell (hwell.mainExists hmain) options.order
  refine ⟨run, hrun, ?_⟩
  rw [hresult]
  refine ⟨?_, hlength, ledger, hbalanced⟩
  show (p.solve options.order entry).iterations ≤ _
  rw [← hlength]
  exact Balanced.length_le (r := (p.solve options.order entry).result) hbalanced

/-- Two calls have no target for the array, so nothing is bound for them. -/
theorem counts_greeter {order : WorkOrder} (horder : order = .lifo) :
    (greeter.solve order ⟨2⟩).result.iterations = 8 ∧
      (greeter.solve order ⟨2⟩).result.load greeter = 10 := by
  subst horder
  decide +kernel

theorem analyze_ledger_greeter :
    ∃ run, greeter.analyze { order := .lifo } = .ok run ∧
      (run.result.iterations = 8 ∧ run.result.load greeter = 10) ∧
      run.result.iterations ≤ run.result.load greeter ∧
      (greeter.taken .lifo ⟨2⟩).length = run.result.iterations ∧
      ∃ ledger, Balanced greeter run.result.heap run.result.flow (run.result.Visited greeter)
        (greeter.taken .lifo ⟨2⟩) ledger := by
  obtain ⟨run, hrun, hledger⟩ := analyze_ledger greeter_built greeter_main { order := .lifo }
  obtain ⟨run', hrun', hresult⟩ := analyze_eq greeter_main { order := .lifo }
  cases hrun.symm.trans hrun'
  refine ⟨run, hrun, ?_, hledger⟩
  rw [hresult]
  exact counts_greeter rfl

end Program

end PointsTo
