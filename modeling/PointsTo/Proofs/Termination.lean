import Mathlib.Algebra.BigOperators.Group.List.Basic
import Mathlib.Algebra.GroupWithZero.Nat
import Mathlib.Data.List.ProdSigma
import PointsTo.Proofs.Operations

/-!
# The analysis stays within its bounds

Every item of the worklist has been paid for. An object that is created pays for the item that sends it
to its variable, an object at the source of an edge pays for the item that sends it along the edge, and
an object at the receiver of a call pays for the item that binds it. What a state has to pay with is its
credit; the credit only grows, and the items taken and queued never exceed it. Since the program bounds
the credit, it bounds the number of propagations.

- `State.Affords`: the invariant.
- `State.Actions.affords`, `State.propagate_affords`: actions and propagations keep it.
- `State.Supported.credit_le`: the credit is bounded by the program.
-/

namespace PointsTo

/-! ## §1 Counting -/

section Counting

variable {α : Type}

/-- A list without repetitions is no longer than a list that has all of its members. -/
theorem length_le_of_subset {l l' : List α} (hnodup : l.Nodup) (hsub : ∀ x ∈ l, x ∈ l') :
    l.length ≤ l'.length :=
  (List.subperm_of_subset hnodup hsub).length_le

theorem sum_map_le {l : List α} {f : α → Nat} (bound : Nat) (h : ∀ x ∈ l, f x ≤ bound) :
    (l.map f).sum ≤ l.length * bound := by
  induction l with
  | nil => simp
  | cons x rest ih =>
    have hx := h x List.mem_cons_self
    have hrest := ih fun y hy => h y (List.mem_cons_of_mem x hy)
    rw [List.map_cons, List.sum_cons, List.length_cons, Nat.succ_mul]
    omega

theorem sum_map_gain {l : List α} {f g : α → Nat} {P : α → Bool} {gain : Nat}
    (h : ∀ x ∈ l, g x = f x + if P x then gain else 0) :
    (l.map g).sum = (l.map f).sum + gain * l.countP P := by
  induction l with
  | nil => simp
  | cons x rest ih =>
    have hx := h x List.mem_cons_self
    have hrest := ih fun y hy => h y (List.mem_cons_of_mem x hy)
    rw [List.map_cons, List.sum_cons, List.map_cons, List.sum_cons, List.countP_cons, hrest, hx]
    cases P x
    · simp [Nat.add_assoc]
    · simp only [if_true, Nat.mul_add, Nat.mul_one]
      omega

namespace Ascending

variable [Ranked α] {s t : Ascending α} {a : α}

theorem nodup_toList (s : Ascending α) : s.toList.Nodup := by
  refine s.sorted.imp fun hbefore heq => ?_
  subst heq
  exact Ranked.Before.irrefl _ hbefore

theorem perm_insert (h : a ∉ s) : (s.insert a).toList.Perm (a :: s.toList) := by
  refine (List.perm_ext_iff_of_nodup (nodup_toList _) ?_).2 fun x => ?_
  · exact List.nodup_cons.2 ⟨h, nodup_toList s⟩
  · rw [List.mem_cons]
    exact mem_insert

theorem size_union (h : ∀ a ∈ t, a ∉ s) : (s.union t).size = s.size + t.size := by
  have hdisjoint : (s.toList ++ t.toList).Nodup :=
    (nodup_toList s).append (nodup_toList t) fun a hs ht => h a ht hs
  -- both lists have the same members, each once
  have hperm : (s.union t).toList.Perm (s.toList ++ t.toList) := by
    refine (List.perm_ext_iff_of_nodup (nodup_toList _) hdisjoint).2 fun x => ?_
    rw [List.mem_append]
    exact mem_union
  simpa [size] using hperm.length_eq

theorem size_pos (h : s ≠ ∅) : 0 < s.size := by
  rw [Nat.pos_iff_ne_zero]
  intro hzero
  exact h (isEmpty_iff.1 (List.isEmpty_iff.2 (List.length_eq_zero_iff.1 hzero)))

end Ascending

end Counting

/-! ## §2 Credit -/

/-- The receiver of a call. -/
def Stmt.receiver? : Stmt → Option VarId
  | invoke call => call.receiver
  | _ => none

/-- The receivers of the calls of the program. -/
def Program.receivers (p : Program) : List VarId :=
  p.statements.filterMap fun (_, stmt) => stmt.receiver?

theorem Program.countP_receivers {p : Program} {v : VarId} :
    p.receivers.countP (· = v) = (p.accessSites v .invoke).length := by
  rw [receivers, List.countP_filterMap, accessSites, List.length_map, ← List.countP_eq_length_filter]
  apply List.countP_congr
  rintro ⟨_, stmt⟩ _
  cases stmt with
  | invoke call => cases hr : call.receiver <;> simp [Stmt.receiver?, Stmt.access?, hr]
  | loadField _ base _ => cases base <;> simp [Stmt.receiver?, Stmt.access?]
  | storeField base _ _ => cases base <;> simp [Stmt.receiver?, Stmt.access?]
  | _ => simp [Stmt.receiver?, Stmt.access?]

namespace State

variable {p : Program} {F : Fact → Prop} {entry : MethodId} {s t u : State}

/-- The objects at the sources of the edges. -/
def edgeLoad (s : State) : Nat :=
  (s.flow.edges.toList.map fun e => (s.flow.objects e.1).size).sum

/-- The objects at the receivers of the calls. -/
def callLoad (p : Program) (s : State) : Nat :=
  (p.receivers.map fun v => (s.flow.pointsTo (.var v)).size).sum

/-- What a state has to pay for propagations with. -/
def credit (p : Program) (s : State) : Nat :=
  s.heap.size + s.edgeLoad + s.callLoad p

/-- The propagations done, those queued and a reserve are paid for. -/
def Affords (p : Program) (s : State) (reserve : Nat) : Prop :=
  s.iterations + s.worklist.size + reserve ≤ s.credit p

/-- An extension leaves the points-to set of every pointer as it is. -/
theorem Extends.pointsTo (h : s.Extends t) (pointer : Pointer) :
    t.flow.pointsTo pointer = s.flow.pointsTo pointer := by
  apply Ascending.ext_mem
  intro o
  rw [FlowGraph.mem_pointsTo, FlowGraph.mem_pointsTo]
  constructor
  · rintro ⟨id, hfind, ho⟩
    rw [h.objects] at ho
    -- a node with objects is not new, so its pointer was known under the same identifier
    obtain ⟨pointer', hpointer'⟩ :=
      FlowGraph.exists_pointer?_of_lt (FlowGraph.index_lt_of_mem_objects ho)
    have hsame := FlowGraph.pointer?_of_isPrefix h.pointers hpointer'
    rw [FlowGraph.pointer?_of_find? hfind, Option.some.injEq] at hsame
    subst hsame
    obtain ⟨id', hfind'⟩ :=
      FlowGraph.exists_find?_of_mem (FlowGraph.mem_pointerList_of_pointer? hpointer')
    have hid := FlowGraph.find?_of_isPrefix h.pointers hfind'
    rw [hfind, Option.some.injEq] at hid
    subst hid
    exact ⟨id, hfind', ho⟩
  · rintro ⟨id, hfind, ho⟩
    exact ⟨id, FlowGraph.find?_of_isPrefix h.pointers hfind, by rwa [h.objects]⟩

theorem Extends.callLoad (h : s.Extends t) : t.callLoad p = s.callLoad p := by
  unfold State.callLoad
  simp only [h.pointsTo]

theorem Extends.edgeLoad (h : s.Extends t) (hedges : t.flow.edges = s.flow.edges) :
    t.edgeLoad = s.edgeLoad := by
  unfold State.edgeLoad
  rw [hedges]
  simp only [h.objects]

theorem Extends.credit (h : s.Extends t) (hedges : t.flow.edges = s.flow.edges) :
    t.credit p = t.heap.size + s.edgeLoad + s.callLoad p := by
  unfold State.credit
  rw [h.edgeLoad hedges, h.callLoad]

/-- The first state can pay for the second one with the help of a charge. -/
def Pays (p : Program) (charge : Nat) (s t : State) : Prop :=
  t.worklist.size + s.credit p ≤ s.worklist.size + t.credit p + charge

theorem Pays.trans {m n : Nat} (h : Pays p m s t) (h' : Pays p n t u) : Pays p (m + n) s u := by
  unfold Pays at h h' ⊢
  omega

theorem size_add_le_size {w : Worklist} {id : PointerId} {objects : ObjSet} :
    (w.add id objects).size ≤ w.size + objects.size := by
  unfold Worklist.add
  split
  · exact Nat.le_add_right _ _
  · rename_i hne
    have hpos := Ascending.size_pos fun hempty => hne (Ascending.isEmpty_iff.2 hempty)
    simp only [Worklist.size, List.length_append, List.length_singleton]
    omega

/-- The objects that a new edge carries at once are at its source. -/
theorem connect_pays (a b : Pointer) : Pays p 0 s (s.connect a b) := by
  have hext := connect_extends (s := s) a b
  -- objects and calls pay nothing here, so only the edges and the worklist are compared
  unfold Pays credit
  rw [hext.callLoad, heap_connect]
  by_cases hknown : (s.sourceOf a, s.targetOf a b) ∈ s.flow.edges
  · have hedges : (s.connect a b).flow.edges = s.flow.edges := by
      apply Ascending.ext_mem
      intro e
      rw [mem_edges_connect]
      exact ⟨fun he => he.elim (fun heq => heq ▸ hknown) fun he => he, Or.inr⟩
    rw [hext.edgeLoad hedges, connect_eq]
    simp [FlowGraph.hasEdge, hknown]
  · have hperm : (s.connect a b).flow.edges.toList.Perm
        ((s.sourceOf a, s.targetOf a b) :: s.flow.edges.toList) := by
      rw [connect_eq]
      simp only [FlowGraph.addEdge, FlowGraph.edges_intern]
      exact Ascending.perm_insert hknown
    have hload : (s.connect a b).edgeLoad =
        (s.flow.objects (s.sourceOf a)).size + s.edgeLoad := by
      unfold edgeLoad
      simp only [hext.objects]
      rw [(hperm.map _).sum_eq, List.map_cons, List.sum_cons]
    have hsize : (s.connect a b).worklist.size ≤
        s.worklist.size + (s.flow.objects (s.sourceOf a)).size := by
      rw [connect_eq]
      simp only [FlowGraph.hasEdge, hknown, decide_false, Bool.false_eq_true, if_false]
      exact size_add_le_size
    rw [hload]
    omega

theorem Wiring.pays (h : Wiring p F s t) : Pays p 0 s t := by
  induction h with
  | refl => exact Nat.le_refl _
  | @mention t pointer _ _ ih =>
    refine ih.trans (n := 0) ?_
    unfold Pays
    rw [(mention_extends pointer).credit edges_mention]
    exact Nat.le_refl _
  | connect _ _ ih => exact ih.trans (connect_pays _ _)

theorem Action.pays {n : Nat} (h : Action p F n s t) : Pays p n s t := by
  cases h with
  | note e => exact Nat.le_refl _
  | wire hwiring => exact hwiring.pays
  | @feed _ pointer o _ =>
    have hsize : (s.feed pointer (Ascending.singleton o)).worklist.size ≤ s.worklist.size + 1 :=
      Worklist.size_add_le
    unfold Pays
    rw [(feed_extends pointer _).credit edges_feed]
    show _ ≤ s.worklist.size + s.credit p + 1
    omega
  | @reach _ m _ _ =>
    by_cases hm : m ∈ s.calls.methods
    · rw [reach_of_mem hm]
      exact Nat.le_refl _
    · rw [reach_of_not_mem hm]
      exact Nat.le_refl _
  | call _ _ _ _ _ _ hwiring _ => exact hwiring.pays
  | @spawn _ loc lhs ty _ _ _ _ _ hfresh =>
    -- the new object pays for the item that sends it to its variable
    have hext := (allocate_extends (s := s) loc ty).trans (feed_extends (.var lhs)
      (Ascending.singleton (s.heap.allocate loc ty).2))
    have hsize : (({ s with heap := (s.heap.allocate loc ty).1 } : State).feed (.var lhs)
        (Ascending.singleton (s.heap.allocate loc ty).2)).worklist.size ≤ s.worklist.size + 1 :=
      Worklist.size_add_le
    have hheap : (s.heap.allocate loc ty).1.size = s.heap.size + 1 := by
      simp [Heap.allocate_fresh hfresh, Heap.size]
    unfold Pays
    rw [hext.credit edges_feed]
    show _ ≤ s.worklist.size + ((s.heap.allocate loc ty).1.size + s.edgeLoad + s.callLoad p) + 0
    rw [hheap]
    unfold credit
    omega

/-- **Actions are paid for**: what they queue beyond their charge, they earn. -/
theorem Actions.affords {n reserve : Nat} (h : Actions p F s n t) (hs : s.Affords p (n + reserve)) :
    t.Affords p reserve := by
  have hiterations := h.extends.iterations
  have hpays : Pays p n s t := by
    clear hs hiterations
    induction h with
    | refl n => exact Nat.le_add_right _ n
    | step _ haction ih => exact ih.trans haction.pays
  unfold Affords Pays at *
  omega

/-! ## §3 Propagations -/

theorem size_foldl_add_le {targets : List PointerId} {delta : ObjSet} {w : Worklist} :
    (targets.foldl (fun w target => w.add target delta) w).size ≤ w.size + targets.length := by
  induction targets generalizing w with
  | nil => exact Nat.le_refl _
  | cons target rest ih =>
    have hfirst : (w.add target delta).size ≤ w.size + 1 := Worklist.size_add_le
    have hrest := ih (w := w.add target delta)
    rw [List.foldl_cons, List.length_cons]
    omega

theorem length_successors {g : FlowGraph} {id : PointerId} :
    (g.successors id).length = g.edges.toList.countP (·.1 = id) := by
  rw [FlowGraph.successors, List.length_filterMap_eq_countP]
  apply List.countP_congr
  rintro ⟨source, target⟩ _
  by_cases hsource : source = id <;> simp [hsource]

theorem objects_grow_of_ne {g : FlowGraph} {id id' : PointerId} {delta : ObjSet} (h : id' ≠ id) :
    (g.grow id delta).objects id' = g.objects id' := by
  simp [FlowGraph.objects, FlowGraph.objects?_grow, Ne.symm h]

theorem size_objects_grow {g : FlowGraph} {id : PointerId} {delta : ObjSet}
    (hid : id.index < g.size) (hnew : ∀ o ∈ delta, o ∉ g.objects id) :
    ((g.grow id delta).objects id).size = (g.objects id).size + delta.size := by
  rw [← Ascending.size_union hnew]
  congr 1
  apply Ascending.ext_mem
  intro o
  rw [FlowGraph.mem_objects_grow hid, Ascending.mem_union]
  simp

theorem find?_grow {g : FlowGraph} {id : PointerId} {delta : ObjSet} {pointer : Pointer} :
    (g.grow id delta).find? pointer = g.find? pointer := by
  rw [FlowGraph.find?_eq, FlowGraph.find?_eq, FlowGraph.pointerList_grow]

/-- Growing the node of a pointer grows the points-to set of that pointer and of no other. -/
theorem size_pointsTo_grow {g : FlowGraph} {id : PointerId} {delta : ObjSet} {pointer x : Pointer}
    (hnodup : g.pointerList.Nodup) (hpointer : g.pointer? id = some pointer)
    (hnew : ∀ o ∈ delta, o ∉ g.objects id) :
    ((g.grow id delta).pointsTo x).size =
      (g.pointsTo x).size + if x = pointer then delta.size else 0 := by
  have hfind := FlowGraph.find?_of_pointer? hnodup hpointer
  unfold FlowGraph.pointsTo
  rw [find?_grow]
  by_cases hx : x = pointer
  -- another pointer has another node, whose set stays as it is
  · subst hx
    simp only [hfind, if_true]
    exact size_objects_grow (FlowGraph.index_lt_of_pointer? hpointer) hnew
  · rw [if_neg hx]
    cases hid' : g.find? x with
    | none => rfl
    | some id' =>
      have hne : id' ≠ id := by
        rintro rfl
        have hsame := FlowGraph.pointer?_of_find? hid'
        rw [hpointer, Option.some.injEq] at hsame
        exact hx hsame.symm
      simp [objects_grow_of_ne hne]

/-- The items that a propagation may charge to the objects that it brings. -/
def chargeOf (p : Program) : Pointer → Nat
  | .var v => (p.accessSites v .invoke).length
  | _ => 0

/-- **Propagations are paid for**: the new objects pay for their way along the edges and for the calls
    that they are received by, and the item taken makes up for the propagation done. -/
theorem propagate_affords {item : WorkItem} {rest : Worklist} {pointer : Pointer}
    (hnodup : s.flow.pointerList.Nodup) (hpoll : s.worklist.poll = some (item, rest))
    (hpointer : s.flow.pointer? item.pointer = some pointer) (hne : s.newObjects item ≠ ∅)
    (hs : s.Affords p 0) :
    ((s.polled rest).propagate item.pointer pointer (s.newObjects item)).Affords p
      ((s.newObjects item).size * chargeOf p pointer) := by
  have hid := FlowGraph.index_lt_of_pointer? hpointer
  have hnew : ∀ o ∈ s.newObjects item, o ∉ s.flow.objects item.pointer :=
    fun o ho => (Ascending.mem_sdiff.1 ho).2
  have hpos := Ascending.size_pos hne
  have hsize : s.worklist.size = rest.size + 1 := Worklist.size_of_poll hpoll
  generalize hdelta : s.newObjects item = delta at hnew hpos
  have hqueued : ((s.polled rest).propagate item.pointer pointer delta).worklist.size ≤
      rest.size + (s.flow.successors item.pointer).length := size_foldl_add_le
  have hedges : ((s.polled rest).propagate item.pointer pointer delta).edgeLoad =
      s.edgeLoad + delta.size * (s.flow.successors item.pointer).length := by
    rw [length_successors]
    refine sum_map_gain fun e _ => ?_
    show ((s.flow.grow item.pointer delta).objects e.1).size = _
    by_cases he : e.1 = item.pointer
    · rw [he]
      simpa using size_objects_grow hid hnew
    · simp [objects_grow_of_ne he, he]
  have hcalls : ((s.polled rest).propagate item.pointer pointer delta).callLoad p =
      s.callLoad p + delta.size * chargeOf p pointer := by
    have hgain : ((s.polled rest).propagate item.pointer pointer delta).callLoad p =
        s.callLoad p + delta.size * p.receivers.countP (.var · = pointer) := by
      refine sum_map_gain fun v _ => ?_
      show ((s.flow.grow item.pointer delta).pointsTo (.var v)).size = _
      simpa using size_pointsTo_grow (x := .var v) hnodup hpointer hnew
    rw [hgain]
    cases pointer with
    | var v => simp [chargeOf, ← Program.countP_receivers]
    | _ => simp [chargeOf]
  -- the item brings at least one object, so every successor gets at least one unit of credit
  have hsucc : (s.flow.successors item.pointer).length ≤
      delta.size * (s.flow.successors item.pointer).length :=
    Nat.le_mul_of_pos_left _ hpos
  unfold Affords credit at *
  rw [hedges, hcalls]
  show s.iterations + 1 + _ + _ ≤ s.heap.size + _ + _
  omega

/-! ## §4 The bound -/

namespace Supported

theorem heap_size_le (h : s.Supported p F) : s.heap.size ≤ p.allocationCount := by
  rw [Program.allocationCount, List.countP_eq_length_filter, ← List.length_map Prod.fst,
    ← Heap.length_siteList]
  refine length_le_of_subset h.sitesNodup fun site hsite => ?_
  obtain ⟨i, hi⟩ := List.mem_iff_getElem?.1 hsite
  rw [Heap.siteList, List.getElem?_map, Option.map_eq_some_iff] at hi
  obtain ⟨obj, hobj, rfl⟩ := hi
  obtain ⟨lhs, hstmt⟩ := h.objects ⟨i⟩ obj (Heap.obj?_eq.trans hobj)
  exact List.mem_map.2 ⟨(obj.site, .new lhs obj.ty),
    List.mem_filter.2 ⟨Program.mem_statements.2 hstmt, rfl⟩, rfl⟩

theorem obj_lt {o : ObjId} {site : Location} (h : s.heap.site? o = some site) :
    o.index < s.heap.size := by
  obtain ⟨obj, hobj, _⟩ := Option.map_eq_some_iff.1 h
  exact (Array.getElem?_eq_some_iff.1 hobj).1

theorem size_objects_le (h : s.Supported p F) (id : PointerId) :
    (s.flow.objects id).size ≤ s.heap.size := by
  have hlength : s.heap.size = s.heap.ids.length := by simp [Heap.ids, Id.below]
  rw [hlength]
  refine length_le_of_subset (Ascending.nodup_toList _) fun o ho => ?_
  obtain ⟨_, site, _, hsite, _⟩ := h.members id o ho
  exact Id.mem_below.2 (obj_lt hsite)

theorem size_pointsTo_le (h : s.Supported p F) (pointer : Pointer) :
    (s.flow.pointsTo pointer).size ≤ s.heap.size := by
  unfold FlowGraph.pointsTo
  split
  · exact h.size_objects_le _
  · exact Nat.zero_le _

/-- The pointers that a program may have over the objects of a heap. -/
def candidates (p : Program) (heap : Heap) : List Pointer :=
  (Id.below .vars p.vars.size).map .var
    ++ (heap.ids ×ˢ Id.below .fields p.fields.size).map (fun x => .field x.1 x.2)
    ++ heap.ids.map .element ++ (Id.below .fields p.fields.size).map .staticField

theorem flow_size_le (h : s.Supported p F) : s.flow.size ≤ p.pointerBound := by
  have hlength : (candidates p s.heap).length =
      p.vars.size + s.heap.size * p.fields.size + s.heap.size + p.fields.size := by
    simp [candidates, Heap.ids, Id.below, List.length_product, Nat.add_assoc]
  -- the nodes are different, and each is one of the candidates
  have hle : s.flow.size ≤ (candidates p s.heap).length := by
    rw [← FlowGraph.length_pointerList]
    refine length_le_of_subset h.pointersNodup fun pointer hpointer => ?_
    obtain ⟨hwithin, place, hplace, _⟩ := h.nodes pointer hpointer
    simp only [candidates, List.mem_append, List.mem_map, Prod.exists, Id.mem_below, Heap.ids]
    cases pointer with
    | var v =>
      obtain ⟨_, _, var, hvar, _⟩ := hwithin
      exact Or.inl (Or.inl (Or.inl ⟨v, (Array.getElem?_eq_some_iff.1 hvar).1, rfl⟩))
    | field o f =>
      obtain ⟨site, hsite, _⟩ := Option.map_eq_some_iff.1 hplace
      have hmem := List.mem_product.2 ⟨Id.mem_below.2 (obj_lt hsite), Id.mem_below.2 hwithin⟩
      exact Or.inl (Or.inl (Or.inr ⟨o, f, hmem, rfl⟩))
    | element o =>
      obtain ⟨site, hsite, _⟩ := Option.map_eq_some_iff.1 hplace
      exact Or.inl (Or.inr ⟨o, obj_lt hsite, rfl⟩)
    | staticField f => exact Or.inr ⟨f, hwithin, rfl⟩
  have hheap := Nat.mul_le_mul_right p.fields.size h.heap_size_le
  have hheap' := h.heap_size_le
  unfold Program.pointerBound
  omega

theorem edge_lt (h : s.Supported p F) {e : PointerId × PointerId} (he : e ∈ s.flow.edges) :
    e.1.index < s.flow.size ∧ e.2.index < s.flow.size := by
  obtain ⟨x, y, hx, hy, _⟩ := h.edges e he
  obtain ⟨_, hsource, _⟩ := placeOf?_eq_some_iff.1 hx
  obtain ⟨_, htarget, _⟩ := placeOf?_eq_some_iff.1 hy
  exact ⟨FlowGraph.index_lt_of_pointer? hsource, FlowGraph.index_lt_of_pointer? htarget⟩

theorem edgeCount_le (h : s.Supported p F) :
    s.flow.edgeCount ≤ p.pointerBound * p.pointerBound := by
  have hlength : (s.flow.ids ×ˢ s.flow.ids).length = s.flow.size * s.flow.size := by
    simp [FlowGraph.ids, Id.below, List.length_product]
  have hle : s.flow.edgeCount ≤ s.flow.size * s.flow.size := by
    rw [← hlength]
    refine length_le_of_subset (Ascending.nodup_toList _) fun e he => ?_
    obtain ⟨hsource, htarget⟩ := h.edge_lt he
    exact List.mem_product.2 ⟨Id.mem_below.2 hsource, Id.mem_below.2 htarget⟩
  exact Nat.le_trans hle (Nat.mul_le_mul h.flow_size_le h.flow_size_le)

theorem length_receivers_le : p.receivers.length ≤ p.callCount := by
  rw [Program.receivers, List.length_filterMap_eq_countP, Program.callCount]
  refine List.countP_mono_left ?_
  rintro ⟨_, stmt⟩ _ hreceiver
  cases stmt <;> simp_all [Stmt.receiver?]

/-- **The bound**: the program bounds what a supported state has to pay with. -/
theorem credit_le (h : s.Supported p F) : s.credit p ≤ p.iterationBound := by
  have hheap := h.heap_size_le
  have hedges : s.edgeLoad ≤ p.pointerBound * p.pointerBound * p.allocationCount := by
    refine Nat.le_trans (sum_map_le p.allocationCount fun e _ => ?_)
      (Nat.mul_le_mul_right _ h.edgeCount_le)
    exact Nat.le_trans (h.size_objects_le e.1) hheap
  have hcalls : s.callLoad p ≤ p.callCount * p.allocationCount := by
    refine Nat.le_trans (sum_map_le p.allocationCount fun v _ => ?_)
      (Nat.mul_le_mul_right _ length_receivers_le)
    exact Nat.le_trans (h.size_pointsTo_le _) hheap
  unfold credit Program.iterationBound
  omega

end Supported

end State

end PointsTo
