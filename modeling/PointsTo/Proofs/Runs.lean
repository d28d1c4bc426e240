import PointsTo.Analysis.Result
import PointsTo.Proofs.Coverage
import PointsTo.Proofs.Termination

/-!
# Runs of the analysis

A state is steady if everything it records is supported and everything that it calls for is in place or
on its way. The analysis starts in a steady state and every step leads to a steady state, so it ends in
one. The rounds that it is given suffice: no method is pending after a step, and nothing is queued at
the end.

- `State.Steady`: the invariant.
- `State.settle_steady`, `State.step?_steady`, `State.drain_finished`: what preserves it.
- `Program.solve_finished`: the state in which the analysis ends.
-/

namespace PointsTo

namespace State

variable {p : Program} {F : Fact → Prop} {entry : MethodId} {s t : State}

/-! ## §1 Steady states -/

/-- The invariants of the actions, with something in reserve. -/
structure Kept (p : Program) (F : Fact → Prop) (reserve : Nat) (s : State) : Prop where
  supported : s.Supported p F
  waiting : s.Waiting
  linked : s.Linked p
  conveyed : s.Conveyed
  affords : s.Affords p reserve

/-- The statements of every reachable method have taken effect, unless the method is pending. -/
def Covered (p : Program) (s : State) : Prop :=
  ∀ loc stmt, loc.method ∈ s.calls.methods → loc.method ∉ s.pending → p.stmt? loc = some stmt →
    s.Entered p loc stmt

/-- Every object has been received at every variable that it has arrived at. -/
def Served (p : Program) (s : State) : Prop :=
  ∀ id v o, s.flow.pointer? id = some (.var v) → o ∈ s.flow.objects id → s.Received p v o

/-- Everything recorded is supported, and all that it calls for is in place or on its way. -/
structure Steady (p : Program) (F : Fact → Prop) (s : State) : Prop extends Kept p F 0 s where
  covered : s.Covered p
  served : s.Served p

theorem Kept.actions (hF : Closed p entry F) {n reserve : Nat} (hs : Kept p F (n + reserve) s)
    (h : Actions p F s n t) : Kept p F reserve t :=
  ⟨h.supported hF hs.supported, h.waiting hs.waiting, h.linked hs.linked, h.conveyed hs.conveyed,
    h.affords hs.affords⟩

/-- Methods that actions discover are pending, so actions cannot uncover a method. -/
theorem Covered.discovers (hs : s.Covered p) (hgrows : s.Grows t) (h : s.Discovers t) :
    t.Covered p := by
  obtain ⟨new, hmethods, hpending⟩ := h
  intro loc stmt hmethod hnot hstmt
  -- what is new among the methods is also new among the pending ones
  rw [hpending, List.mem_append, not_or] at hnot
  rw [hmethods, List.mem_append] at hmethod
  have hold := hmethod.resolve_right hnot.2
  exact hgrows.entered (hs loc stmt hold hnot.1 hstmt)

/-- A node with objects is older than any extension that happened since they arrived. -/
theorem pointer?_of_mem_objects (h : s.flow.pointerList <+: t.flow.pointerList) {id : PointerId}
    {o : ObjId} {pointer : Pointer} (ho : o ∈ s.flow.objects id)
    (hpointer : t.flow.pointer? id = some pointer) : s.flow.pointer? id = some pointer := by
  obtain ⟨pointer', hpointer'⟩ :=
    FlowGraph.exists_pointer?_of_lt (FlowGraph.index_lt_of_mem_objects ho)
  have hsame := FlowGraph.pointer?_of_isPrefix h hpointer'
  rw [hpointer, Option.some.injEq] at hsame
  rw [hpointer', hsame]

theorem Served.extends (hs : s.Served p) (h : s.Extends t) : t.Served p := by
  intro id v o hpointer ho
  rw [h.objects] at ho
  exact h.grows.received (hs id v o (pointer?_of_mem_objects h.pointers ho hpointer) ho)

theorem Steady.actions (hF : Closed p entry F) (hs : Steady p F s) (h : Actions p F s 0 t) :
    Steady p F t :=
  ⟨hs.toKept.actions hF h, hs.covered.discovers h.extends.grows h.discovers,
    hs.served.extends h.extends⟩

/-! ## §2 Pending methods -/

/-- Taking a method off the pending list keeps everything but the coverage of that method. -/
theorem Kept.pop {reserve : Nat} (hs : Kept p F reserve s) {m : MethodId} {rest : List MethodId}
    (hpending : s.pending = m :: rest) : Kept p F reserve { s with pending := rest } := by
  have hsub : ∀ x ∈ rest, x ∈ s.pending := by
    intro x hx
    rw [hpending]
    exact List.mem_cons_of_mem m hx
  refine ⟨{ hs.supported with }, ?_, hs.linked, hs.conveyed, hs.affords⟩
  refine ⟨hs.waiting.methodsNodup, ?_, fun x hx => hs.waiting.reached x (hsub x hx), ?_⟩
  · have hnodup := hs.waiting.pendingNodup
    rw [hpending] at hnodup
    exact (List.nodup_cons.1 hnodup).2
  · intro o obj hobj
    obtain ⟨hmethod, hnot⟩ := hs.waiting.objects o obj hobj
    exact ⟨hmethod, fun hmem => hnot (hsub _ hmem)⟩

/-- Entering a pending method is a sequence of actions after it is taken off the list. -/
theorem Steady.enterMethod_actions (hp : p.WellFormed) (hF : Closed p entry F) (hs : Steady p F s)
    {m : MethodId} {rest : List MethodId} (hpending : s.pending = m :: rest) :
    Actions p F { s with pending := rest } 0 ({ s with pending := rest }.enterMethod p m) := by
  have hpop := hs.toKept.pop hpending
  have hmem : m ∈ s.pending := by
    rw [hpending]
    exact List.mem_cons_self
  have hmethod := hs.waiting.reached m hmem
  have hrest : m ∉ rest := by
    have hnodup := hs.waiting.pendingNodup
    rw [hpending] at hnodup
    exact (List.nodup_cons.1 hnodup).1
  refine Actions.enterMethod hp hF (hs.supported.methods m hmethod).1 hpop.waiting hmethod hrest ?_
  intro o obj hobj hsite
  exact (hs.waiting.objects o obj hobj).2 (hsite ▸ hmem)

theorem Steady.enterMethod (hp : p.WellFormed) (hF : Closed p entry F) (hs : Steady p F s)
    {m : MethodId} {rest : List MethodId} (hpending : s.pending = m :: rest) :
    Steady p F ({ s with pending := rest }.enterMethod p m) := by
  have hactions := hs.enterMethod_actions hp hF hpending
  refine ⟨(hs.toKept.pop hpending).actions hF hactions, ?_, ?_⟩
  · obtain ⟨new, hmethods, hnew⟩ := hactions.discovers
    intro loc stmt hmethod hnot hstmt
    by_cases hm : loc.method = m
    · exact entered_enterMethod hm hstmt
    · -- any other method was covered before, or has just been discovered and is pending
      rw [hnew, List.mem_append, not_or] at hnot
      rw [hmethods, List.mem_append] at hmethod
      have hold : loc.method ∈ s.calls.methods := hmethod.resolve_right hnot.2
      have hcovered : loc.method ∉ s.pending := by
        rw [hpending, List.mem_cons, not_or]
        exact ⟨hm, hnot.1⟩
      have hext := (pending_extends (s := s) rest).trans hactions.extends
      exact hext.grows.entered (hs.covered loc stmt hold hcovered hstmt)
  · exact hs.served.extends ((pending_extends rest).trans hactions.extends)

theorem enterPending_steady (hp : p.WellFormed) (hF : Closed p entry F) (n : Nat)
    (hs : Steady p F s) : Steady p F (s.enterPending p n) := by
  induction n generalizing s with
  | zero => exact hs
  | succ n ih =>
    unfold enterPending
    split
    · exact hs
    · rename_i m rest hpending
      exact ih (hs.enterMethod hp hF hpending)

theorem Kept.length_methods_le {reserve : Nat} (hs : Kept p F reserve s) :
    s.calls.methods.length ≤ p.methods.size := by
  have hlength : p.methodIds.length = p.methods.size := by simp [Program.methodIds, Id.below]
  rw [← hlength]
  refine length_le_of_subset hs.waiting.methodsNodup fun m hm => ?_
  exact Id.mem_below.2 (hs.supported.methods m hm).2

/-- The rounds suffice: each takes one method off the list, and adds as many as it discovers. -/
theorem enterPending_pending (hp : p.WellFormed) (hF : Closed p entry F) (n : Nat)
    (hs : Steady p F s) (hrounds : s.pending.length + p.methods.size ≤ n + s.calls.methods.length) :
    (s.enterPending p n).pending = [] := by
  induction n generalizing s with
  | zero =>
    -- without rounds every method of the program is reachable already, so none is pending
    have hle := hs.length_methods_le
    exact List.length_eq_zero_iff.1 (by show s.pending.length = 0; omega)
  | succ n ih =>
    unfold enterPending
    split
    · assumption
    · rename_i m rest hpending
      apply ih (hs.enterMethod hp hF hpending)
      -- the methods discovered are counted on both sides
      obtain ⟨new, hmethods, hnew⟩ := (hs.enterMethod_actions hp hF hpending).discovers
      rw [hmethods, hnew, List.length_append, List.length_append]
      rw [hpending, List.length_cons] at hrounds
      show rest.length + _ + _ ≤ n + (s.calls.methods.length + _)
      omega

/-- **Settling**: afterwards the state is steady and no method is pending. -/
theorem settle_steady (hp : p.WellFormed) (hF : Closed p entry F) (hs : Steady p F s) :
    Steady p F (s.settle p) ∧ (s.settle p).pending = [] := by
  refine ⟨enterPending_steady hp hF _ hs, enterPending_pending hp hF _ hs ?_⟩
  have hle := length_le_of_subset hs.waiting.pendingNodup hs.waiting.reached
  omega

/-! ## §3 Steps -/

theorem Kept.nodes {reserve : Nat} (hs : Kept p F reserve s) {item : WorkItem}
    (hitem : item ∈ s.worklist.items) : item.pointer.index < s.flow.size :=
  (hs.supported.items item hitem).1

/-- An object at a variable is known to be there. -/
theorem Supported.known (hs : s.Supported p F) {id : PointerId} {v : VarId} {o : ObjId}
    (hpointer : s.flow.pointer? id = some (.var v)) (hmember : s.MemberOk F id o) :
    s.Known p F v o := by
  obtain ⟨x, site, hx, hsite, hfact⟩ := hmember
  obtain ⟨pointer, hpointer', hplace⟩ := placeOf?_eq_some_iff.1 hx
  rw [hpointer, Option.some.injEq] at hpointer'
  subst hpointer'
  obtain ⟨obj, hobj, rfl⟩ := Option.map_eq_some_iff.1 hsite
  obtain ⟨lhs, hstmt⟩ := hs.objects o obj hobj
  cases hplace
  exact ⟨obj, hobj, Program.allocated?_eq hstmt, hfact⟩

/-- An item that brings nothing new is dropped. -/
theorem Steady.polled (hs : Steady p F s) {item : WorkItem} {rest : Worklist}
    (hpoll : s.worklist.poll = some (item, rest)) (hempty : s.newObjects item = ∅) :
    Steady p F (s.polled rest) := by
  have hsize : s.worklist.size = rest.size + 1 := Worklist.size_of_poll hpoll
  have hdue : ∀ id o, s.Due id o → (s.polled rest).Due id o := by
    intro id o hdue
    rcases due_polled hpoll hdue with hkept | ⟨_, ho⟩
    · exact hkept
    · -- the item had nothing new, so all it was to bring has arrived
      rw [hempty] at ho
      exact absurd ho (Ascending.not_mem_empty o)
  have hgrows : s.Grows (s.polled rest) := { Grows.refl s with due := hdue }
  refine ⟨⟨hs.supported.polled hpoll, { hs.waiting with }, ?_, ?_, ?_⟩, ?_, ?_⟩
  · exact hs.linked.of_edges hgrows fun _ he => he
  · exact fun a b o hedge ho => hdue b o (hs.conveyed a b o hedge ho)
  · have haffords := hs.affords
    unfold Affords at haffords ⊢
    show s.iterations + 1 + rest.size + 0 ≤ s.credit p
    omega
  · exact hs.covered.discovers hgrows (Discovers.of_eq rfl rfl)
  · exact fun id v o hpointer ho => hgrows.received (hs.served id v o hpointer ho)

section Propagation

variable {item : WorkItem} {rest : Worklist} {pointer : Pointer}

/-- A propagation keeps the invariants, with what its objects have to pay in reserve. -/
theorem Steady.propagate (hF : Closed p entry F) (hs : Steady p F s)
    (hpoll : s.worklist.poll = some (item, rest))
    (hpointer : s.flow.pointer? item.pointer = some pointer) (hne : s.newObjects item ≠ ∅) :
    Kept p F ((s.newObjects item).size * chargeOf p pointer)
      ((s.polled rest).propagate item.pointer pointer (s.newObjects item)) := by
  have hid := FlowGraph.index_lt_of_pointer? hpointer
  have hgrows := propagate_grows pointer hpoll hid
  refine ⟨hs.supported.propagate hF hpoll pointer, { hs.waiting with }, ?_, ?_, ?_⟩
  · exact hs.linked.of_edges hgrows fun _ he => he
  · intro a b o hedge ho
    rcases (FlowGraph.mem_objects_grow (g := s.flow) hid).1 ho with hold | ⟨rfl, hnew⟩
    · exact hgrows.due b o (hs.conveyed a b o hedge hold)
    · -- the new objects have just been queued for the successors of the node
      exact Or.inr ⟨_, mem_items_propagate.2 (Or.inr ⟨hne, b, hedge, rfl⟩), rfl, hnew⟩
  · exact propagate_affords hs.supported.pointersNodup hpoll hpointer hne hs.affords

/-- Receiving the objects that were propagated is a sequence of actions. -/
theorem Steady.receive_actions (hp : p.WellFormed) (hF : Closed p entry F) (hs : Steady p F s)
    (hpoll : s.worklist.poll = some (item, rest))
    (hpointer : s.flow.pointer? item.pointer = some pointer) (hne : s.newObjects item ≠ ∅) :
    Actions p F ((s.polled rest).propagate item.pointer pointer (s.newObjects item))
      ((s.newObjects item).size * chargeOf p pointer)
      (((s.polled rest).propagate item.pointer pointer (s.newObjects item)).receiveAll p pointer
        (s.newObjects item)) := by
  have hkept := hs.propagate hF hpoll hpointer hne
  have hgrows := propagate_grows pointer hpoll (FlowGraph.index_lt_of_pointer? hpointer)
  have hpointer' := FlowGraph.pointer?_of_isPrefix hgrows.pointers hpointer
  -- only variables have statements that react to the objects of a node
  cases pointer with
  | var v =>
    obtain ⟨⟨m, hm, howns⟩, _⟩ :=
      hkept.supported.nodes _ (FlowGraph.mem_pointerList_of_pointer? hpointer')
    refine Actions.receiveAll hp hF howns hm (hkept.supported.methods m hm).1 fun o ho => ?_
    refine hkept.supported.known hpointer' (hkept.supported.members _ o ?_)
    exact (FlowGraph.mem_objects_grow (g := s.flow) (FlowGraph.index_lt_of_pointer? hpointer)).2
      (Or.inr ⟨rfl, ho⟩)
  | field _ _ => exact Actions.refl _
  | element _ => exact Actions.refl _
  | staticField _ => exact Actions.refl _

/-- After its objects are received, a propagation has led to a steady state. -/
theorem Steady.receiveAll (hp : p.WellFormed) (hF : Closed p entry F) (hs : Steady p F s)
    (hpoll : s.worklist.poll = some (item, rest))
    (hpointer : s.flow.pointer? item.pointer = some pointer) (hne : s.newObjects item ≠ ∅) :
    Steady p F (((s.polled rest).propagate item.pointer pointer (s.newObjects item)).receiveAll p
      pointer (s.newObjects item)) := by
  have hid := FlowGraph.index_lt_of_pointer? hpointer
  have hkept := hs.propagate hF hpoll hpointer hne
  have hgrows := propagate_grows pointer hpoll hid
  have hactions := hs.receive_actions hp hF hpoll hpointer hne
  have hcovered : ((s.polled rest).propagate item.pointer pointer (s.newObjects item)).Covered p :=
    hs.covered.discovers hgrows (Discovers.of_eq rfl rfl)
  refine ⟨hkept.actions hF hactions, hcovered.discovers hactions.extends.grows hactions.discovers, ?_⟩
  intro id v o hv ho
  rw [hactions.extends.objects] at ho
  have hv' := pointer?_of_mem_objects hactions.extends.pointers ho hv
  rcases (FlowGraph.mem_objects_grow (g := s.flow) hid).1 ho with hold | ⟨rfl, hnew⟩
  · -- an object that was there before has been received before
    have hv'' := pointer?_of_mem_objects hgrows.pointers hold hv'
    exact (hgrows.trans hactions.extends.grows).received (hs.served id v o hv'' hold)
  · -- a new object is received at the variable that was propagated to
    have hsame := FlowGraph.pointer?_of_isPrefix hgrows.pointers hpointer
    rw [hv', Option.some.injEq] at hsame
    subst hsame
    obtain ⟨⟨m, _, var, hvar, _⟩, _⟩ :=
      hkept.supported.nodes _ (FlowGraph.mem_pointerList_of_pointer? hv')
    obtain ⟨obj, hobj, _⟩ := hkept.supported.known hv' (hkept.supported.members _ o ho)
    exact received_receiveAll hp hvar hobj hnew

end Propagation

/-- **Steps**: a step leads from a steady state to a steady state without pending methods. -/
theorem step?_steady (hp : p.WellFormed) (hF : Closed p entry F) (hs : Steady p F s)
    (hpending : s.pending = []) (h : s.step? p = some t) :
    Steady p F t ∧ t.pending = [] ∧ t.iterations = s.iterations + 1 := by
  obtain ⟨item, rest, pointer, hpoll, hpointer, ⟨hempty, rfl⟩ | ⟨hne, rfl⟩⟩ :=
    step?_cases (fun _ hitem => hs.nodes hitem) h
  · exact ⟨hs.polled hpoll hempty, hpending, rfl⟩
  · have hreceived := hs.receiveAll hp hF hpoll hpointer hne
    obtain ⟨hsteady, hdone⟩ := settle_steady hp hF hreceived
    exact ⟨hsteady, hdone, settle_extends.iterations.trans (receiveAll_extends _ _).iterations⟩

/-! ## §4 Whole runs -/

/-- A steady state in which nothing is left to do. -/
structure Finished (p : Program) (F : Fact → Prop) (s : State) : Prop extends Steady p F s where
  pending : s.pending = []
  worklist : s.worklist.items = []

/-- Nothing is left to do after as many steps as the bound allows. -/
theorem drain_finished (hp : p.WellFormed) (hF : Closed p entry F) (n : Nat) (hs : Steady p F s)
    (hpending : s.pending = []) (hrounds : p.iterationBound ≤ s.iterations + n) :
    Finished p F (s.drain p n) := by
  induction n generalizing s with
  | zero =>
    -- the bound is used up, so no item is left that could still be paid for
    have haffords := hs.affords
    have hcredit := hs.supported.credit_le
    have hsize : s.worklist.items.length = 0 := by
      unfold Affords Worklist.size at haffords
      omega
    exact ⟨hs, hpending, List.length_eq_zero_iff.1 hsize⟩
  | succ n ih =>
    unfold drain
    split
    · rename_i hnone
      have hpoll : s.worklist.poll = none := by simpa [step?] using hnone
      exact ⟨hs, hpending, Worklist.poll_eq_none_iff.1 hpoll⟩
    · rename_i t hstep
      obtain ⟨hsteady, hdone, hiterations⟩ := step?_steady hp hF hs hpending hstep
      exact ih hsteady hdone (by omega)

theorem drain_grows (hp : p.WellFormed) (hF : Closed p entry F) (n : Nat) (hs : Steady p F s)
    (hpending : s.pending = []) : s.Grows (s.drain p n) := by
  induction n generalizing s with
  | zero => exact Grows.refl s
  | succ n ih =>
    unfold drain
    split
    · exact Grows.refl s
    · rename_i t hstep
      obtain ⟨hsteady, hdone, _⟩ := step?_steady hp hF hs hpending hstep
      exact (step?_grows (fun _ hitem => hs.nodes hitem) hstep).trans (ih hsteady hdone)

/-- The state before the entry method becomes reachable. -/
def blank (order : WorkOrder) (entry : MethodId) : State :=
  { ({ worklist := { order } } : State).emit (.started entry) with calls := { entries := [entry] } }

theorem blank_steady (order : WorkOrder) : Steady p F (blank order entry) where
  supported :=
    { pointersNodup := List.nodup_nil
      sitesNodup := List.nodup_nil
      callsNodup := List.nodup_nil
      methods := fun m hm => absurd hm List.not_mem_nil
      calls := fun e he => absurd he List.not_mem_nil
      objects := fun o obj hobj => by simp [blank, emit, Heap.obj?] at hobj
      nodes := fun pointer hpointer => absurd hpointer List.not_mem_nil
      edges := fun e he => absurd he (Ascending.not_mem_empty e)
      members := fun id o ho => by simp [blank, emit, FlowGraph.objects, FlowGraph.objects?] at ho
      items := fun item hitem => absurd hitem List.not_mem_nil }
  waiting := ⟨List.nodup_nil, List.nodup_nil, fun m hm => absurd hm List.not_mem_nil,
    fun o obj hobj => by simp [blank, emit, Heap.obj?] at hobj⟩
  linked e he := absurd he List.not_mem_nil
  conveyed a b o hedge _ := absurd hedge (Ascending.not_mem_empty _)
  affords := Nat.zero_le _
  covered loc stmt hmethod := absurd hmethod List.not_mem_nil
  served id v o _ ho := by simp [blank, emit, FlowGraph.objects, FlowGraph.objects?] at ho

theorem start_eq (order : WorkOrder) :
    start p order entry = ((blank order entry).reach entry).settle p := by
  simp [start, blank, emit, CallGraph.addEntry]

theorem reach_entry (hF : Closed p entry F) (hentry : entry.index < p.methods.size)
    (order : WorkOrder) : Actions p F (blank order entry) 0 ((blank order entry).reach entry) :=
  (Action.reach (hF _ .entry) hentry).single

theorem start_steady (hp : p.WellFormed) (hF : Closed p entry F)
    (hentry : entry.index < p.methods.size) (order : WorkOrder) :
    Steady p F (start p order entry) ∧ (start p order entry).pending = [] := by
  rw [start_eq]
  exact settle_steady hp hF ((blank_steady order).actions hF (reach_entry hF hentry order))

end State

namespace Program

variable {p : Program} {F : Fact → Prop} {entry : MethodId}

/-- **Runs**: the analysis ends in a steady state with nothing left to do. -/
theorem solve_finished (hp : p.WellFormed) (hF : Closed p entry F)
    (hentry : entry.index < p.methods.size) (order : WorkOrder) :
    State.Finished p F (p.solve order entry) := by
  obtain ⟨hsteady, hpending⟩ := State.start_steady hp hF hentry order
  exact State.drain_finished hp hF _ hsteady hpending (Nat.le_add_left _ _)

theorem start_grows_solve (hp : p.WellFormed) (hF : Closed p entry F)
    (hentry : entry.index < p.methods.size) (order : WorkOrder) :
    (State.start p order entry).Grows (p.solve order entry) := by
  obtain ⟨hsteady, hpending⟩ := State.start_steady hp hF hentry order
  exact State.drain_grows hp hF _ hsteady hpending

theorem entry_mem_solve (hp : p.WellFormed) (hF : Closed p entry F)
    (hentry : entry.index < p.methods.size) (order : WorkOrder) :
    entry ∈ (p.solve order entry).calls.methods := by
  apply (start_grows_solve hp hF hentry order).methods.subset
  rw [State.start_eq]
  exact State.settle_extends.methods.subset (State.mem_reach entry)

theorem entries_solve (hp : p.WellFormed) (hF : Closed p entry F)
    (hentry : entry.index < p.methods.size) (order : WorkOrder) :
    (p.solve order entry).calls.entries = [entry] := by
  rw [(start_grows_solve hp hF hentry order).entries, State.start_eq, State.settle_extends.entries,
    (State.reach_extends entry).entries]
  rfl

end Program

end PointsTo
