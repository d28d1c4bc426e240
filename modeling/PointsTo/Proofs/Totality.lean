import PointsTo.Proofs.StrictOperations
import PointsTo.Proofs.Turns

/-!
# The analysis is total

Strict analysis of a built program has an answer for all options, and it is the answer of the analysis.
So every loop ends, no lookup fails, and new objects never overlap the set that they are added to.

That the loops end rests on the same invariants that let the analysis bound its rounds: the states are
steady, a method is pending only once, and every propagation is paid for. The report needs one more
invariant, that the arcs of the call graph join nodes.

- `Strict.settle_eq`, `Strict.drain_eq`: the loops end.
- `Strict.anchored_solve`: arcs join nodes.
- `Program.analyze_total`: the answer for built programs.
-/

namespace PointsTo

namespace Strict

/-! ## §1 Loops -/

open Program
open State (Steady)

variable {p : Program} {F : Fact → Prop} {entry : MethodId} {s : State} {o : ObjId}

theorem settle_eq_enterPending (hp : p.Complete) (hF : Closed p entry F) (n : Nat)
    (hs : Steady p F s) (hdone : (s.enterPending p n).pending = []) :
    settle p s = some (s.enterPending p n) := by
  induction n generalizing s with
  | zero =>
    have hpending : s.pending = [] := hdone
    exact loop_of_stop (by simp [settleRound, hpending, State.enterPending])
  | succ n ih =>
    unfold State.enterPending at hdone ⊢
    cases hpending : s.pending with
    | nil => exact loop_of_stop (by simp [settleRound, hpending])
    | cons m rest =>
      have hmem : m ∈ s.pending := hpending ▸ List.mem_cons_self
      have hm := (hs.supported.methods m (hs.waiting.reached m hmem)).2
      have hround : settleRound p s = some (.inl ({ s with pending := rest }.enterMethod p m)) := by
        simp [settleRound, hpending, enterMethod_eq hp hm]
      rw [hpending] at hdone
      exact (loop_of_go hround).trans (ih (hs.enterMethod hp.toWellFormed hF hpending) hdone)

/-- **Pending methods**: looking at their statements comes to an end. -/
theorem settle_eq (hp : p.Complete) (hF : Closed p entry F) (hs : Steady p F s) :
    settle p s = some (s.settle p) :=
  settle_eq_enterPending hp hF _ hs (State.settle_steady hp.toWellFormed hF hs).2

theorem placed_of_obj? (hs : s.Supported p F) {obj : Obj} (hobj : s.heap.obj? o = some obj) :
    Placed p s.heap o := by
  obtain ⟨lhs, hstmt⟩ := hs.objects o obj hobj
  exact ⟨obj, lhs, hobj, hstmt⟩

theorem placed_of_mem_objects (hs : s.Supported p F) {id : PointerId} (ho : o ∈ s.flow.objects id) :
    Placed p s.heap o := by
  obtain ⟨_, _, _, hsite, _⟩ := hs.members id o ho
  obtain ⟨obj, hobj, _⟩ := Option.map_eq_some_iff.1 hsite
  exact placed_of_obj? hs hobj

theorem exists_var_of_pointer? (hs : s.Supported p F) {id : PointerId} {v : VarId}
    (h : s.flow.pointer? id = some (.var v)) : ∃ var, p.var? v = some var := by
  obtain ⟨⟨_, _, var, hvar, _⟩, _⟩ := hs.nodes _ (FlowGraph.mem_pointerList_of_pointer? h)
  exact ⟨var, hvar⟩

/-- **Propagations**: each of them has what it needs. -/
theorem absorb_eq (hp : p.Complete) (hF : Closed p entry F) (hs : Steady p F s) {item : WorkItem}
    {rest : Worklist} (hpoll : s.worklist.poll = some (item, rest)) :
    absorb p (s.polled rest) item = some ((s.polled rest).absorb p item) := by
  have hitem : item ∈ s.worklist.items := (Worklist.mem_items_of_poll hpoll).2 (Or.inl rfl)
  have hid : item.pointer.index < s.flow.size := hs.nodes hitem
  obtain ⟨pointer, hpointer⟩ := FlowGraph.exists_pointer?_of_lt hid
  have hpointer' : (s.polled rest).flow.pointer? item.pointer = some pointer := hpointer
  have hobjects : (s.polled rest).flow.objects? item.pointer =
      some ((s.polled rest).flow.objects item.pointer) := FlowGraph.objects?_of_lt hid
  have hdelta : item.objects.sdiff ((s.polled rest).flow.objects item.pointer) = s.newObjects item :=
    rfl
  unfold absorb State.absorb
  rw [hobjects, Option.bind_eq_bind, Option.bind_some, hpointer']
  dsimp only
  rw [hdelta]
  split
  · rfl
  · rename_i hempty
    have hne : s.newObjects item ≠ ∅ := fun h => hempty (Ascending.isEmpty_iff.2 h)
    have hnew : ∀ o ∈ s.newObjects item, o ∉ s.flow.objects item.pointer := fun o ho =>
      (Ascending.mem_sdiff.1 ho).2
    have hkept := hs.propagate hF hpoll hpointer hne
    have hgrows := State.propagate_grows pointer hpoll hid
    have hnode := FlowGraph.pointer?_of_isPrefix hgrows.pointers hpointer
    rw [Option.bind_eq_bind, Option.bind_some, propagate_eq (s := s.polled rest) hid hnew pointer,
      Option.bind_eq_bind, Option.bind_some, receiveAll_eq hp]
    · exact settle_eq hp hF (hs.receiveAll hp.toWellFormed hF hpoll hpointer hne)
    · rintro v rfl
      exact exists_var_of_pointer? hkept.supported hnode
    · intro o ho
      -- the object has just been added to the node
      have hmember := (FlowGraph.mem_objects_grow (g := s.flow) hid).2 (Or.inr ⟨rfl, ho⟩)
      exact placed_of_mem_objects hkept.supported hmember

theorem drain_eq_drain (hp : p.Complete) (hF : Closed p entry F) (n : Nat) (hs : Steady p F s)
    (hpending : s.pending = []) (hdone : (s.drain p n).worklist.items = []) :
    drain p s = some (s.drain p n) := by
  induction n generalizing s with
  | zero =>
    have hpoll : s.worklist.poll = none := Worklist.poll_eq_none_iff.2 hdone
    exact loop_of_stop (by simp [drainRound, hpoll, State.drain])
  | succ n ih =>
    cases hpoll : s.worklist.poll with
    | none => exact loop_of_stop (by simp [drainRound, hpoll, State.drain, State.step?])
    | some next =>
      obtain ⟨item, rest⟩ := next
      have hstep : s.step? p = some ((s.polled rest).absorb p item) := by
        simp [State.step?, hpoll, State.polled]
      have habsorb := absorb_eq hp hF hs hpoll
      unfold State.polled at habsorb
      have hround : drainRound p s = some (.inl ((s.polled rest).absorb p item)) := by
        simp [drainRound, hpoll, habsorb, State.polled]
      obtain ⟨hsteady, hsettled, _⟩ :=
        State.step?_steady hp.toWellFormed hF hs hpending hstep
      simp only [State.drain, hstep] at hdone ⊢
      exact (loop_of_go hround).trans (ih hsteady hsettled hdone)

theorem start_eq (hp : p.Complete) (hF : Closed p entry F) (hentry : entry.index < p.methods.size)
    (order : WorkOrder) : start p order entry = some (State.start p order entry) := by
  have hemit : emit p { worklist := { order } } (.started entry) = some _ :=
    emit_eq (discard_methodName? hp hentry)
  unfold start
  rw [hemit, Option.bind_eq_bind, Option.bind_some, reach_eq hp hentry, Option.bind_some,
    State.start_eq]
  exact settle_eq hp hF ((State.blank_steady order).actions hF (State.reach_entry hF hentry order))

/-- **Loops end**: propagating until nothing is left gives the state in which the analysis ends. -/
theorem drain_eq (hp : p.Complete) (hF : Closed p entry F) (hentry : entry.index < p.methods.size)
    (order : WorkOrder) : drain p (State.start p order entry) = some (p.solve order entry) := by
  obtain ⟨hsteady, hpending⟩ := State.start_steady hp.toWellFormed hF hentry order
  have hfinished := solve_finished hp.toWellFormed hF hentry order
  exact drain_eq_drain hp hF _ hsteady hpending hfinished.worklist

/-! ## §2 Reports -/

theorem anchored_solve (hp : p.WellFormed) (hF : Closed p entry F)
    (hentry : entry.index < p.methods.size) (order : WorkOrder) :
    Anchored (p.solve order entry).calls := by
  intro arc harc
  exact (turns_solve hp hF hentry order).2.ends_of_mem_arcs harc

theorem statisticsReport_eq (r : Result) : statisticsReport r = some r.statisticsReport := by
  have hsets : (r.flow.pointers.toList.mapM fun pointer => do
      let id ← r.flow.find? pointer
      let objects ← r.flow.objects? id
      return (pointer, objects)) =
        some (r.flow.pointers.toList.map fun pointer => (pointer, r.pointsTo pointer)) := by
    refine mapM_eq fun pointer hpointer => ?_
    obtain ⟨id, hfind⟩ := FlowGraph.exists_find?_of_mem (FlowGraph.mem_pointers.1 hpointer)
    have hid := FlowGraph.index_lt_of_pointer? (FlowGraph.pointer?_of_find? hfind)
    simp [hfind, FlowGraph.objects?_of_lt hid, Result.pointsTo, FlowGraph.pointsTo]
  unfold statisticsReport
  rw [hsets]
  rfl

theorem reportEvents_eq (r : Result) (mode : DumpMode) :
    reportEvents r mode = some (r.report mode) := by
  unfold reportEvents
  rw [statisticsReport_eq]
  cases mode <;> rfl

/-- What a node is called has an entry. -/
theorem describe?_isSome (hp : p.Complete) {methods : List MethodId} {pointer : Pointer}
    (h : pointer.Within p methods) : discard (pointer.describe? p) = some () := by
  cases pointer with
  | var v =>
    obtain ⟨m, _, var, hvar, rfl⟩ := h
    have hm := hp.inScope.varMethods var (Array.mem_of_getElem? hvar)
    simp only [Pointer.describe?, varName?, hvar, methodName?_eq hp.inScope hm, Option.bind_eq_bind,
      Option.bind_some]
    rfl
  | field obj f =>
    have hfield : p.field? f = some p.fields[f.index] := Array.getElem?_eq_getElem h
    simp only [Pointer.describe?, hfield]
    rfl
  | element obj => rfl
  | staticField f =>
    have hfield : p.field? f = some p.fields[f.index] := Array.getElem?_eq_getElem h
    simp only [Pointer.describe?, fieldName?_eq hp.inScope hfield]
    rfl

/-- Everything that a report names has an entry. -/
theorem report_eq (hp : p.Complete) (hs : s.Supported p F) (hanchored : Anchored s.calls)
    (mode : DumpMode) : report p s.result mode = some (s.result.report mode) := by
  have hpointing : ∀ e ∈ s.result.statisticsReport, nameEvent p s.heap e = some () := by
    intro e he
    simp only [Result.statisticsReport, List.mem_append, List.mem_singleton, List.mem_map,
      List.mem_filter] at he
    rcases he with (rfl | ⟨⟨pointer, objects⟩, ⟨⟨pointer', hpointer, heq⟩, _⟩, rfl⟩) | ⟨o, ho, rfl⟩
    · rfl
    · cases heq
      exact describe?_isSome hp (hs.nodes pointer (FlowGraph.mem_pointers.1 hpointer)).1
    · have hobj : s.heap.obj? o = some _ := Array.getElem?_eq_getElem (Id.mem_below.1 ho)
      exact nameObj_eq hp (placed_of_obj? hs hobj)
  have hgraph : nameEvent p s.heap (.callGraph s.calls) = some () :=
    nameGraph_eq hp hanchored fun m hm => (hs.methods m hm).2
  have hnames : (s.result.report mode).forM (nameEvent p s.heap) = some () := by
    refine forM_eq fun e he => ?_
    unfold Result.report at he
    rcases List.mem_append.1 he with he | he
    · split at he
      · exact hpointing e he
      · exact absurd he List.not_mem_nil
    · split at he
      · rw [List.mem_singleton.1 he]
        exact hgraph
      · exact absurd he List.not_mem_nil
  unfold report
  rw [reportEvents_eq, Option.bind_eq_bind, Option.bind_some]
  show ((s.result.report mode).forM (nameEvent p s.heap)).bind _ = _
  rw [hnames]
  rfl

end Strict

/-! ## §3 The analysis -/

namespace Program

/-- **The analysis is total**: for a built program and all options, analysing without bounds on loops and
    without tolerating a failed lookup gives the answer of the analysis. The answer is an error exactly if
    the program has no entry method. -/
theorem analyze_total {p : Program} (h : p.Built) (options : Options) :
    Strict.analyze p options = some (p.analyze options) ∧
      ((∃ e, p.analyze options = .error e) ↔ p.main = none) := by
  have hp := h.complete
  unfold Strict.analyze analyze
  cases hmain : p.main with
  | none => exact ⟨rfl, ⟨fun _ => rfl, fun _ => ⟨.noMain, rfl⟩⟩⟩
  | some entry =>
    have hentry := hp.mainExists hmain
    have hF := Derivable.closed p entry
    have hfinished := solve_finished hp.toWellFormed hF hentry options.order
    have hreport := Strict.report_eq hp hfinished.supported
      (Strict.anchored_solve hp.toWellFormed hF hentry options.order) options.dump
    refine ⟨?_, by simp⟩
    dsimp only
    rw [Strict.start_eq hp hF hentry, Option.bind_eq_bind, Option.bind_some,
      Strict.drain_eq hp hF hentry, Option.bind_eq_bind, Option.bind_some, hreport]
    rfl

theorem analyze_total_getter :
    Strict.analyze getter { dump := .all, order := .lifo } =
        some (getter.analyze { dump := .all, order := .lifo }) ∧
      ((∃ e, getter.analyze { dump := .all, order := .lifo } = .error e) ↔ getter.main = none) :=
  analyze_total getter_built { dump := .all, order := .lifo }

end Program

end PointsTo
