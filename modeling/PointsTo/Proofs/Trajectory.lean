import Mathlib.Logic.Relation
import PointsTo.Proofs.Fixpoint

/-!
# Trajectories of the analysis

A run passes through one state after the other, from the state in which it starts to the one in which
nothing is left to do. Every state on the way is settled: no method waits to be entered, and what is queued
are objects that exist on their way to nodes that exist. A later state has everything that an earlier one
has, and what is queued anywhere on the way has arrived in the end.

- `State.Step`, `State.Steps`: one propagation, and any number of them.
- `State.Settled`: what holds between two propagations.
- `State.Steps.steady`, `State.Steps.grows`: what any number of propagations preserves.
- `State.Steps.to_end`: all trajectories from one state lead to the same end.
- `Program.analyze_trajectory`: the states that an analysis passes through.
-/

namespace PointsTo

namespace State

variable {p : Program} {F : Fact → Prop} {entry : MethodId} {s t u : State}

/-! ## §1 Steps -/

/-- One propagation leads from the first state to the second. -/
def Step (p : Program) (s t : State) : Prop := s.step? p = some t

/-- Some number of propagations leads from the first state to the second. -/
def Steps (p : Program) : State → State → Prop := Relation.ReflTransGen (Step p)

/-- The worklist decides which propagation comes next. -/
theorem step_rightUnique (p : Program) : Relator.RightUnique (Step p) := by
  intro s t u ht hu
  exact Option.some.inj (ht.symm.trans hu)

/-- A trajectory ends where no propagation is left, so any other trajectory from the same state leads
    there as well. -/
theorem Steps.to_end (ht : s.Steps p t) (hu : s.Steps p u) (hend : u.step? p = none) :
    t.Steps p u := by
  rcases Relation.ReflTransGen.total_of_right_unique (step_rightUnique p) ht hu with htu | hut
  · exact htu
  · -- nothing comes after the end, so the first state is the end itself
    rcases Relation.ReflTransGen.cases_head hut with rfl | ⟨v, hstep, _⟩
    · exact Relation.ReflTransGen.refl
    · have hnone : u.step? p = some v := hstep
      rw [hend] at hnone
      exact absurd hnone.symm (Option.some_ne_none v)

/-- Doing propagations until none is left, or the rounds are used up, is a trajectory. -/
theorem steps_drain (n : Nat) (s : State) : s.Steps p (s.drain p n) := by
  induction n generalizing s with
  | zero => exact Relation.ReflTransGen.refl
  | succ n ih =>
    unfold drain
    split
    · exact Relation.ReflTransGen.refl
    · rename_i t hstep
      exact Relation.ReflTransGen.head hstep (ih t)

/-! ## §2 What a trajectory preserves -/

/-- Between two propagations no method waits to be entered, and each queued item brings at least one
    object, all of them known to the heap, to a node of the flow graph. -/
structure Settled (s : State) : Prop where
  pending : s.pending = []
  nonempty : ∀ item ∈ s.worklist.items, item.objects ≠ ∅
  pointer : ∀ item ∈ s.worklist.items, ∃ pointer, s.flow.pointer? item.pointer = some pointer
  objects : ∀ item ∈ s.worklist.items, ∀ o ∈ item.objects, ∃ obj, s.heap.obj? o = some obj

theorem Steady.settled (hs : Steady p F s) (hpending : s.pending = []) : s.Settled where
  pending := hpending
  nonempty item hitem := (hs.supported.items item hitem).2.1
  pointer item hitem := FlowGraph.exists_pointer?_of_lt (hs.supported.items item hitem).1
  objects item hitem o ho := by
    -- a queued object is named by its allocation site, which only an object of the heap has
    obtain ⟨_, site, _, hsite, _⟩ := (hs.supported.items item hitem).2.2 o ho
    obtain ⟨obj, hobj, _⟩ := Option.map_eq_some_iff.1 hsite
    exact ⟨obj, hobj⟩

/-- **Invariance**: trajectories lead from steady states to steady states. -/
theorem Steps.steady (hp : p.WellFormed) (hF : Closed p entry F) (hs : Steady p F s)
    (hpending : s.pending = []) (h : s.Steps p t) : Steady p F t ∧ t.pending = [] := by
  induction h with
  | refl => exact ⟨hs, hpending⟩
  | tail _ hstep ih =>
    obtain ⟨hsteady, hdone⟩ := ih
    obtain ⟨hsteady', hdone', _⟩ := step?_steady hp hF hsteady hdone hstep
    exact ⟨hsteady', hdone'⟩

/-- **Growth**: a later state of a trajectory has everything that an earlier one has. -/
theorem Steps.grows (hp : p.WellFormed) (hF : Closed p entry F) (hs : Steady p F s)
    (hpending : s.pending = []) (h : s.Steps p t) : s.Grows t := by
  induction h with
  | refl => exact Grows.refl s
  | tail hsteps hstep ih =>
    -- the state before the last step is steady, so that step loses nothing
    obtain ⟨hsteady, _⟩ := Steps.steady hp hF hs hpending hsteps
    apply ih.trans
    exact step?_grows (fun item hitem => hsteady.nodes hitem) hstep

/-- What is queued in a state has arrived in every finished state that comes after it. -/
theorem Finished.arrived_of_queued (h : Finished p F t) (hgrows : s.Grows t) {item : WorkItem}
    (hitem : item ∈ s.worklist.items) {o : ObjId} (ho : o ∈ item.objects) :
    o ∈ t.flow.objects item.pointer := by
  have hdue : s.Due item.pointer o := Or.inr ⟨item, hitem, rfl, ho⟩
  exact h.arrived (hgrows.due _ _ hdue)

theorem Finished.step?_eq_none (h : Finished p F s) : s.step? p = none := by
  have hpoll : s.worklist.poll = none := Worklist.poll_eq_none_iff.2 h.worklist
  simp [step?, hpoll]

end State

/-! ## §3 The analysis -/

namespace Program

variable {p : Program} {entry : MethodId}

/-- **Trajectories**: the analysis of a built program with an entry method gives the result of a state in
    which no propagation is left. Every state that propagations lead to from the start is settled, every
    state that comes after it has all that it has, and what is queued in it has arrived in the result. -/
theorem analyze_trajectory (hp : p.Built) (hmain : p.main = some entry) (options : Options) :
    ∃ run final, p.analyze options = .ok run ∧ run.result = final.result ∧
      (State.start p options.order entry).Steps p final ∧ final.step? p = none ∧
      ∀ s, (State.start p options.order entry).Steps p s →
        s.Settled ∧ (∀ t, s.Steps p t → s.Grows t) ∧
          ∀ item ∈ s.worklist.items, ∀ o ∈ item.objects,
            o ∈ run.result.flow.objects item.pointer := by
  have hwell := hp.wellFormed
  have hentry := hwell.mainExists hmain
  have hclosed := Derivable.closed p entry
  obtain ⟨run, hrun, hresult⟩ := analyze_eq hmain options
  have hsolve : (State.start p options.order entry).Steps p (p.solve options.order entry) :=
    State.steps_drain _ _
  have hfinished := solve_finished hwell hclosed hentry options.order
  obtain ⟨hstart, hpending⟩ := State.start_steady hwell hclosed hentry options.order
  refine ⟨run, p.solve options.order entry, hrun, hresult, hsolve, hfinished.step?_eq_none, ?_⟩
  intro s hs
  obtain ⟨hsteady, hdone⟩ := State.Steps.steady hwell hclosed hstart hpending hs
  refine ⟨hsteady.settled hdone, ?_, ?_⟩
  · intro t ht
    exact State.Steps.grows hwell hclosed hsteady hdone ht
  · intro item hitem o ho
    -- the state lies on the way to the one in which the analysis ends
    have hrest := hs.to_end hsolve hfinished.step?_eq_none
    have hgrows := State.Steps.grows hwell hclosed hsteady hdone hrest
    rw [hresult]
    exact hfinished.arrived_of_queued hgrows hitem ho

theorem analyze_trajectory_getter :
    ∃ run final, getter.analyze { order := .lifo } = .ok run ∧ run.result = final.result ∧
      (State.start getter .lifo ⟨1⟩).Steps getter final ∧ final.step? getter = none ∧
      ∀ s, (State.start getter .lifo ⟨1⟩).Steps getter s →
        s.Settled ∧ (∀ t, s.Steps getter t → s.Grows t) ∧
          ∀ item ∈ s.worklist.items, ∀ o ∈ item.objects,
            o ∈ run.result.flow.objects item.pointer :=
  analyze_trajectory getter_built getter_main { order := .lifo }

end Program

end PointsTo
