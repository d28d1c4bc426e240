import PointsTo.Proofs.CallRecords
import PointsTo.Proofs.Trajectory
import PointsTo.Proofs.Unreachable

/-!
# Runs turn by turn

A run can be taken apart into turns smaller than a propagation. In one turn a single statement takes
effect, or the next pending method is opened so that its statements come up, or, when no method is pending,
the next item of the worklist is delivered. The turns are labelled with the statement that takes effect,
so that a run leaves a trace. There is never a choice, hence all maximal runs from one moment leave the
same trace and end in the same state.

Methods are opened in the order in which they become reachable. At any moment between two methods, the
reachable methods are those opened so far followed by those that are pending, and so the trace of a whole
run consists of the statements of the reachable methods, each of them once.

- `Turn`, `Turns`: one turn, and any number of turns with the trace that they leave.
- `Turns.unique`: maximal runs from the same moment agree.
- `State.Paced`: reachable methods are open or pending.
- `Program.turns_solve`: the run of the analysis and its trace.
-/

namespace PointsTo

/-! ## §1 Turns -/

namespace State

/-- What an item brings is delivered to its node. The methods that become reachable are left pending. -/
def deliver (p : Program) (s : State) (item : WorkItem) : State :=
  match s.flow.pointer? item.pointer with
  | none => s
  | some pointer =>
    if (s.newObjects item).isEmpty then s
    else (s.propagate item.pointer pointer (s.newObjects item)).receiveAll p pointer (s.newObjects item)

end State

/-- A moment of a run. -/
structure Moment where
  /-- What the analysis knows. -/
  state : State
  /-- The statements of the method last opened that have not taken effect yet. -/
  agenda : List (Location × Stmt)

/-- A turn leads from one moment to the next. Its label is the location of the statement that takes
    effect, if one does. -/
inductive Turn (p : Program) : Moment → List Location → Moment → Prop
  | statement {s : State} {loc : Location} {stmt : Stmt} {rest : List (Location × Stmt)} :
      Turn p ⟨s, (loc, stmt) :: rest⟩ [loc] ⟨s.enterStmt p loc stmt, rest⟩
  | opening {s : State} {m : MethodId} {rest : List MethodId} : s.pending = m :: rest →
      Turn p ⟨s, []⟩ [] ⟨{ s with pending := rest }, p.statementsOf m⟩
  | delivery {s : State} {item : WorkItem} {rest : Worklist} : s.pending = [] →
      s.worklist.poll = some (item, rest) →
      Turn p ⟨s, []⟩ [] ⟨(s.polled rest).deliver p item, []⟩

/-- Any number of turns, with the statements that take effect on the way. -/
inductive Turns (p : Program) : Moment → List Location → Moment → Prop
  | refl (a : Moment) : Turns p a [] a
  | cons {a b c : Moment} {label trace : List Location} :
      Turn p a label b → Turns p b trace c → Turns p a (label ++ trace) c

/-- Nothing is left to do. -/
def Moment.IsLast (p : Program) (a : Moment) : Prop := ∀ label b, ¬ Turn p a label b

/-- The moment in which the analysis starts: the entry method is pending. -/
def Moment.first (order : WorkOrder) (entry : MethodId) : Moment :=
  ⟨(State.blank order entry).reach entry, []⟩

/-- A run from the first moment to one in which nothing is left to do. -/
def Program.Completes (p : Program) (order : WorkOrder) (entry : MethodId) (trace : List Location)
    (last : Moment) : Prop :=
  Turns p (Moment.first order entry) trace last ∧ last.IsLast p

section

variable {p : Program} {a b b' c c' : Moment} {label label' trace trace' : List Location}

theorem Turns.trans (h : Turns p a trace b) (h' : Turns p b trace' c) :
    Turns p a (trace ++ trace') c := by
  induction h with
  | refl _ => exact h'
  | cons hturn _ ih =>
    rw [List.append_assoc]
    exact Turns.cons hturn (ih h')

/-- There is never a choice between two turns. -/
theorem Turn.unique (h : Turn p a label b) (h' : Turn p a label' b') : label = label' ∧ b = b' := by
  cases h with
  | statement =>
    cases h'
    exact ⟨rfl, rfl⟩
  | opening hpending =>
    cases h' with
    | opening hpending' =>
      obtain ⟨rfl, rfl⟩ := List.cons.inj (hpending.symm.trans hpending')
      exact ⟨rfl, rfl⟩
    | delivery hnil _ => exact absurd (hnil.symm.trans hpending) (List.cons_ne_nil _ _).symm
  | delivery hnil hpoll =>
    cases h' with
    | opening hpending => exact absurd (hnil.symm.trans hpending) (List.cons_ne_nil _ _).symm
    | delivery _ hpoll' =>
      cases hpoll.symm.trans hpoll'
      exact ⟨rfl, rfl⟩

/-- **Determinism**: maximal runs from the same moment leave the same trace and end alike. -/
theorem Turns.unique (h : Turns p a trace c) (hlast : c.IsLast p) (h' : Turns p a trace' c')
    (hlast' : c'.IsLast p) : trace = trace' ∧ c = c' := by
  -- neither run can stop where the other one goes on, and they take the same turns until then
  induction h generalizing trace' with
  | refl a =>
    cases h' with
    | refl _ => exact ⟨rfl, rfl⟩
    | cons hturn _ => exact absurd hturn (hlast _ _)
  | cons hturn _ ih =>
    cases h' with
    | refl _ => exact absurd hturn (hlast' _ _)
    | cons hturn' hrest' =>
      obtain ⟨rfl, rfl⟩ := hturn.unique hturn'
      obtain ⟨rfl, rfl⟩ := ih hlast hrest'
      exact ⟨rfl, rfl⟩

/-- The statements on the agenda take effect one after the other. -/
theorem turns_agenda (s : State) (agenda : List (Location × Stmt)) :
    Turns p ⟨s, agenda⟩ (agenda.map Prod.fst)
      ⟨agenda.foldl (fun s entry => s.enterStmt p entry.1 entry.2) s, []⟩ := by
  induction agenda generalizing s with
  | nil => exact Turns.refl _
  | cons entry rest ih => exact Turns.cons Turn.statement (ih (s.enterStmt p entry.1 entry.2))

end

/-! ## §2 The statements of a method -/

namespace Program

variable {p : Program}

/-- The locations of the statements of one method. -/
def locationsOf (p : Program) (m : MethodId) : List Location := (p.statementsOf m).map Prod.fst

theorem mem_locationsOf {m : MethodId} {loc : Location} :
    loc ∈ p.locationsOf m ↔ loc.method = m ∧ ∃ stmt, p.stmt? loc = some stmt := by
  constructor
  · intro hloc
    obtain ⟨⟨_, stmt⟩, hmem, rfl⟩ := List.mem_map.1 hloc
    obtain ⟨hmethod, hstmt⟩ := mem_statementsOf hmem
    exact ⟨hmethod, stmt, hstmt⟩
  · rintro ⟨rfl, stmt, hstmt⟩
    obtain ⟨method, hmethod, hbody⟩ := stmt?_eq_some_iff.1 hstmt
    refine List.mem_map.2 ⟨(loc, stmt), ?_, rfl⟩
    unfold statementsOf
    rw [hmethod]
    exact List.mem_map.2 ⟨(stmt, loc.index), List.mk_mem_zipIdx_iff_getElem?.2 hbody, rfl⟩

theorem nodup_locationsOf (m : MethodId) : (p.locationsOf m).Nodup := by
  unfold locationsOf statementsOf
  split
  · exact List.nodup_nil
  · rename_i method _
    -- the statements of a body differ in their position
    have hpositions : (method.body.zipIdx.map Prod.snd).Nodup := by
      rw [List.zipIdx_map_snd]
      exact List.nodup_range'
    rw [List.map_map]
    refine List.Nodup.of_map Location.index ?_
    rw [List.map_map]
    exact hpositions

/-- The statements of different methods stand at different locations. -/
theorem nodup_flatMap_locationsOf {methods : List MethodId} (h : methods.Nodup) :
    (methods.flatMap p.locationsOf).Nodup := by
  rw [List.nodup_flatMap]
  refine ⟨fun m _ => nodup_locationsOf m, h.imp ?_⟩
  -- a location tells which method it belongs to
  intro m m' hne loc hloc hloc'
  exact hne ((mem_locationsOf.1 hloc).1.symm.trans (mem_locationsOf.1 hloc').1)

end Program

namespace State

variable {p : Program} {F : Fact → Prop} {entry : MethodId} {s t : State}

theorem enterMethod_eq (m : MethodId) :
    s.enterMethod p m =
      (p.statementsOf m).foldl (fun s entry => s.enterStmt p entry.1 entry.2) s := by
  unfold enterMethod Program.statementsOf
  cases p.method? m with
  | none => rfl
  | some method =>
    dsimp only
    rw [List.foldl_map]

/-- Opening a pending method and going through its statements has the effect of entering it. -/
theorem turns_enterMethod {m : MethodId} {rest : List MethodId} (hpending : s.pending = m :: rest) :
    Turns p ⟨s, []⟩ (p.locationsOf m) ⟨{ s with pending := rest }.enterMethod p m, []⟩ := by
  rw [enterMethod_eq]
  exact Turns.cons (Turn.opening hpending) (turns_agenda _ _)

/-! ## §3 Call graphs stay sound -/

theorem sound_reach (h : s.calls.Sound) (m : MethodId) : (s.reach m).calls.Sound := by
  have hmethod := h.addMethod m
  unfold reach
  dsimp only
  split
  · exact hmethod
  · exact h

theorem Action.sound {n : Nat} (h : Action p F n s t) (hs : s.calls.Sound) : t.calls.Sound := by
  cases h with
  | note _ => exact hs
  | wire hwiring => exact hwiring.frame.2.1 ▸ hs
  | feed _ => exact hs
  | reach _ _ => exact sound_reach hs _
  | call _ _ _ _ _ _ hwiring _ =>
    rw [hwiring.frame.2.1]
    exact hs.addEdge _
  | spawn _ _ _ _ _ _ => exact hs

theorem Actions.sound {n : Nat} (h : Actions p F s n t) (hs : s.calls.Sound) : t.calls.Sound := by
  induction h with
  | refl _ => exact hs
  | step _ haction ih => exact haction.sound ih

/-! ## §4 The pace of a run -/

variable {opened : List MethodId}

/-- A steady state with a sound call graph, in which the reachable methods are those opened so far and then
    those that are pending. -/
structure Paced (p : Program) (F : Fact → Prop) (opened : List MethodId) (s : State) : Prop
    extends Steady p F s where
  queued : s.calls.methods = opened ++ s.pending
  sound : s.calls.Sound

/-- Methods that are discovered queue up behind those that are pending. -/
theorem queued_of_discovers (hs : s.calls.methods = opened ++ s.pending) (h : s.Discovers t) :
    t.calls.methods = opened ++ t.pending := by
  obtain ⟨new, hmethods, hpending⟩ := h
  rw [hmethods, hpending, hs, List.append_assoc]

theorem Paced.enterMethod (hp : p.WellFormed) (hF : Closed p entry F) (hs : Paced p F opened s)
    {m : MethodId} {rest : List MethodId} (hpending : s.pending = m :: rest) :
    Paced p F (opened ++ [m]) ({ s with pending := rest }.enterMethod p m) := by
  have hactions := hs.enterMethod_actions hp hF hpending
  refine ⟨hs.toSteady.enterMethod hp hF hpending, ?_, ?_⟩
  · -- the method moves from the pending ones to those that are opened
    have hmoved : s.calls.methods = opened ++ [m] ++ rest := by
      rw [hs.queued, hpending, List.append_assoc]
      rfl
    exact queued_of_discovers (s := { s with pending := rest }) hmoved hactions.discovers
  · exact Actions.sound (s := { s with pending := rest }) hactions hs.sound

theorem Paced.deliver (hp : p.WellFormed) (hF : Closed p entry F) (hs : Paced p F opened s)
    {item : WorkItem} {rest : Worklist} (hpoll : s.worklist.poll = some (item, rest)) :
    Paced p F opened ((s.polled rest).deliver p item) := by
  have hitem : item ∈ s.worklist.items := (Worklist.mem_items_of_poll hpoll).2 (Or.inl rfl)
  obtain ⟨pointer, hpointer⟩ := FlowGraph.exists_pointer?_of_lt (hs.nodes hitem)
  have hpointer' : (s.polled rest).flow.pointer? item.pointer = some pointer := hpointer
  unfold State.deliver
  rw [hpointer']
  dsimp only
  split
  · -- an item that brings nothing new is only taken off the worklist
    rename_i hempty
    exact ⟨hs.toSteady.polled hpoll (Ascending.isEmpty_iff.1 hempty), hs.queued, hs.sound⟩
  · rename_i hsome
    have hne : s.newObjects item ≠ ∅ := fun hempty => hsome (Ascending.isEmpty_iff.2 hempty)
    have hactions := hs.receive_actions hp hF hpoll hpointer hne
    -- the calls on the new objects may discover methods, which queue up as well
    refine ⟨hs.toSteady.receiveAll hp hF hpoll hpointer hne, ?_, ?_⟩
    · exact queued_of_discovers (s := (s.polled rest).propagate item.pointer pointer _) hs.queued
        hactions.discovers
    · exact Actions.sound hactions hs.sound

/-! ## §5 Whole runs -/

/-- Turns that open some further methods and let all their statements take effect. -/
def Proceeds (p : Program) (F : Fact → Prop) (opened : List MethodId) (s t : State) : Prop :=
  ∃ further, Turns p ⟨s, []⟩ (further.flatMap p.locationsOf) ⟨t, []⟩ ∧ Paced p F (opened ++ further) t

theorem Paced.proceeds_refl (hs : Paced p F opened s) : Proceeds p F opened s s :=
  ⟨[], Turns.refl _, (List.append_nil opened).symm ▸ hs⟩

/-- What comes later proceeds from the methods opened before. -/
theorem Proceeds.trans {u : State} (h : Proceeds p F opened s t)
    (h' : ∀ {opened}, Paced p F opened t → Proceeds p F opened t u) : Proceeds p F opened s u := by
  obtain ⟨further, hturns, hpaced⟩ := h
  obtain ⟨further', hturns', hpaced'⟩ := h' hpaced
  refine ⟨further ++ further', ?_, ?_⟩
  · rw [List.flatMap_append]
    exact hturns.trans hturns'
  · rwa [List.append_assoc] at hpaced'

theorem enterPending_proceeds (hp : p.WellFormed) (hF : Closed p entry F) (n : Nat)
    (hs : Paced p F opened s) : Proceeds p F opened s (s.enterPending p n) := by
  -- each round takes the first pending method and lengthens the list of those opened by it
  induction n generalizing s opened with
  | zero => exact hs.proceeds_refl
  | succ n ih =>
    unfold enterPending
    split
    · exact hs.proceeds_refl
    · rename_i m rest hpending
      obtain ⟨further, hturns, hpaced⟩ := ih (hs.enterMethod hp hF hpending)
      refine ⟨m :: further, (turns_enterMethod hpending).trans hturns, ?_⟩
      rwa [List.append_assoc] at hpaced

theorem settle_of_pending (h : s.pending = []) : s.settle p = s := by
  unfold settle
  cases p.methods.size with
  | zero => rfl
  | succ n =>
    unfold enterPending
    rw [h]

/-- A propagation is a delivery after which the pending methods are entered. -/
theorem absorb_eq (h : s.pending = []) (item : WorkItem) :
    s.absorb p item = (s.deliver p item).settle p := by
  unfold absorb deliver newObjects
  -- where nothing is delivered nothing has become pending, so there is nothing to settle
  cases s.flow.pointer? item.pointer with
  | none => exact (settle_of_pending h).symm
  | some pointer =>
    dsimp only
    split
    · exact (settle_of_pending h).symm
    · rfl

theorem step?_proceeds (hp : p.WellFormed) (hF : Closed p entry F) (hs : Paced p F opened s)
    (hpending : s.pending = []) (h : s.step? p = some t) : Proceeds p F opened s t := by
  obtain ⟨⟨item, rest⟩, hpoll, hstep⟩ := Option.map_eq_some_iff.1 h
  have ht : ((s.polled rest).deliver p item).settle p = t := by
    rw [← absorb_eq (s := s.polled rest) hpending]
    exact hstep
  obtain ⟨further, hturns, hpaced⟩ :=
    enterPending_proceeds hp hF p.methods.size (hs.deliver hp hF hpoll)
  rw [← ht]
  exact ⟨further, Turns.cons (Turn.delivery hpending hpoll) hturns, hpaced⟩

/-- **Runs**: any number of propagations can be taken apart into turns. -/
theorem Steps.proceeds (hp : p.WellFormed) (hF : Closed p entry F) (hs : Paced p F opened s)
    (hpending : s.pending = []) (h : s.Steps p t) : Proceeds p F opened s t := by
  induction h with
  | refl => exact hs.proceeds_refl
  | tail hsteps hstep ih =>
    obtain ⟨_, hdone⟩ := Steps.steady hp hF hs.toSteady hpending hsteps
    exact ih.trans fun hpaced => step?_proceeds hp hF hpaced hdone hstep

/-- The entry method is the first one that is pending. -/
theorem paced_first (hF : Closed p entry F) (hentry : entry.index < p.methods.size)
    (order : WorkOrder) : Paced p F [] ((blank order entry).reach entry) := by
  have hreach := reach_entry hF hentry order
  have hblank : (blank order entry).calls.Sound :=
    ⟨List.nodup_nil, List.nodup_nil, fun _ he => absurd he List.not_mem_nil, rfl⟩
  refine ⟨(blank_steady order).actions hF hreach, ?_, hreach.sound hblank⟩
  exact queued_of_discovers (s := blank order entry) rfl hreach.discovers

/-- Before the first propagation, the entry method is entered and what it reaches without any object. -/
theorem start_proceeds (hp : p.WellFormed) (hF : Closed p entry F)
    (hentry : entry.index < p.methods.size) (order : WorkOrder) :
    Proceeds p F [] ((blank order entry).reach entry) (start p order entry) := by
  rw [start_eq]
  exact enterPending_proceeds hp hF p.methods.size (paced_first hF hentry order)

theorem Finished.isLast (h : Finished p F s) : Moment.IsLast p ⟨s, []⟩ := by
  intro label b hturn
  cases hturn with
  | opening hpending => exact absurd (h.pending.symm.trans hpending) (List.cons_ne_nil _ _).symm
  | delivery _ hpoll =>
    rw [Worklist.poll_eq_none_iff.2 h.worklist] at hpoll
    exact absurd hpoll.symm (Option.some_ne_none _)

end State

namespace Program

variable {p : Program} {F : Fact → Prop} {entry : MethodId}

/-- **Traces**: the analysis goes through the statements of the reachable methods, in the order in which
    the methods become reachable. -/
theorem turns_solve (hp : p.WellFormed) (hF : Closed p entry F)
    (hentry : entry.index < p.methods.size) (order : WorkOrder) :
    p.Completes order entry ((p.solve order entry).calls.methods.flatMap p.locationsOf)
        ⟨p.solve order entry, []⟩ ∧
      (p.solve order entry).calls.Sound := by
  have hfinished := solve_finished hp hF hentry order
  obtain ⟨_, hpending⟩ := State.start_steady hp hF hentry order
  obtain ⟨opened, hturns, hpaced⟩ := (State.start_proceeds hp hF hentry order).trans fun hstart =>
    State.Steps.proceeds hp hF hstart hpending (State.steps_drain p.iterationBound _)
  -- nothing is pending in the end, so the methods that were opened are all that are reachable
  have hmethods : (p.solve order entry).calls.methods = [] ++ opened ++ (p.solve order entry).pending :=
    hpaced.queued
  rw [hfinished.pending, List.nil_append, List.append_nil] at hmethods
  rw [hmethods]
  exact ⟨⟨hturns, hfinished.isLast⟩, hpaced.sound⟩

end Program

end PointsTo
