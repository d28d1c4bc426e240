import PointsTo.Proofs.Callees
import PointsTo.Proofs.CallRecords
import PointsTo.Proofs.Courses

/-!
# What the log tells

The same object arrives at a pointer along many edges, the same method is called from many sites, and the
same call is found for many objects. Still the log of a run tells each fact once. What it tells of reachable
methods and of calls is, in this order, what the call graph holds. What it tells of a pointer splits the
points-to set of the pointer into parts. And it tells of every object that has no method for a call that it
arrives at.

- `Partition`: the parts of a set of objects.
- `State.Chronicled`: the events so far tell what the state holds.
- `State.Course.chronicled`: every change of the analysis tells what it adds.
- `Run.Chronicle`: the log of a run tells the result.
- `Program.analyze_chronicle`: the log of the analysis.
-/

namespace PointsTo

/-! ## §1 Parts of an event -/

namespace Event

/-- The objects that arrived at a pointer. -/
def grown? (x : Pointer) : Event → Option ObjSet
  | grew pointer delta => if pointer = x then some delta else none
  | _ => none

/-- The method that became reachable. -/
def reached? : Event → Option MethodId
  | reached m => some m
  | _ => none

/-- The call that was found. -/
def called? : Event → Option (Location × MethodId)
  | called site callee => some (site, callee)
  | _ => none

/-- The call that has no target and the object that it has none for. -/
def missed? : Event → Option (Location × ObjId)
  | noTarget site receiver => some (site, receiver)
  | _ => none

/-- What is plain information tells nothing of these kinds. -/
theorem tells_nothing_of_info {e : Event} (h : e.severity = .info) :
    e.reached? = none ∧ e.called? = none ∧ e.missed? = none ∧ ∀ x, e.grown? x = none := by
  cases e with
  | reached _ | called _ _ | noTarget _ _ | unresolved _ _ | grew _ _ => cases h
  | _ => exact ⟨rfl, rfl, rfl, fun _ => rfl⟩

end Event

/-- The call and the object of a visit, if the call has no target for the object. -/
def Visit.missed? (x : Visit) : Option (Location × ObjId) :=
  match x.target with
  | none => some x.key
  | some _ => none

theorem Visit.missed?_eq_some_iff {x : Visit} {key : Location × ObjId} :
    x.missed? = some key ↔ x.target = none ∧ x.key = key := by
  unfold missed?
  split
  · rename_i hnone
    simp [hnone]
  · rename_i hsome
    simp [hsome]

theorem mem_missed {visits : List Visit} {site : Location} {o : ObjId} :
    (site, o) ∈ visits.filterMap Visit.missed? ↔ ⟨site, o, none⟩ ∈ visits := by
  rw [List.mem_filterMap]
  constructor
  · intro ⟨⟨_, _, _⟩, hx, hmissed⟩
    obtain ⟨rfl, hkey⟩ := Visit.missed?_eq_some_iff.1 hmissed
    cases hkey
    exact hx
  · intro hx
    exact ⟨_, hx, rfl⟩

theorem sublist_keys (visits : List Visit) :
    (visits.filterMap Visit.missed?).Sublist (visits.map Visit.key) := by
  induction visits with
  | nil => exact List.Sublist.slnil
  | cons x rest ih =>
    rw [List.map_cons, List.filterMap_cons]
    cases hx : x.missed? with
    | none => exact ih.cons x.key
    | some key =>
      rw [(Visit.missed?_eq_some_iff.1 hx).2]
      exact ih.cons_cons key

/-- Sets without common members, none of them empty, that make up a set. -/
structure Partition (parts : List ObjSet) (whole : ObjSet) : Prop where
  nonempty : ∀ part ∈ parts, part ≠ ∅
  disjoint : parts.Pairwise fun a b => ∀ o ∈ a, o ∉ b
  mem_iff : ∀ o, o ∈ whole ↔ ∃ part ∈ parts, o ∈ part

theorem Partition.concat {parts : List ObjSet} {whole whole' delta : ObjSet} (h : Partition parts whole)
    (hne : delta ≠ ∅) (hnew : ∀ o ∈ delta, o ∉ whole)
    (hwhole : ∀ o, o ∈ whole' ↔ o ∈ whole ∨ o ∈ delta) : Partition (parts ++ [delta]) whole' where
  nonempty part hpart := by
    rcases List.mem_append.1 hpart with hold | hlast
    · exact h.nonempty part hold
    · rwa [List.mem_singleton.1 hlast]
  disjoint := by
    refine List.pairwise_append.2 ⟨h.disjoint, List.pairwise_singleton _ _, ?_⟩
    intro part hpart last hlast o ho hlate
    rw [List.mem_singleton.1 hlast] at hlate
    exact hnew o hlate ((h.mem_iff o).2 ⟨part, hpart, ho⟩)
  mem_iff o := by
    rw [hwhole, h.mem_iff]
    simp [or_and_right, exists_or]

/-! ## §2 Events so far -/

namespace State

variable {p : Program} {entry : MethodId} {s t : State} {visits x : List Visit}

/-- What the events so far tell of one kind. -/
def told {α : Type} (s : State) (f : Event → Option α) : List α := s.events.toList.filterMap f

/-- The events so far tell what the state holds, and which visits found no target. -/
structure Chronicled (visits : List Visit) (s : State) : Prop where
  reached : s.told Event.reached? = s.calls.methods
  called : s.told Event.called? = s.calls.edges.map CallEdge.key
  missed : s.told Event.missed? = visits.filterMap Visit.missed?
  grown : ∀ pointer, Partition (s.told (Event.grown? pointer)) (s.flow.pointsTo pointer)

theorem told_append {α : Type} {new : List Event} (f : Event → Option α)
    (h : t.events.toList = s.events.toList ++ new) : t.told f = s.told f ++ new.filterMap f := by
  unfold told
  rw [h, List.filterMap_append]

/-- A change that leaves the points-to sets as they are has to tell of methods, calls and visits. -/
theorem Chronicled.extend (hs : Chronicled visits s) (hext : s.Extends t) (new : List Event)
    (hevents : t.events.toList = s.events.toList ++ new)
    (hreached : t.calls.methods = s.calls.methods ++ new.filterMap Event.reached?)
    (hcalled : t.calls.edges.map CallEdge.key =
      s.calls.edges.map CallEdge.key ++ new.filterMap Event.called?)
    (hmissed : x.filterMap Visit.missed? = new.filterMap Event.missed?)
    (hgrown : ∀ pointer, new.filterMap (Event.grown? pointer) = []) :
    Chronicled (visits ++ x) t where
  reached := by rw [told_append _ hevents, hs.reached, hreached]
  called := by rw [told_append _ hevents, hs.called, hcalled]
  missed := by rw [told_append _ hevents, hs.missed, List.filterMap_append, hmissed]
  grown pointer := by
    rw [told_append _ hevents, hgrown, List.append_nil, hext.pointsTo]
    exact hs.grown pointer

/-- A change that adds neither methods nor calls nor a visit without target has nothing to tell. -/
theorem Chronicled.silent (hs : Chronicled visits s) (hext : s.Extends t) (hevents : t.events = s.events)
    (hcalls : t.calls = s.calls) (hmissed : x.filterMap Visit.missed? = []) :
    Chronicled (visits ++ x) t := by
  apply hs.extend hext []
  · rw [hevents, List.append_nil]
  · rw [hcalls, List.filterMap_nil, List.append_nil]
  · rw [hcalls, List.filterMap_nil, List.append_nil]
  · exact hmissed
  · exact fun _ => rfl

theorem events_connect {a b : Pointer} : (s.connect a b).events = s.events := by rw [connect_eq]

theorem events_emit (e : Event) : (s.emit e).events.toList = s.events.toList ++ [e] :=
  Array.toList_push

/-- **Changes are told**: a method that becomes reachable, a call that is recorded and a visit that finds no
    target are told of, and nothing else is. -/
theorem Chronicled.move (hs : Chronicled visits s) (h : Move p s x t) :
    Chronicled (visits ++ x) t := by
  have hext := h.extends
  cases h with
  | pop _ => exact hs.silent hext rfl rfl rfl
  | mention _ => exact hs.silent hext rfl rfl rfl
  | connect _ _ => exact hs.silent hext events_connect calls_connect rfl
  | reach m =>
    by_cases hm : m ∈ s.calls.methods
    · rw [reach_of_mem hm] at hext ⊢
      exact hs.silent hext rfl rfl rfl
    · rw [reach_of_not_mem hm] at hext ⊢
      exact hs.extend hext _ (events_emit _) rfl (List.append_nil _).symm rfl fun _ => rfl
  | @record e hcaller hcallee hnew =>
    -- both ends are reachable already, so the call is all that is new
    obtain ⟨hmethods, hedges⟩ := calls_record hcaller hcallee hnew
    apply hs.extend hext _ (events_emit _)
    · rw [hmethods]
      exact (List.append_nil _).symm
    · rw [hedges, List.map_append]
      rfl
    · rfl
    · exact fun _ => rfl
  | unresolved _ _ =>
    exact hs.extend hext _ (events_emit _) (List.append_nil _).symm (List.append_nil _).symm rfl
      fun _ => rfl
  | spawn _ _ => exact hs.silent hext rfl rfl rfl
  | @miss y _ htarget =>
    have hmissed : y.missed? = some y.key := Visit.missed?_eq_some_iff.2 ⟨htarget, rfl⟩
    apply hs.extend hext _ (events_emit _) (List.append_nil _).symm (List.append_nil _).symm
    · simp [hmissed, Event.missed?, Visit.key]
    · exact fun _ => rfl
  | @bind y callee _ htarget =>
    have hmissed : y.missed? = none := by simp [Visit.missed?, htarget]
    have hframe : (s.bindReceiver p callee y.receiver).events = s.events ∧
        (s.bindReceiver p callee y.receiver).calls = s.calls := by
      unfold bindReceiver
      split <;> exact ⟨rfl, rfl⟩
    apply hs.silent hext hframe.1 hframe.2
    simp [hmissed]

/-- A propagation tells the new part of the points-to set of its pointer. -/
theorem Chronicled.propagate (hs : Chronicled visits s) {item : WorkItem} {rest : Worklist}
    {pointer : Pointer} (hfind : s.flow.find? pointer = some item.pointer)
    (hne : s.newObjects item ≠ ∅) :
    Chronicled visits ((s.polled rest).propagate item.pointer pointer (s.newObjects item)) := by
  have hevents : ((s.polled rest).propagate item.pointer pointer (s.newObjects item)).events.toList =
      s.events.toList ++ [.grew pointer (s.newObjects item)] := events_emit _
  have hgrown : ∀ y o, o ∈ ((s.polled rest).propagate item.pointer pointer
      (s.newObjects item)).flow.pointsTo y ↔
        o ∈ s.flow.pointsTo y ∨ y = pointer ∧ o ∈ s.newObjects item :=
    fun y o => mem_pointsTo_propagate (s := s.polled rest) hfind
  refine ⟨?_, ?_, ?_, fun y => ?_⟩
  · rw [told_append _ hevents, hs.reached]
    exact List.append_nil _
  · rw [told_append _ hevents, hs.called]
    exact List.append_nil _
  · rw [told_append _ hevents, hs.missed]
    exact List.append_nil _
  · rw [told_append _ hevents]
    by_cases hy : pointer = y
    · subst hy
      have hlast : [Event.grew pointer (s.newObjects item)].filterMap (Event.grown? pointer) =
          [s.newObjects item] := by simp [Event.grown?]
      rw [hlast]
      -- the new objects are those that the pointer did not have, so the parts stay apart
      apply (hs.grown pointer).concat hne
      · exact fun o ho => not_mem_pointsTo_of_newObjects hfind ho
      · intro o
        rw [hgrown]
        simp
    · -- nothing arrives at other pointers
      have hnone : [Event.grew pointer (s.newObjects item)].filterMap (Event.grown? y) = [] := by
        simp [Event.grown?, hy]
      have hsame : ((s.polled rest).propagate item.pointer pointer
          (s.newObjects item)).flow.pointsTo y = s.flow.pointsTo y := by
        apply Ascending.ext_mem
        intro o
        rw [hgrown]
        simp [Ne.symm hy]
      rw [hnone, List.append_nil, hsame]
      exact hs.grown y

/-- **Courses are told**, whatever happens in them. -/
theorem Course.chronicled {taken : List WorkItem} (h : Course p s taken visits t)
    (hs : Chronicled [] s) : Chronicled visits t := by
  induction h with
  | start => exact hs
  | move _ hmove ih => exact ih.move hmove
  | drop _ _ _ ih => exact ⟨ih.reached, ih.called, ih.missed, ih.grown⟩
  | propagate _ _ hfind hne ih => exact ih.propagate hfind hne

theorem blank_chronicled (order : WorkOrder) : Chronicled [] (blank order entry) where
  reached := rfl
  called := rfl
  missed := rfl
  grown pointer := by
    refine ⟨fun part hpart => absurd hpart List.not_mem_nil, List.Pairwise.nil, fun o => ?_⟩
    constructor
    · intro ho
      obtain ⟨id, hfind, _⟩ := FlowGraph.mem_pointsTo.1 ho
      exact absurd (FlowGraph.mem_pointerList_of_pointer? (FlowGraph.pointer?_of_find? hfind))
        List.not_mem_nil
    · intro ⟨part, hpart, _⟩
      exact absurd hpart List.not_mem_nil

end State

/-! ## §3 The log of a run -/

/-- The log of a run tells each fact of its result once. -/
structure Run.Chronicle (run : Run) (p : Program) : Prop where
  /-- In full detail every event of the log makes a line. -/
  shown : run.lines p .trace = run.log.map (Event.line p run.result.heap)
  /-- What arrives at a pointer, one part after the other, is what it points to. -/
  grown : ∀ pointer, Partition (run.log.filterMap (Event.grown? pointer)) (run.result.pointsTo pointer)
  reached : run.log.filterMap Event.reached? = run.result.calls.methods
  reachedOnce : (run.log.filterMap Event.reached?).Nodup
  called : run.log.filterMap Event.called? = run.result.calls.edges.map CallEdge.key
  missed : ∀ site o, (site, o) ∈ run.log.filterMap Event.missed? ↔
    run.result.Visited p ⟨site, o, none⟩
  missedOnce : (run.log.filterMap Event.missed?).Nodup

theorem lines_trace (run : Run) (p : Program) :
    run.lines p .trace = run.log.map (Event.line p run.result.heap) := by
  unfold Run.lines
  rw [List.filter_eq_self.2]
  intro e _
  cases e.severity <;> rfl

/-- Reports are not part of what happened. -/
theorem Result.severity_report {r : Result} {mode : DumpMode} {e : Event} (he : e ∈ r.report mode) :
    e.severity = .info := by
  unfold report statisticsReport at he
  simp only [List.mem_append] at he
  rcases he with he | he
  · split at he
    · simp only [List.mem_append, List.mem_singleton, List.mem_map] at he
      rcases he with (rfl | ⟨x, _, rfl⟩) | ⟨x, _, rfl⟩ <;> rfl
    · exact absurd he List.not_mem_nil
  · split at he
    · rw [List.mem_singleton.1 he]
      rfl
    · exact absurd he List.not_mem_nil

namespace Program

variable {p : Program} {entry : MethodId}

/-- The log of a run tells what the events of the analysis tell. -/
theorem analyze_told (hmain : p.main = some entry) (options : Options) :
    ∃ run, p.analyze options = .ok run ∧ run.result = (p.solve options.order entry).result ∧
      ∀ {α : Type} (f : Event → Option α), (∀ e, e.severity = .info → f e = none) →
        run.log.filterMap f = (p.solve options.order entry).told f := by
  obtain ⟨run, hrun, hresult, hlog⟩ : ∃ run, p.analyze options = .ok run ∧
      run.result = (p.solve options.order entry).result ∧
      run.log = (p.solve options.order entry).events.toList ++ ([.finished run.result.statistics] ++
        run.result.report options.dump) := by
    simp [analyze, hmain]
  refine ⟨run, hrun, hresult, fun f hf => ?_⟩
  rw [hlog, List.filterMap_append]
  -- after the last propagation there are only reports
  have htail : ([Event.finished run.result.statistics] ++ run.result.report options.dump).filterMap f =
      [] := by
    rw [List.filterMap_eq_nil_iff]
    intro e he
    rcases List.mem_append.1 he with he | he
    · rw [List.mem_singleton.1 he]
      exact hf _ rfl
    · exact hf e (Result.severity_report he)
  rw [htail, List.append_nil]
  rfl

/-- **The log tells each fact once**: for a built program, the parts that the log tells of a pointer split its
    points-to set, what it tells of methods and calls is the call graph in order, and it tells of each object
    that has no method for a call that it arrives at. -/
theorem analyze_chronicle (hp : p.Built) (hmain : p.main = some entry) (options : Options) :
    ∃ run, p.analyze options = .ok run ∧ run.Chronicle p := by
  have hwell := hp.wellFormed
  have hentry := hwell.mainExists hmain
  obtain ⟨run, hrun, hresult, htold⟩ := analyze_told hmain options
  obtain ⟨visits, hcourse, honce, hvisited⟩ := solve_course hwell hentry options.order
  have hchronicled := hcourse.chronicled (State.blank_chronicled options.order)
  -- the report at the end of the log is plain information
  have hreached := (htold Event.reached? fun e he => (Event.tells_nothing_of_info he).1).trans
    hchronicled.reached
  have hcalled := (htold Event.called? fun e he => (Event.tells_nothing_of_info he).2.1).trans
    hchronicled.called
  have hmissed := (htold Event.missed? fun e he => (Event.tells_nothing_of_info he).2.2.1).trans
    hchronicled.missed
  have hgrown : ∀ pointer, run.log.filterMap (Event.grown? pointer) =
      (p.solve options.order entry).told (Event.grown? pointer) :=
    fun pointer => htold _ fun e he => (Event.tells_nothing_of_info he).2.2.2 pointer
  refine ⟨run, hrun, ?_⟩
  exact
    { shown := lines_trace run p
      grown := fun pointer => by
        rw [hgrown, hresult]
        exact hchronicled.grown pointer
      reached := by rw [hreached, hresult]; rfl
      reachedOnce := by
        rw [hreached]
        exact (solve_exact hwell hentry options.order).methodsNodup
      called := by rw [hcalled, hresult]; rfl
      missed := fun site o => by
        rw [hmissed, hresult, mem_missed, hvisited]
      missedOnce := by
        rw [hmissed]
        exact honce.sublist (sublist_keys visits) }

/-- Arrays do not have the method of the interface, whether they are there from the start or arrive late. -/
theorem missed_greeter {order : WorkOrder} (horder : order = .lifo) :
    (greeter.solve order ⟨2⟩).told Event.missed? = [(⟨⟨2⟩, 5⟩, ⟨1⟩), (⟨⟨2⟩, 2⟩, ⟨1⟩)] := by
  subst horder
  decide +kernel

theorem analyze_chronicle_greeter :
    ∃ run, greeter.analyze { order := .lifo } = .ok run ∧
      run.log.filterMap Event.missed? = [(⟨⟨2⟩, 5⟩, ⟨1⟩), (⟨⟨2⟩, 2⟩, ⟨1⟩)] ∧
      run.Chronicle greeter := by
  obtain ⟨run, hrun, hchronicle⟩ := analyze_chronicle greeter_built greeter_main { order := .lifo }
  obtain ⟨run', hrun', _, htold⟩ := analyze_told greeter_main { order := .lifo }
  cases hrun.symm.trans hrun'
  refine ⟨run, hrun, ?_, hchronicle⟩
  rw [htold Event.missed? fun e he => (Event.tells_nothing_of_info he).2.2.1]
  exact missed_greeter rfl

end Program

end PointsTo
