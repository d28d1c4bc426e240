import PointsTo.Proofs.Turns

/-!
# The course of a run

Invariants of a run are about what the analysis knows at one moment. What happens how often is a matter of
the run as a whole, so it is told here as a course: the smallest changes that the analysis makes, one after
the other, with the work items that it takes and the visits that objects pay to call sites. An account of
what happened only has to say what each kind of change adds to it.

The visits of a run are determined by its end. Every object that the receiver of a call points to has visited
the call once.

- `State.Move`: a change between propagations.
- `State.Course`: a sequence of changes and propagations.
- `State.taken`: the items that are taken in turn.
- `State.Toured`: every object has visited the calls on the variables that it has arrived at.
- `Result.Visited`: the visits that a result calls for.
- `Program.solve_course`: the course of the analysis.
-/

namespace PointsTo

/-! ## §1 Changes -/

/-- An object has arrived at a call; the target is the method that the call runs for it, if it has one. -/
structure Visit where
  /-- The calling statement. -/
  site : Location
  /-- The object. -/
  receiver : ObjId
  /-- The method that the call runs for the object. -/
  target : Option MethodId

namespace Visit

/-- The site and the object, which tell visits apart. -/
def key (x : Visit) : Location × ObjId := (x.site, x.receiver)

/-- The target of a visit is the one that the call at its site has for the type of its object. -/
def Valid (p : Program) (heap : Heap) (x : Visit) : Prop :=
  ∃ call obj, p.stmt? x.site = some (.invoke call) ∧ heap.obj? x.receiver = some obj ∧
    p.callee? call (some obj.ty) = x.target

theorem Valid.of_isPrefix {p : Program} {heap heap' : Heap} {x : Visit} (h : x.Valid p heap)
    (hpre : heap.objects.toList <+: heap'.objects.toList) : x.Valid p heap' := by
  obtain ⟨call, obj, hstmt, hobj, htarget⟩ := h
  exact ⟨call, obj, hstmt, Heap.obj?_of_isPrefix hpre hobj, htarget⟩

end Visit

namespace State

variable {p : Program} {F : Fact → Prop} {entry : MethodId} {s t u : State}

/-- A change between propagations, with the visit that it is the effect of. -/
inductive Move (p : Program) : State → List Visit → State → Prop
  /-- Some methods no longer wait to be entered. -/
  | pop {s : State} (pending : List MethodId) : Move p s [] { s with pending }
  | mention {s : State} (pointer : Pointer) : Move p s [] (s.mention pointer)
  | connect {s : State} (a b : Pointer) : Move p s [] (s.connect a b)
  | reach {s : State} (m : MethodId) : Move p s [] (s.reach m)
  /-- The first call from a site to a method is recorded. Both ends are reachable by then. -/
  | record {s : State} {e : CallEdge} : e.caller ∈ s.calls.methods → e.callee ∈ s.calls.methods →
      s.calls.hasCall e.site e.callee = false → Move p s [] (s.record e)
  | unresolved {s : State} (site : Location) (target : Subsignature) :
      Move p s [] (s.emit (.unresolved site target))
  /-- The object of a new allocation site is created and sent to its variable. -/
  | spawn {s : State} {loc : Location} {lhs : VarId} {ty : Ty} : p.stmt? loc = some (.new lhs ty) →
      s.heap.at? loc = none →
      Move p s [] ({ s with heap := (s.heap.allocate loc ty).1 }.feed (.var lhs)
        (Ascending.singleton (s.heap.allocate loc ty).2))
  /-- An object has no method for a call. -/
  | miss {s : State} {x : Visit} : x.Valid p s.heap → x.target = none →
      Move p s [x] (s.emit (.noTarget x.site x.receiver))
  /-- An object becomes the receiver of the method that a call runs for it. -/
  | bind {s : State} {x : Visit} {callee : MethodId} : x.Valid p s.heap → x.target = some callee →
      Move p s [x] (s.bindReceiver p callee x.receiver)

theorem Move.extends {x : List Visit} (h : Move p s x t) : s.Extends t := by
  cases h with
  | pop _ => exact pending_extends _
  | mention _ => exact mention_extends _
  | connect _ _ => exact connect_extends _ _
  | reach _ => exact reach_extends _
  | record _ _ _ => exact record_emit_extends _
  | unresolved _ _ => exact emit_extends _
  | spawn _ _ => exact (allocate_extends _ _).trans (feed_extends _ _)
  | miss _ _ => exact emit_extends _
  | bind _ _ => exact bindReceiver_extends _ _

theorem Move.valid {x : List Visit} (h : Move p s x t) : ∀ y ∈ x, y.Valid p t.heap := by
  intro y hy
  have hheap := h.extends.heap
  -- only the last two kinds of change have a visit
  cases h with
  | miss hvalid _ | bind hvalid _ =>
    rw [List.mem_singleton.1 hy]
    exact hvalid.of_isPrefix hheap
  | pop _ | mention _ | connect _ _ | reach _ | record _ _ _ | unresolved _ _ | spawn _ _ =>
    exact absurd hy List.not_mem_nil

/-! ## §2 Courses -/

/-- A sequence of changes and propagations, with the items that are taken and the visits that are paid. -/
inductive Course (p : Program) (s : State) : List WorkItem → List Visit → State → Prop
  | start : Course p s [] [] s
  | move {taken : List WorkItem} {visits x : List Visit} {t u : State} :
      Course p s taken visits t → Move p t x u → Course p s taken (visits ++ x) u
  /-- An item that brings nothing new is dropped. -/
  | drop {taken : List WorkItem} {visits : List Visit} {t : State} {item : WorkItem} {rest : Worklist} :
      Course p s taken visits t → t.worklist.poll = some (item, rest) → t.newObjects item = ∅ →
      Course p s (taken ++ [item]) visits (t.polled rest)
  /-- The new objects of an item are added to its pointer and queued for the successors. -/
  | propagate {taken : List WorkItem} {visits : List Visit} {t : State} {item : WorkItem}
      {rest : Worklist} {pointer : Pointer} : Course p s taken visits t →
      t.worklist.poll = some (item, rest) → t.flow.find? pointer = some item.pointer →
      t.newObjects item ≠ ∅ → Course p s (taken ++ [item]) visits
        ((t.polled rest).propagate item.pointer pointer (t.newObjects item))

namespace Course

variable {taken taken' : List WorkItem} {visits visits' : List Visit}

theorem trans (h : Course p s taken visits t) (h' : Course p t taken' visits' u) :
    Course p s (taken ++ taken') (visits ++ visits') u := by
  induction h' with
  | start => simpa using h
  | move _ hmove ih => simpa only [List.append_assoc] using ih.move hmove
  | drop _ hpoll hempty ih => simpa only [List.append_assoc] using ih.drop hpoll hempty
  | propagate _ hpoll hfind hne ih =>
    simpa only [List.append_assoc] using ih.propagate hpoll hfind hne

theorem heap (h : Course p s taken visits t) : s.heap.objects.toList <+: t.heap.objects.toList := by
  induction h with
  | start => exact List.prefix_rfl
  | move _ hmove ih => exact ih.trans hmove.extends.heap
  | drop _ _ _ ih => exact ih
  | propagate _ _ _ _ ih => exact ih

theorem valid (h : Course p s taken visits t) : ∀ x ∈ visits, x.Valid p t.heap := by
  induction h with
  | start => exact fun x hx => absurd hx List.not_mem_nil
  | move _ hmove ih =>
    intro x hx
    rcases List.mem_append.1 hx with hold | hnew
    · exact (ih x hold).of_isPrefix hmove.extends.heap
    · exact hmove.valid x hnew
  | drop _ _ _ ih => exact ih
  | propagate _ _ _ _ ih => exact ih

/-- The items that are taken are counted. -/
theorem iterations (h : Course p s taken visits t) :
    t.iterations = s.iterations + taken.length := by
  induction h with
  | start => rfl
  | move _ hmove ih => rw [hmove.extends.iterations, ih]
  | drop _ _ _ ih | propagate _ _ _ _ ih =>
    rw [List.length_append, List.length_singleton, ← Nat.add_assoc, ← ih]
    rfl

end Course

theorem Move.course {x : List Visit} (h : Move p s x t) : Course p s [] x t :=
  Course.start.move h

/-! ## §3 Operations -/

namespace Course

/-- Two courses without visits between propagations make one. -/
theorem andThen (h : Course p s [] [] t) (h' : Course p t [] [] u) : Course p s [] [] u :=
  h.trans h'

theorem connectAll (edges : List (Pointer × Pointer)) : Course p s [] [] (s.connectAll edges) := by
  induction edges generalizing s with
  | nil => exact Course.start
  | cons e rest ih => exact (Move.connect e.1 e.2).course.andThen ih

theorem passValues (call : Invoke) (method : Method) :
    Course p s [] [] (s.passValues call method) := by
  rw [passValues_eq]
  apply (connectAll _).andThen
  cases call.result with
  | none => exact Course.start
  | some result => exact (Move.mention _).course.andThen (connectAll _)

theorem link {site : Location} {call : Invoke} {callee : MethodId} {method : Method}
    (hmethod : p.method? callee = some method) (hcaller : site.method ∈ s.calls.methods) :
    Course p s [] [] (s.link p site call callee) := by
  have hreach : Course p s [] [] (s.reach callee) := (Move.reach callee).course
  cases hknown : s.calls.hasCall site callee with
  | true => rwa [link_of_known hknown]
  | false =>
    rw [link_of_new hmethod hknown]
    -- both ends of the edge are reachable by now
    have hcaller' := (reach_extends callee).methods.subset hcaller
    have hnew : (s.reach callee).calls.hasCall site callee = false := by rwa [hasCall_reach]
    have hrecord : Move p (s.reach callee) [] ((s.reach callee).record ⟨call.kind, site, callee⟩) :=
      .record hcaller' (mem_reach callee) hnew
    exact (hreach.andThen hrecord.course).andThen (passValues call method)

theorem callStatic (hp : p.WellFormed) {site : Location} {call : Invoke}
    (hcaller : site.method ∈ s.calls.methods) : Course p s [] [] (s.callStatic p site call) := by
  unfold State.callStatic
  split
  · exact (Move.unresolved _ _).course
  · rename_i callee hcallee
    obtain ⟨method, hmethod⟩ := hp.method_exists hcallee
    exact link hmethod hcaller

/-- An object that has arrived at a call pays a visit to it. -/
theorem callInstance (hp : p.WellFormed) {site : Location} {call : Invoke} {o : ObjId} {obj : Obj}
    (hstmt : p.stmt? site = some (.invoke call)) (hobj : s.heap.obj? o = some obj)
    (hcaller : site.method ∈ s.calls.methods) :
    Course p s [] [⟨site, o, p.callee? call (some obj.ty)⟩] (s.callInstance p o site) := by
  have hvalid : Visit.Valid p s.heap ⟨site, o, p.callee? call (some obj.ty)⟩ :=
    ⟨call, obj, hstmt, hobj, rfl⟩
  unfold State.callInstance
  simp only [hstmt, hobj, Option.map_some]
  split
  · rename_i hnone
    exact (Move.miss hvalid hnone).course
  · rename_i callee hcallee
    obtain ⟨method, hmethod⟩ := hp.method_exists hcallee
    -- the object is bound before the call is linked, and every time
    have hbind := (Move.bind hvalid hcallee).course
    exact hbind.trans (link hmethod ((bindReceiver_extends callee o).methods.subset hcaller))

theorem enterStmt (hp : p.WellFormed) {loc : Location} {stmt : Stmt} (hstmt : p.stmt? loc = some stmt)
    (hmethod : loc.method ∈ s.calls.methods) (hfresh : s.heap.at? loc = none) :
    Course p s [] [] (s.enterStmt p loc stmt) := by
  unfold State.enterStmt
  split
  · exact (Move.spawn hstmt hfresh).course
  · exact (Move.connect _ _).course
  · exact (Move.connect _ _).course
  · exact (Move.connect _ _).course
  · exact (Move.connect _ _).course
  · split
    · exact callStatic hp hmethod
    · exact Course.start
  · exact Course.start

/-- Statements at different locations are entered one after the other. -/
theorem enterStmts (hp : p.WellFormed) {agenda : List (Location × Stmt)}
    (hagenda : ∀ x ∈ agenda, p.stmt? x.1 = some x.2 ∧ x.1.method ∈ s.calls.methods ∧
      s.heap.at? x.1 = none) (hnodup : (agenda.map Prod.fst).Nodup) :
    Course p s [] [] (agenda.foldl (fun s x => s.enterStmt p x.1 x.2) s) := by
  induction agenda generalizing s with
  | nil => exact Course.start
  | cons x rest ih =>
    obtain ⟨hstmt, hmethod, hfresh⟩ := hagenda x List.mem_cons_self
    rw [List.map_cons, List.nodup_cons] at hnodup
    refine (enterStmt hp hstmt hmethod hfresh).andThen (ih (fun y hy => ?_) hnodup.2)
    obtain ⟨hstmt', hmethod', hfresh'⟩ := hagenda y (List.mem_cons_of_mem _ hy)
    refine ⟨hstmt', (enterStmt_extends _ _).methods.subset hmethod', ?_⟩
    -- entering the first statement creates no object but its own
    rw [Heap.at?_eq_none_iff] at hfresh' ⊢
    intro hmem
    rcases mem_siteList_enterStmt hmem with heq | hold
    · exact hnodup.1 (heq ▸ List.mem_map_of_mem hy)
    · exact hfresh' hold

theorem enterMethod (hp : p.WellFormed) (hs : Steady p F s) {m : MethodId} {rest : List MethodId}
    (hpending : s.pending = m :: rest) :
    Course p s [] [] ({ s with pending := rest }.enterMethod p m) := by
  have hmem : m ∈ s.pending := by
    rw [hpending]
    exact List.mem_cons_self
  refine (Move.pop rest).course.andThen ?_
  rw [enterMethod_eq]
  refine enterStmts hp (fun x hx => ?_) (Program.nodup_locationsOf m)
  obtain ⟨rfl, hstmt⟩ := Program.mem_statementsOf hx
  refine ⟨hstmt, hs.waiting.reached _ hmem, ?_⟩
  -- an object of the method would have been created by entering it before
  cases hat : s.heap.at? x.1 with
  | none => rfl
  | some o =>
    obtain ⟨obj, hobj, hsite⟩ := Heap.exists_obj?_of_at? hat
    rw [← hsite] at hmem
    exact absurd hmem (hs.waiting.objects o obj hobj).2

theorem enterPending (hp : p.WellFormed) (hF : Closed p entry F) (n : Nat) (hs : Steady p F s) :
    Course p s [] [] (s.enterPending p n) := by
  induction n generalizing s with
  | zero => exact Course.start
  | succ n ih =>
    unfold State.enterPending
    split
    · exact Course.start
    · rename_i m rest hpending
      exact (enterMethod hp hs hpending).andThen (ih (hs.enterMethod hp hF hpending))

theorem settle (hp : p.WellFormed) (hF : Closed p entry F) (hs : Steady p F s) :
    Course p s [] [] (s.settle p) :=
  enterPending hp hF _ hs

end Course

/-! ## §4 Visits -/

/-- A course between propagations in which the given visits are paid. -/
def Tours (p : Program) (s : State) (keys : List (Location × ObjId)) (t : State) : Prop :=
  ∃ visits, Course p s [] visits t ∧ visits.map Visit.key = keys

theorem Tours.trans {keys keys' : List (Location × ObjId)} (h : Tours p s keys t)
    (h' : Tours p t keys' u) : Tours p s (keys ++ keys') u := by
  obtain ⟨visits, hcourse, rfl⟩ := h
  obtain ⟨visits', hcourse', rfl⟩ := h'
  exact ⟨visits ++ visits', hcourse.trans hcourse', List.map_append⟩

theorem Course.tours (h : Course p s [] [] t) : Tours p s [] t := ⟨[], h, rfl⟩

theorem Tours.callInstances (hp : p.WellFormed) {m : MethodId} {v : VarId} {o : ObjId} {obj : Obj}
    {sites : List Location}
    (hsites : ∀ site ∈ sites, ∃ call, p.stmt? site = some (.invoke call) ∧ call.receiver = some v)
    (howns : p.Owns m v) (hmethod : m ∈ s.calls.methods) (hobj : s.heap.obj? o = some obj) :
    Tours p s (sites.map (·, o)) (sites.foldl (fun s site => s.callInstance p o site) s) := by
  induction sites generalizing s with
  | nil => exact Course.start.tours
  | cons site rest ih =>
    obtain ⟨call, hstmt, hreceiver⟩ := hsites site List.mem_cons_self
    -- a variable belongs to one method, so the calls through it are made by that method
    have hsame : m = site.method :=
      owner_unique howns (hp.varOwned hstmt (by simp [Stmt.vars, hreceiver]))
    have hfirst : Tours p s [(site, o)] (s.callInstance p o site) :=
      ⟨_, Course.callInstance hp hstmt hobj (hsame ▸ hmethod), rfl⟩
    have hext := callInstance_extends (p := p) (s := s) o site
    have hrest := ih (fun site hsite => hsites site (List.mem_cons_of_mem _ hsite))
      (hext.methods.subset hmethod) (Heap.obj?_of_isPrefix hext.heap hobj)
    exact hfirst.trans hrest

/-- An object that has reached a variable visits all calls on the variable. -/
theorem Tours.receive (hp : p.WellFormed) {m : MethodId} {v : VarId} {o : ObjId} {obj : Obj}
    (howns : p.Owns m v) (hmethod : m ∈ s.calls.methods) (hobj : s.heap.obj? o = some obj) :
    Tours p s ((p.accessSites v .invoke).map (·, o)) (receive p v s o) := by
  obtain ⟨var, hvar, _⟩ := id howns
  have hindex : var.accesses.invokes = p.accessSites v .invoke := hp.accesses hvar .invoke
  have hext := connectAll_extends (s := s) (p.heapFlows var.accesses o)
  unfold State.receive
  simp only [hvar]
  rw [← hindex]
  have hcalls := Tours.callInstances hp (fun site hsite => (mem_invokes hp hvar).1 hsite) howns
    (hext.methods.subset hmethod) (Heap.obj?_of_isPrefix hext.heap hobj)
  exact (Course.connectAll _).tours.trans hcalls

/-- The visits that objects pay when they reach a pointer: to each call on a variable. -/
def arrivals (p : Program) : Pointer → ObjSet → List (Location × ObjId)
  | .var v, delta => delta.toList.flatMap fun o => (p.accessSites v .invoke).map (·, o)
  | _, _ => []

theorem Tours.receiveAll (hp : p.WellFormed) {m : MethodId} {v : VarId} {delta : ObjSet}
    (howns : p.Owns m v) (hmethod : m ∈ s.calls.methods)
    (hknown : ∀ o ∈ delta, ∃ obj, s.heap.obj? o = some obj) :
    Tours p s (arrivals p (.var v) delta) (s.receiveAll p (.var v) delta) := by
  obtain ⟨objects, hsorted⟩ := delta
  have hlist : ∀ o ∈ objects, ∃ obj, s.heap.obj? o = some obj := hknown
  show Tours p s (objects.flatMap _) (objects.foldl (State.receive p v) s)
  clear hknown hsorted
  induction objects generalizing s with
  | nil => exact Course.start.tours
  | cons o rest ih =>
    obtain ⟨obj, hobj⟩ := hlist o List.mem_cons_self
    have hext := receive_extends (p := p) (s := s) v o
    refine (Tours.receive hp howns hmethod hobj).trans (ih (hext.methods.subset hmethod) ?_)
    intro o' ho'
    obtain ⟨obj', hobj'⟩ := hlist o' (List.mem_cons_of_mem _ ho')
    exact ⟨obj', Heap.obj?_of_isPrefix hext.heap hobj'⟩

/-- The objects that a propagation brings to a pointer are received there. -/
theorem Steady.tours_receiveAll (hp : p.WellFormed) (hs : Steady p F s) {item : WorkItem}
    {rest : Worklist} {pointer : Pointer} (hpoll : s.worklist.poll = some (item, rest))
    (hpointer : s.flow.pointer? item.pointer = some pointer) :
    Tours p ((s.polled rest).propagate item.pointer pointer (s.newObjects item))
      (arrivals p pointer (s.newObjects item))
      (((s.polled rest).propagate item.pointer pointer (s.newObjects item)).receiveAll p pointer
        (s.newObjects item)) := by
  -- only variables have calls
  cases pointer with
  | var v =>
    obtain ⟨⟨m, hm, howns⟩, _⟩ :=
      hs.supported.nodes _ (FlowGraph.mem_pointerList_of_pointer? hpointer)
    refine Tours.receiveAll hp howns hm fun o ho => ?_
    -- what an item brings is in the heap
    have hitem := (Worklist.mem_items_of_poll hpoll).2 (Or.inl rfl)
    obtain ⟨_, _, _, hsite, _⟩ :=
      (hs.supported.items item hitem).2.2 o (Ascending.mem_sdiff.1 ho).1
    obtain ⟨obj, hobj, _⟩ := Option.map_eq_some_iff.1 hsite
    exact ⟨obj, hobj⟩
  | field _ _ => exact Course.start.tours
  | element _ => exact Course.start.tours
  | staticField _ => exact Course.start.tours

/-! ## §5 Steps -/

/-- Growing the node of a pointer adds to the points-to set of that pointer and of no other. -/
theorem mem_pointsTo_grow {g : FlowGraph} {id : PointerId} {delta : ObjSet} {pointer x : Pointer}
    {o : ObjId} (hfind : g.find? pointer = some id) :
    o ∈ (g.grow id delta).pointsTo x ↔ o ∈ g.pointsTo x ∨ x = pointer ∧ o ∈ delta := by
  have hid := FlowGraph.index_lt_of_pointer? (FlowGraph.pointer?_of_find? hfind)
  simp only [FlowGraph.mem_pointsTo, find?_grow, FlowGraph.mem_objects_grow hid]
  constructor
  · rintro ⟨id', hfind', hold | ⟨rfl, hnew⟩⟩
    · exact Or.inl ⟨id', hfind', hold⟩
    · -- a node has one pointer
      have hsame := FlowGraph.pointer?_of_find? hfind'
      rw [FlowGraph.pointer?_of_find? hfind, Option.some.injEq] at hsame
      exact Or.inr ⟨hsame.symm, hnew⟩
  · rintro (⟨id', hfind', hold⟩ | ⟨rfl, hnew⟩)
    · exact ⟨id', hfind', Or.inl hold⟩
    · exact ⟨id, hfind, Or.inr ⟨rfl, hnew⟩⟩

/-- A propagation adds its objects to the points-to set of its pointer. -/
theorem mem_pointsTo_propagate {id : PointerId} {delta : ObjSet} {pointer x : Pointer} {o : ObjId}
    (hfind : s.flow.find? pointer = some id) :
    o ∈ (s.propagate id pointer delta).flow.pointsTo x ↔
      o ∈ s.flow.pointsTo x ∨ x = pointer ∧ o ∈ delta :=
  mem_pointsTo_grow hfind

theorem not_mem_pointsTo_of_newObjects {item : WorkItem} {pointer : Pointer} {o : ObjId}
    (hfind : s.flow.find? pointer = some item.pointer) (ho : o ∈ s.newObjects item) :
    o ∉ s.flow.pointsTo pointer := by
  intro hmem
  obtain ⟨id, hfind', hmem⟩ := FlowGraph.mem_pointsTo.1 hmem
  rw [hfind, Option.some.injEq] at hfind'
  exact (Ascending.mem_sdiff.1 ho).2 (hfind' ▸ hmem)

/-- **What a step brings**: it takes one item, whose new objects are added to the points-to set of its pointer
    and pay their visits to the calls there. -/
theorem step?_course (hp : p.WellFormed) (hF : Closed p entry F) (hs : Steady p F s)
    (h : s.step? p = some t) :
    ∃ item rest pointer visits, s.worklist.poll = some (item, rest) ∧
      s.flow.find? pointer = some item.pointer ∧
      (∀ x o, o ∈ t.flow.pointsTo x ↔ o ∈ s.flow.pointsTo x ∨ x = pointer ∧ o ∈ s.newObjects item) ∧
      Course p s [item] visits t ∧
      visits.map Visit.key = arrivals p pointer (s.newObjects item) := by
  obtain ⟨item, rest, pointer, hpoll, hpointer, hcases⟩ :=
    step?_cases (fun _ hitem => hs.nodes hitem) h
  have hfind := FlowGraph.find?_of_pointer? hs.supported.pointersNodup hpointer
  rcases hcases with ⟨hempty, rfl⟩ | ⟨hne, rfl⟩
  · -- the item is dropped, and nobody arrives
    refine ⟨item, rest, pointer, [], hpoll, hfind, ?_, Course.start.drop hpoll hempty, ?_⟩
    · intro x o
      rw [hempty]
      simp [polled, Ascending.not_mem_empty]
    · rw [hempty]
      cases pointer <;> rfl
  · have hsettle := Course.settle hp hF (hs.receiveAll hp hF hpoll hpointer hne)
    obtain ⟨visits, hvisits, hkeys⟩ := (hs.tours_receiveAll hp hpoll hpointer).trans hsettle.tours
    rw [List.append_nil] at hkeys
    refine ⟨item, rest, pointer, visits, hpoll, hfind, ?_,
      (Course.start.propagate hpoll hfind hne).trans hvisits, hkeys⟩
    -- receiving objects and entering methods leave the points-to sets as they are
    intro x o
    rw [((receiveAll_extends _ _).trans settle_extends).pointsTo]
    exact mem_pointsTo_propagate (s := s.polled rest) hfind

/-! ## §6 Every visit is paid once -/

theorem nodup_accessSites (v : VarId) (kind : AccessKind) : (p.accessSites v kind).Nodup := by
  have hids : p.methodIds.Nodup := by
    unfold Program.methodIds Id.below
    refine List.nodup_range.map ?_
    intro i j hij
    exact congrArg Id.index hij
  have hlocations : (p.statements.map Prod.fst).Nodup := by
    have hsame : p.statements.map Prod.fst = p.methodIds.flatMap p.locationsOf := List.map_flatMap
    rw [hsame]
    exact Program.nodup_flatMap_locationsOf hids
  exact hlocations.sublist (List.filter_sublist.map _)

theorem mem_accessSites_invoke {v : VarId} {site : Location} :
    site ∈ p.accessSites v .invoke ↔
      ∃ call, p.stmt? site = some (.invoke call) ∧ call.receiver = some v := by
  rw [Program.mem_accessSites]
  constructor
  · intro ⟨stmt, hstmt, haccess⟩
    unfold Stmt.access? at haccess
    split at haccess
    all_goals simp_all
  · intro ⟨call, hstmt, hreceiver⟩
    exact ⟨.invoke call, hstmt, by simp [Stmt.access?, hreceiver]⟩

theorem mem_arrivals {pointer : Pointer} {delta : ObjSet} {site : Location} {o : ObjId} :
    (site, o) ∈ arrivals p pointer delta ↔ ∃ call v, p.stmt? site = some (.invoke call) ∧
      call.receiver = some v ∧ .var v = pointer ∧ o ∈ delta := by
  cases pointer with
  | var v =>
    simp only [arrivals, List.mem_flatMap, List.mem_map, Prod.mk.injEq, Pointer.var.injEq]
    constructor
    · rintro ⟨o', ho', site', hsite', rfl, rfl⟩
      obtain ⟨call, hstmt, hreceiver⟩ := mem_accessSites_invoke.1 hsite'
      exact ⟨call, v, hstmt, hreceiver, rfl, ho'⟩
    · rintro ⟨call, v', hstmt, hreceiver, rfl, ho⟩
      exact ⟨o, ho, site, mem_accessSites_invoke.2 ⟨call, hstmt, hreceiver⟩, rfl, rfl⟩
  | _ => simp [arrivals]

theorem nodup_arrivals (pointer : Pointer) (delta : ObjSet) : (arrivals p pointer delta).Nodup := by
  cases pointer with
  | var v =>
    show (delta.toList.flatMap _).Nodup
    rw [List.nodup_flatMap]
    refine ⟨fun o _ => (nodup_accessSites v .invoke).map fun a b h => (Prod.mk.inj h).1, ?_⟩
    -- the visits of different objects differ in the object
    refine (Ascending.nodup_toList delta).imp fun hne x hx hx' => ?_
    obtain ⟨_, _, rfl⟩ := List.mem_map.1 hx
    obtain ⟨_, _, heq⟩ := List.mem_map.1 hx'
    exact hne (Prod.mk.inj heq).2.symm
  | _ => exact List.nodup_nil

/-- Every object that the receiver of a call points to has visited the call, and has done so once. -/
structure Toured (p : Program) (keys : List (Location × ObjId)) (s : State) : Prop where
  nodup : keys.Nodup
  mem_iff : ∀ site o, (site, o) ∈ keys ↔ ∃ call v, p.stmt? site = some (.invoke call) ∧
    call.receiver = some v ∧ o ∈ s.flow.pointsTo (.var v)

/-- The objects that are new at a variable have not visited its calls before. -/
theorem Toured.arrive {keys : List (Location × ObjId)} {pointer : Pointer} {delta : ObjSet}
    (hs : Toured p keys s) (hnew : ∀ o ∈ delta, o ∉ s.flow.pointsTo pointer)
    (hgrown : ∀ x o, o ∈ t.flow.pointsTo x ↔ o ∈ s.flow.pointsTo x ∨ x = pointer ∧ o ∈ delta) :
    Toured p (keys ++ arrivals p pointer delta) t where
  nodup := by
    refine hs.nodup.append (nodup_arrivals pointer delta) fun (site, o) hold hlate => ?_
    obtain ⟨call, v, hstmt, hreceiver, ho⟩ := (hs.mem_iff site o).1 hold
    obtain ⟨call', v', hstmt', hreceiver', rfl, ho'⟩ := mem_arrivals.1 hlate
    cases hstmt.symm.trans hstmt'
    cases hreceiver.symm.trans hreceiver'
    exact hnew o ho' ho
  mem_iff site o := by
    rw [List.mem_append, hs.mem_iff, mem_arrivals]
    constructor
    · rintro (⟨call, v, hstmt, hreceiver, ho⟩ | ⟨call, v, hstmt, hreceiver, hv, ho⟩)
      · exact ⟨call, v, hstmt, hreceiver, (hgrown _ o).2 (Or.inl ho)⟩
      · exact ⟨call, v, hstmt, hreceiver, (hgrown _ o).2 (Or.inr ⟨hv, ho⟩)⟩
    · rintro ⟨call, v, hstmt, hreceiver, ho⟩
      rcases (hgrown _ o).1 ho with hold | ⟨hv, hnew⟩
      · exact Or.inl ⟨call, v, hstmt, hreceiver, hold⟩
      · exact Or.inr ⟨call, v, hstmt, hreceiver, hv, hnew⟩

/-! ## §7 Whole runs -/

/-- The items that are taken in turn when propagations are done until none is left, at most the given number
    of them. -/
def taken (p : Program) : Nat → State → List WorkItem
  | 0, _ => []
  | n + 1, s =>
    match s.step? p, s.worklist.poll with
    | some t, some (item, _) => item :: taken p n t
    | _, _ => []

/-- **Runs are courses**: propagations take the items in turn, and whoever has visited the calls stays a
    visitor. -/
theorem drain_course (hp : p.WellFormed) (hF : Closed p entry F) (n : Nat) (hs : Steady p F s)
    (hpending : s.pending = []) :
    ∃ visits, Course p s (s.taken p n) visits (s.drain p n) ∧
      ∀ keys, Toured p keys s → Toured p (keys ++ visits.map Visit.key) (s.drain p n) := by
  induction n generalizing s with
  | zero =>
    refine ⟨[], Course.start, fun keys hkeys => ?_⟩
    rw [List.map_nil, List.append_nil]
    exact hkeys
  | succ n ih =>
    cases hstep : s.step? p with
    | none =>
      refine ⟨[], ?_, fun keys hkeys => ?_⟩
      · simp only [taken, drain, hstep]
        exact Course.start
      · simp only [drain, hstep, List.map_nil, List.append_nil]
        exact hkeys
    | some t =>
      obtain ⟨item, rest, pointer, visits, hpoll, hfind, hgrown, hcourse, hkeys⟩ :=
        step?_course hp hF hs hstep
      obtain ⟨hsteady, hdone, _⟩ := step?_steady hp hF hs hpending hstep
      obtain ⟨visits', hcourse', htoured⟩ := ih hsteady hdone
      simp only [taken, drain, hstep, hpoll]
      -- the visits of this step come before those of the others
      refine ⟨visits ++ visits', hcourse.trans hcourse', fun keys hs' => ?_⟩
      rw [List.map_append, hkeys, ← List.append_assoc]
      apply htoured
      exact hs'.arrive (fun o ho => not_mem_pointsTo_of_newObjects hfind ho) hgrown

theorem start_course (hp : p.WellFormed) (hF : Closed p entry F) (hentry : entry.index < p.methods.size)
    (order : WorkOrder) : Course p (blank order entry) [] [] (start p order entry) := by
  rw [start_eq]
  have hsteady := (blank_steady order).actions hF (reach_entry hF hentry order)
  exact (Move.reach entry).course.andThen (Course.settle hp hF hsteady)

/-- Nobody has arrived anywhere when the analysis starts. -/
theorem start_toured (order : WorkOrder) : Toured p [] (start p order entry) where
  nodup := List.nodup_nil
  mem_iff site o := by
    have hext : (blank order entry).Extends (start p order entry) := by
      rw [start_eq]
      exact (reach_extends entry).trans settle_extends
    simp only [hext.pointsTo, List.not_mem_nil, false_iff]
    rintro ⟨_, v, _, _, ho⟩
    obtain ⟨id, hfind, _⟩ := FlowGraph.mem_pointsTo.1 ho
    exact absurd (FlowGraph.mem_pointerList_of_pointer? (FlowGraph.pointer?_of_find? hfind))
      List.not_mem_nil

end State

/-- A visit that a result calls for: the receiver of an instance call of a reachable method points to the
    object, and the target is the method that the call runs for objects of its type. -/
def Result.Visited (r : Result) (p : Program) (x : Visit) : Prop :=
  x.site.method ∈ r.calls.methods ∧ ∃ call v obj, p.stmt? x.site = some (.invoke call) ∧
    call.kind ≠ .static ∧ call.receiver = some v ∧ x.receiver ∈ r.pointsTo (.var v) ∧
    r.heap.obj? x.receiver = some obj ∧ p.callee? call (some obj.ty) = x.target

namespace Program

variable {p : Program} {entry : MethodId}

/-- The items that the analysis takes in turn. -/
def taken (p : Program) (order : WorkOrder) (entry : MethodId) : List WorkItem :=
  (State.start p order entry).taken p p.iterationBound

/-- The visits that are paid are those that the result calls for. -/
theorem mem_visits_iff (hp : p.WellFormed) (hentry : entry.index < p.methods.size) {order : WorkOrder}
    {visits : List Visit} (hvalid : ∀ x ∈ visits, x.Valid p (p.solve order entry).heap)
    (htoured : State.Toured p (visits.map Visit.key) (p.solve order entry)) (x : Visit) :
    x ∈ visits ↔ (p.solve order entry).result.Visited p x := by
  have hfinished := solve_finished hp (Derivable.closed p entry) hentry order
  constructor
  · intro hx
    obtain ⟨call, v, hstmt, hreceiver, ho⟩ :=
      (htoured.mem_iff _ _).1 (List.mem_map.2 ⟨x, hx, rfl⟩)
    obtain ⟨call', obj, hstmt', hobj, htarget⟩ := hvalid x hx
    cases hstmt.symm.trans hstmt'
    -- the receiver points somewhere, so the method that it belongs to is reachable
    obtain ⟨id, hfind, _⟩ := FlowGraph.mem_pointsTo.1 ho
    obtain ⟨⟨m, hm, howns⟩, _⟩ := hfinished.supported.nodes _
      (FlowGraph.mem_pointerList_of_pointer? (FlowGraph.pointer?_of_find? hfind))
    have howner := State.owner_unique howns (hp.varOwned hstmt (by simp [Stmt.vars, hreceiver]))
    refine ⟨howner ▸ hm, call, v, obj, hstmt, ?_, hreceiver, ho, hobj, htarget⟩
    intro hstatic
    have hnone := (hp.receiver hstmt).2 (by rw [hstatic]; rfl)
    rw [hreceiver] at hnone
    exact absurd hnone (Option.some_ne_none v)
  · intro hvisited
    obtain ⟨_, call, v, obj, hstmt, _, hreceiver, ho, hobj, htarget⟩ := hvisited
    obtain ⟨site, receiver, target⟩ := x
    have hkey := (htoured.mem_iff site receiver).2 ⟨call, v, hstmt, hreceiver, ho⟩
    obtain ⟨⟨_, _, target'⟩, hy, heq⟩ := List.mem_map.1 hkey
    cases heq
    -- the object has one type, so the visit that was paid has the same target
    obtain ⟨call', obj', hstmt', hobj', htarget'⟩ := hvalid _ hy
    cases hstmt.symm.trans hstmt'
    cases hobj.symm.trans hobj'
    have hsame : target' = target := htarget'.symm.trans htarget
    exact hsame ▸ hy

/-- **The course of the analysis**: it takes its items in turn, and the visits that the result calls for are
    paid, each of them once. -/
theorem solve_course (hp : p.WellFormed) (hentry : entry.index < p.methods.size) (order : WorkOrder) :
    ∃ visits, State.Course p (State.blank order entry) (p.taken order entry) visits
        (p.solve order entry) ∧ (visits.map Visit.key).Nodup ∧
      ∀ x, x ∈ visits ↔ (p.solve order entry).result.Visited p x := by
  have hclosed := Derivable.closed p entry
  obtain ⟨hsteady, hpending⟩ := State.start_steady hp hclosed hentry order
  obtain ⟨visits, hdrain, htoured⟩ :=
    State.drain_course hp hclosed p.iterationBound hsteady hpending
  have hcourse := (State.start_course hp hclosed hentry order).trans hdrain
  have hpaid := htoured [] (State.start_toured order)
  exact ⟨visits, hcourse, hpaid.nodup, mem_visits_iff hp hentry hcourse.valid hpaid⟩

end Program

end PointsTo
