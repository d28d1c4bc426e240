import PointsTo.Proofs.Support

/-!
# What happens between propagations

Between two propagations the analysis makes a sequence of actions, each of which is admitted only when
the facts call for it. Everything that the analysis relies on is an invariant of the actions, so it is
enough to look at each kind of action once.

- `State.Wiring`: pointers become nodes and are connected.
- `State.Action`, `State.Actions`: one action and sequences of them, with the number of items that they
  queue on the account of the objects received.
- `State.Actions.supported`, `State.Actions.waiting`, `State.Actions.linked`, `State.Actions.conveyed`:
  the invariants.
-/

namespace PointsTo

namespace State

variable {p : Program} {F : Fact → Prop} {entry : MethodId} {s t u : State}

/-! ## §1 Wiring -/

theorem Grows.hasFlow (h : s.Grows t) {a b : Pointer} (hflow : s.flow.hasFlow a b = true) :
    t.flow.hasFlow a b = true := by
  obtain ⟨src, tgt, hsrc, htgt, hedge⟩ := FlowGraph.hasFlow_iff.1 hflow
  exact FlowGraph.hasFlow_iff.2 ⟨src, tgt, FlowGraph.find?_of_isPrefix h.pointers hsrc,
    FlowGraph.find?_of_isPrefix h.pointers htgt, h.edges _ hedge⟩

theorem Grows.connectable (h : s.Grows t) {a b : Pointer} (hconnect : s.Connectable p F a b) :
    t.Connectable p F a b := by
  obtain ⟨ha, hb, x, y, hx, hy, hflow⟩ := hconnect
  have hmethods : ∀ m ∈ s.calls.methods, m ∈ t.calls.methods := fun m hm => h.methods.subset hm
  exact ⟨ha.mono hmethods, hb.mono hmethods, x, y, Heap.place?_of_isPrefix h.heap hx,
    Heap.place?_of_isPrefix h.heap hy, hflow⟩

/-- Pointers that the facts call for become nodes and are connected. -/
inductive Wiring (p : Program) (F : Fact → Prop) (s : State) : State → Prop
  | refl : Wiring p F s s
  | mention {t : State} {pointer : Pointer} : Wiring p F s t → t.NodeOk p F pointer →
      Wiring p F s (t.mention pointer)
  | connect {t : State} {a b : Pointer} : Wiring p F s t → t.Connectable p F a b →
      Wiring p F s (t.connect a b)

theorem Wiring.trans (h : Wiring p F s t) (h' : Wiring p F t u) : Wiring p F s u := by
  induction h' with
  | refl => exact h
  | mention _ hnode ih => exact ih.mention hnode
  | connect _ hconnect ih => exact ih.connect hconnect

theorem Wiring.extends (h : Wiring p F s t) : s.Extends t := by
  induction h with
  | refl => exact Extends.refl s
  | mention _ _ ih => exact ih.trans (mention_extends _)
  | connect _ _ ih => exact ih.trans (connect_extends _ _)

theorem Wiring.frame (h : Wiring p F s t) :
    t.heap = s.heap ∧ t.calls = s.calls ∧ t.pending = s.pending := by
  induction h with
  | refl => exact ⟨rfl, rfl, rfl⟩
  | mention _ _ ih => exact ih
  | connect _ _ ih => rwa [heap_connect, calls_connect, pending_connect]

theorem Wiring.supported (hF : Closed p entry F) (h : Wiring p F s t) (hs : s.Supported p F) :
    t.Supported p F := by
  induction h with
  | refl => exact hs
  | mention _ hnode ih => exact ih.mention hnode
  | connect _ hconnect ih => exact ih.connect hF hconnect

theorem Wiring.connectAll {edges : List (Pointer × Pointer)}
    (h : ∀ e ∈ edges, s.Connectable p F e.1 e.2) : Wiring p F s (s.connectAll edges) := by
  induction edges generalizing s with
  | nil => exact Wiring.refl
  | cons e rest ih =>
    have hfirst : Wiring p F s (s.connect e.1 e.2) := Wiring.refl.connect (h e List.mem_cons_self)
    refine hfirst.trans (ih ?_)
    intro e' he'
    exact hfirst.extends.grows.connectable (h e' (List.mem_cons_of_mem e he'))

/-! ## §2 Conveyed objects -/

/-- What the source of an edge points to has arrived at its target or is on its way there. -/
def Conveyed (s : State) : Prop :=
  ∀ a b o, (a, b) ∈ s.flow.edges → o ∈ s.flow.objects a → s.Due b o

/-- An extension without new edges conveys what was conveyed before. -/
theorem Conveyed.of_edges (h : s.Conveyed) (hext : s.Extends t)
    (hedges : ∀ e ∈ t.flow.edges, e ∈ s.flow.edges) : t.Conveyed := by
  intro a b o hedge ho
  rw [hext.objects] at ho
  exact hext.due (h a b o (hedges _ hedge) ho)

theorem edges_mention {pointer : Pointer} : (s.mention pointer).flow.edges = s.flow.edges :=
  FlowGraph.edges_intern

theorem edges_feed {pointer : Pointer} {objects : ObjSet} :
    (s.feed pointer objects).flow.edges = s.flow.edges :=
  FlowGraph.edges_intern

/-- A new edge carries at once what its source points to. -/
theorem Conveyed.connect (h : s.Conveyed) (a b : Pointer) : (s.connect a b).Conveyed := by
  intro src tgt o hedge ho
  have hext := connect_extends (s := s) a b
  rw [hext.objects] at ho
  by_cases hold : (src, tgt) ∈ s.flow.edges
  · exact hext.due (h src tgt o hold ho)
  · -- the edge is new, so the objects of its source have just been queued
    rcases mem_edges_connect.1 hedge with heq | hmem
    · cases heq
      have hne : s.flow.objects (s.sourceOf a) ≠ ∅ := by
        intro hempty
        rw [hempty] at ho
        exact Ascending.not_mem_empty o ho
      exact Or.inr ⟨_, mem_items_connect.2 (Or.inr ⟨hold, rfl, hne⟩), rfl, ho⟩
    · exact absurd hmem hold

theorem Wiring.conveyed (h : Wiring p F s t) (hs : s.Conveyed) : t.Conveyed := by
  induction h with
  | refl => exact hs
  | mention _ _ ih => exact ih.of_edges (mention_extends _) fun e he => edges_mention ▸ he
  | connect _ _ ih => exact ih.connect _ _

/-! ## §3 Actions -/

/-- A call edge is recorded. -/
def record (s : State) (e : CallEdge) : State :=
  { s with calls := (s.calls.addEdge e).1 }.emit (.called e.site e.callee)

/-- The arguments of a call flow into the parameters of the method called, and the variables that the
    method returns into the result of the call, which is a node in any case. -/
def Passed (p : Program) (s : State) (call : Invoke) (callee : MethodId) : Prop :=
  ∀ method, p.method? callee = some method →
    (∀ arg param, (arg, param) ∈ call.args.zip method.params →
      s.flow.hasFlow (.var arg) (.var param) = true) ∧
    ∀ result, call.result = some result → .var result ∈ s.flow.pointerList ∧
      ∀ v ∈ method.returnVars, s.flow.hasFlow (.var v) (.var result) = true

theorem Grows.passed (h : s.Grows t) {call : Invoke} {callee : MethodId}
    (hpassed : s.Passed p call callee) : t.Passed p call callee := by
  intro method hmethod
  obtain ⟨hargs, hresult⟩ := hpassed method hmethod
  refine ⟨fun arg param hzip => h.hasFlow (hargs arg param hzip), fun result hres => ?_⟩
  obtain ⟨hnode, hflows⟩ := hresult result hres
  exact ⟨h.pointers.subset hnode, fun v hv => h.hasFlow (hflows v hv)⟩

/-- The changes between propagations that the facts call for. The number is the charge of the action:
    how many items it may queue that no edge and no new object accounts for. -/
inductive Action (p : Program) (F : Fact → Prop) : Nat → State → State → Prop
  | note {s : State} (e : Event) : Action p F 0 s (s.emit e)
  | wire {s t : State} : Wiring p F s t → Action p F 0 s t
  | feed {s : State} {pointer : Pointer} {o : ObjId} : s.Feedable p F pointer o →
      Action p F 1 s (s.feed pointer (Ascending.singleton o))
  | reach {s : State} {m : MethodId} : F (.reachable m) → m.index < p.methods.size →
      Action p F 0 s (s.reach m)
  /-- The first call from a site to a method is recorded and its values are passed. Both ends are
      reachable by then. -/
  | call {s t : State} {e : CallEdge} {call : Invoke} : F (.calls e) →
      p.stmt? e.site = some (.invoke call) → call.kind = e.kind →
      e.caller ∈ s.calls.methods → e.callee ∈ s.calls.methods →
      s.calls.hasCall e.site e.callee = false →
      Wiring p F (s.record e) t → t.Passed p call e.callee → Action p F 0 s t
  /-- The object of a new allocation site is created and sent to its variable. -/
  | spawn {s : State} {loc : Location} {lhs : VarId} {ty : Ty} :
      p.stmt? loc = some (.new lhs ty) → F (.pointsTo (.var lhs) loc) → p.Owns loc.method lhs →
      loc.method ∈ s.calls.methods → loc.method ∉ s.pending → s.heap.at? loc = none →
      Action p F 0 s ({ s with heap := (s.heap.allocate loc ty).1 }.feed (.var lhs)
        (Ascending.singleton (s.heap.allocate loc ty).2))

theorem record_emit_extends (e : CallEdge) : s.Extends (s.record e) :=
  (record_extends e).trans (emit_extends _)

theorem Action.extends {n : Nat} (h : Action p F n s t) : s.Extends t := by
  cases h with
  | note e => exact emit_extends e
  | wire hwiring => exact hwiring.extends
  | feed _ => exact feed_extends _ _
  | reach _ _ => exact reach_extends _
  | call _ _ _ _ _ _ hwiring _ => exact (record_emit_extends _).trans hwiring.extends
  | spawn _ _ _ _ _ _ => exact (allocate_extends _ _).trans (feed_extends _ _)

/-- **Actions keep support**, for every solution of the rules. -/
theorem Action.supported {n : Nat} (hF : Closed p entry F) (h : Action p F n s t)
    (hs : s.Supported p F) : t.Supported p F := by
  cases h with
  | note e => exact { hs with }
  | wire hwiring => exact hwiring.supported hF hs
  | feed hfeed => exact hs.feed hfeed
  | reach hm hlt => exact hs.reach hm hlt
  | call he hstmt hkind hcaller hcallee hnew hwiring _ =>
    exact hwiring.supported hF { hs.record he hstmt hkind hcaller hcallee hnew with }
  | @spawn _ loc lhs ty hstmt hfact howns hmethod _ hfresh =>
    refine (hs.allocate hstmt hfresh).feed ⟨⟨loc.method, hmethod, howns⟩, _, loc, rfl, ?_, hfact⟩
    exact Heap.site?_of_at? (Heap.at?_allocate s.heap loc ty)

theorem reach_of_mem {m : MethodId} (h : m ∈ s.calls.methods) : s.reach m = s := by
  simp [State.reach, CallGraph.methods_addMethod_of_mem h]

theorem reach_of_not_mem {m : MethodId} (h : m ∉ s.calls.methods) :
    s.reach m = { s with
      calls := { s.calls with methods := s.calls.methods ++ [m] }
      pending := s.pending ++ [m] }.emit (.reached m) := by
  simp [State.reach, CallGraph.addMethod, h]

theorem Action.conveyed {n : Nat} (h : Action p F n s t) (hs : s.Conveyed) : t.Conveyed := by
  cases h with
  | note e => exact hs.of_edges (emit_extends e) fun _ he => he
  | wire hwiring => exact hwiring.conveyed hs
  | feed _ => exact hs.of_edges (feed_extends _ _) fun _ he => edges_feed ▸ he
  | @reach _ m _ _ =>
    refine hs.of_edges (reach_extends m) fun _ he => ?_
    by_cases hm : m ∈ s.calls.methods
    · rwa [reach_of_mem hm] at he
    · rwa [reach_of_not_mem hm] at he
  | call _ _ _ _ _ _ hwiring _ =>
    exact hwiring.conveyed (hs.of_edges (record_emit_extends _) fun _ he => he)
  | spawn _ _ _ _ _ _ =>
    refine hs.of_edges ((allocate_extends _ _).trans (feed_extends _ _)) fun _ he => ?_
    rwa [edges_feed] at he

/-! ## §4 Calls and reachable methods -/

/-- The ends of every call edge are reachable, and its values are passed. -/
def Linked (p : Program) (s : State) : Prop :=
  ∀ e ∈ s.calls.edges, e.caller ∈ s.calls.methods ∧ e.callee ∈ s.calls.methods ∧
    ∀ call, p.stmt? e.site = some (.invoke call) → s.Passed p call e.callee

/-- A larger state without new call edges stays linked. -/
theorem Linked.of_edges (h : s.Linked p) (hgrows : s.Grows t)
    (hedges : ∀ e ∈ t.calls.edges, e ∈ s.calls.edges) : t.Linked p := by
  intro e he
  obtain ⟨hcaller, hcallee, hpassed⟩ := h e (hedges e he)
  exact ⟨hgrows.methods.subset hcaller, hgrows.methods.subset hcallee,
    fun call hcall => hgrows.passed (hpassed call hcall)⟩

theorem edges_reach {m : MethodId} : (s.reach m).calls.edges = s.calls.edges := by
  by_cases hm : m ∈ s.calls.methods
  · rw [reach_of_mem hm]
  · rw [reach_of_not_mem hm]
    rfl

theorem calls_record {e : CallEdge} (hcaller : e.caller ∈ s.calls.methods)
    (hcallee : e.callee ∈ s.calls.methods) (hnew : s.calls.hasCall e.site e.callee = false) :
    (s.record e).calls.methods = s.calls.methods ∧
      (s.record e).calls.edges = s.calls.edges ++ [e] := by
  have h : (s.record e).calls = { s.calls with
      edges := s.calls.edges ++ [e], arcs := CallGraph.recordCall e s.calls.arcs } :=
    congrArg Prod.fst (CallGraph.addEdge_of_mem hcaller hcallee hnew)
  rw [h]
  exact ⟨rfl, rfl⟩

theorem Action.linked {n : Nat} (h : Action p F n s t) (hs : s.Linked p) : t.Linked p := by
  have hext := h.extends
  cases h with
  | note _ => exact hs.of_edges hext.grows fun _ he => he
  | wire hwiring => exact hs.of_edges hext.grows fun _ he => hwiring.frame.2.1 ▸ he
  | feed _ => exact hs.of_edges hext.grows fun _ he => he
  | reach _ _ => exact hs.of_edges hext.grows fun _ he => edges_reach ▸ he
  | @call _ _ edge call _ hstmt _ hcaller hcallee hnew hwiring hpassed =>
    obtain ⟨hmethods, hedges⟩ := calls_record hcaller hcallee hnew
    have hcalls := hwiring.frame.2.1
    intro e he
    rw [hcalls, hedges, List.mem_append, List.mem_singleton] at he
    rcases he with hold | rfl
    -- an old edge stays linked, and the values of the new one have just been passed
    · obtain ⟨hcaller', hcallee', hpassed'⟩ := hs e hold
      exact ⟨hext.methods.subset hcaller', hext.methods.subset hcallee',
        fun call' hcall' => hext.grows.passed (hpassed' call' hcall')⟩
    · refine ⟨hext.methods.subset hcaller, hext.methods.subset hcallee, fun call' hcall' => ?_⟩
      have heq : Stmt.invoke call = Stmt.invoke call' := Option.some.inj (hstmt.symm.trans hcall')
      cases heq
      exact hpassed
  | spawn _ _ _ _ _ _ => exact hs.of_edges hext.grows fun _ he => he

/-- A pending method is reachable, is pending only once, and none of its objects is there yet. -/
structure Waiting (s : State) : Prop where
  methodsNodup : s.calls.methods.Nodup
  pendingNodup : s.pending.Nodup
  reached : ∀ m ∈ s.pending, m ∈ s.calls.methods
  objects : ∀ o obj, s.heap.obj? o = some obj →
    obj.site.method ∈ s.calls.methods ∧ obj.site.method ∉ s.pending

/-- The methods that become reachable become pending. -/
def Discovers (s t : State) : Prop :=
  ∃ new, t.calls.methods = s.calls.methods ++ new ∧ t.pending = s.pending ++ new

theorem Discovers.refl (s : State) : s.Discovers s := ⟨[], by simp, by simp⟩

theorem Discovers.trans (h : s.Discovers t) (h' : t.Discovers u) : s.Discovers u := by
  obtain ⟨new, hmethods, hpending⟩ := h
  obtain ⟨new', hmethods', hpending'⟩ := h'
  exact ⟨new ++ new', by rw [hmethods', hmethods, List.append_assoc],
    by rw [hpending', hpending, List.append_assoc]⟩

theorem Discovers.of_eq (hmethods : t.calls.methods = s.calls.methods)
    (hpending : t.pending = s.pending) : s.Discovers t :=
  ⟨[], by simp [hmethods], by simp [hpending]⟩

theorem reach_discovers (m : MethodId) : s.Discovers (s.reach m) := by
  by_cases hm : m ∈ s.calls.methods
  · rw [reach_of_mem hm]
    exact Discovers.refl s
  · rw [reach_of_not_mem hm]
    exact ⟨[m], rfl, rfl⟩

theorem Action.discovers {n : Nat} (h : Action p F n s t) : s.Discovers t := by
  cases h with
  | note _ => exact Discovers.refl s
  | wire hwiring =>
    obtain ⟨_, hcalls, hpending⟩ := hwiring.frame
    exact Discovers.of_eq (by rw [hcalls]) hpending
  | feed _ => exact Discovers.of_eq rfl rfl
  | reach _ _ => exact reach_discovers _
  | call _ _ _ hcaller hcallee hnew hwiring _ =>
    obtain ⟨_, hcalls, hpending⟩ := hwiring.frame
    exact Discovers.of_eq (by rw [hcalls, (calls_record hcaller hcallee hnew).1]) hpending
  | spawn _ _ _ _ _ _ => exact Discovers.of_eq rfl rfl

/-- A reachable method that is not pending does not become pending again. -/
theorem Discovers.not_pending (h : s.Discovers t) (ht : t.calls.methods.Nodup) {m : MethodId}
    (hm : m ∈ s.calls.methods) (hpending : m ∉ s.pending) : m ∉ t.pending := by
  obtain ⟨new, hmethods, hnew⟩ := h
  rw [hmethods] at ht
  rw [hnew, List.mem_append]
  rintro (hold | hlate)
  · exact hpending hold
  · exact (List.nodup_append.1 ht).2.2 m hm m hlate rfl

theorem nodup_reach (h : s.calls.methods.Nodup) (m : MethodId) :
    (s.reach m).calls.methods.Nodup := by
  by_cases hm : m ∈ s.calls.methods
  · rwa [reach_of_mem hm]
  · rw [reach_of_not_mem hm]
    exact h.append (List.nodup_singleton m) (by simpa using hm)

theorem Action.methodsNodup {n : Nat} (h : Action p F n s t) (hs : s.calls.methods.Nodup) :
    t.calls.methods.Nodup := by
  cases h with
  | note _ => exact hs
  | wire hwiring => rwa [hwiring.frame.2.1]
  | feed _ => exact hs
  | reach _ _ => exact nodup_reach hs _
  | call _ _ _ hcaller hcallee hnew hwiring _ =>
    rwa [hwiring.frame.2.1, (calls_record hcaller hcallee hnew).1]
  | spawn _ _ _ _ _ _ => exact hs

/-- The objects that an action adds belong to a method that is not pending. -/
theorem Action.objects {n : Nat} (h : Action p F n s t) {o : ObjId} {obj : Obj}
    (hobj : t.heap.obj? o = some obj) : s.heap.obj? o = some obj ∨
      obj.site.method ∈ s.calls.methods ∧ obj.site.method ∉ s.pending := by
  cases h with
  | note _ => exact Or.inl hobj
  | wire hwiring => exact Or.inl (hwiring.frame.1 ▸ hobj)
  | feed _ => exact Or.inl hobj
  | @reach _ m _ _ =>
    left
    by_cases hm : m ∈ s.calls.methods
    · rwa [reach_of_mem hm] at hobj
    · rwa [reach_of_not_mem hm] at hobj
  | call _ _ _ _ _ _ hwiring _ =>
    rw [hwiring.frame.1] at hobj
    exact Or.inl hobj
  | spawn _ _ _ hmethod hpending hfresh =>
    rcases (Heap.obj?_allocate hfresh).1 hobj with hold | ⟨_, rfl⟩
    · exact Or.inl hold
    · exact Or.inr ⟨hmethod, hpending⟩

theorem Action.waiting {n : Nat} (h : Action p F n s t) (hs : s.Waiting) : t.Waiting := by
  -- everything follows from one observation: the new methods are new, and all of them are pending
  have hnodup := h.methodsNodup hs.methodsNodup
  have hdiscovers := h.discovers
  obtain ⟨new, hmethods, hpending⟩ := id hdiscovers
  have hsplit := List.nodup_append.1 (hmethods ▸ hnodup)
  refine ⟨hnodup, ?_, ?_, ?_⟩
  · rw [hpending]
    refine hs.pendingNodup.append hsplit.2.1 fun m hm hlate => ?_
    exact hsplit.2.2 m (hs.reached m hm) m hlate rfl
  · intro m hm
    rw [hpending, List.mem_append] at hm
    rw [hmethods, List.mem_append]
    exact hm.imp_left (hs.reached m)
  · intro o obj hobj
    have hsite : obj.site.method ∈ s.calls.methods ∧ obj.site.method ∉ s.pending :=
      (h.objects hobj).elim (hs.objects o obj) fun hnew => hnew
    exact ⟨h.extends.methods.subset hsite.1, hdiscovers.not_pending hnodup hsite.1 hsite.2⟩

/-! ## §5 Sequences of actions -/

/-- Sequences of actions whose charges add up to at most the given number. -/
inductive Actions (p : Program) (F : Fact → Prop) (s : State) : Nat → State → Prop
  | refl (n : Nat) : Actions p F s n s
  | step {m n : Nat} {t u : State} : Actions p F s m t → Action p F n t u → Actions p F s (m + n) u

theorem Action.single {n : Nat} (h : Action p F n s t) : Actions p F s n t :=
  Nat.zero_add n ▸ (Actions.refl 0).step h

theorem Actions.of_le {m n : Nat} (h : Actions p F s m t) (hle : m ≤ n) : Actions p F s n t := by
  induction h generalizing n with
  | refl _ => exact Actions.refl n
  | @step m k _ _ _ haction ih =>
    -- what is left over is added to the charge of the first part
    have hbefore : Actions p F s (n - k) _ := ih (Nat.le_sub_of_add_le hle)
    have hsum : n - k + k = n := Nat.sub_add_cancel (Nat.le_trans (Nat.le_add_left k m) hle)
    exact hsum ▸ hbefore.step haction

theorem Actions.trans {m n : Nat} (h : Actions p F s m t) (h' : Actions p F t n u) :
    Actions p F s (m + n) u := by
  induction h' with
  | refl n => exact h.of_le (Nat.le_add_right m n)
  | step _ haction ih => exact Nat.add_assoc .. ▸ ih.step haction

theorem Actions.extends {n : Nat} (h : Actions p F s n t) : s.Extends t := by
  induction h with
  | refl _ => exact Extends.refl s
  | step _ haction ih => exact ih.trans haction.extends

theorem Actions.supported {n : Nat} (hF : Closed p entry F) (h : Actions p F s n t)
    (hs : s.Supported p F) : t.Supported p F := by
  induction h with
  | refl _ => exact hs
  | step _ haction ih => exact haction.supported hF ih

theorem Actions.conveyed {n : Nat} (h : Actions p F s n t) (hs : s.Conveyed) : t.Conveyed := by
  induction h with
  | refl _ => exact hs
  | step _ haction ih => exact haction.conveyed ih

theorem Actions.linked {n : Nat} (h : Actions p F s n t) (hs : s.Linked p) : t.Linked p := by
  induction h with
  | refl _ => exact hs
  | step _ haction ih => exact haction.linked ih

theorem Actions.discovers {n : Nat} (h : Actions p F s n t) : s.Discovers t := by
  induction h with
  | refl _ => exact Discovers.refl s
  | step _ haction ih => exact ih.trans haction.discovers

theorem Actions.waiting {n : Nat} (h : Actions p F s n t) (hs : s.Waiting) : t.Waiting := by
  induction h with
  | refl _ => exact hs
  | step _ haction ih => exact haction.waiting ih

end State

end PointsTo
