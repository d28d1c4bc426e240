import PointsTo.Proofs.Operations

/-!
# What the operations establish

Entering a statement puts its immediate effect in place, and receiving an object puts in place the
effects of all accesses and calls through the variable that it reached. Both effects say that something
is there or on its way, so no later change undoes them.

- `State.Entered`, `State.entered_enterMethod`: the statements of a reachable method.
- `State.Received`, `State.received_receiveAll`: the objects that reached a variable.
-/

namespace PointsTo

namespace State

variable {p : Program} {s t : State}

/-! ## §1 Statements of reachable methods -/

/-- An object has arrived at a pointer or is on its way there. -/
def Sent (s : State) (pointer : Pointer) (o : ObjId) : Prop :=
  ∃ id, s.flow.find? pointer = some id ∧ s.Due id o

theorem Grows.sent (h : s.Grows t) {pointer : Pointer} {o : ObjId} (hsent : s.Sent pointer o) :
    t.Sent pointer o := by
  obtain ⟨id, hfind, hdue⟩ := hsent
  exact ⟨id, FlowGraph.find?_of_isPrefix h.pointers hfind, h.due id o hdue⟩

theorem Grows.hasCall (h : s.Grows t) {site : Location} {callee : MethodId}
    (hcall : s.calls.hasCall site callee = true) : t.calls.hasCall site callee = true := by
  obtain ⟨e, he, hends⟩ := CallGraph.hasCall_iff.1 hcall
  exact CallGraph.hasCall_iff.2 ⟨e, h.calls.subset he, hends⟩

/-- The immediate effect of a statement is in place. -/
def Entered (p : Program) (s : State) (loc : Location) : Stmt → Prop
  | .new lhs _ => ∃ o, s.heap.at? loc = some o ∧ s.Sent (.var lhs) o
  | .copy lhs rhs => s.flow.hasFlow (.var rhs) (.var lhs) = true
  | .cast lhs rhs _ => s.flow.hasFlow (.var rhs) (.var lhs) = true
  | .loadField lhs none f => s.flow.hasFlow (.staticField f) (.var lhs) = true
  | .storeField none f rhs => s.flow.hasFlow (.var rhs) (.staticField f) = true
  | .invoke call => call.kind = .static → ∀ callee, p.resolve call.target = some callee →
      s.calls.hasCall loc callee = true
  | _ => True

theorem Grows.entered (h : s.Grows t) {loc : Location} {stmt : Stmt}
    (hentered : s.Entered p loc stmt) : t.Entered p loc stmt := by
  cases stmt with
  | new lhs ty =>
    obtain ⟨o, hat, hsent⟩ := hentered
    exact ⟨o, Heap.at?_of_isPrefix h.heap hat, h.sent hsent⟩
  | copy lhs rhs => exact h.hasFlow hentered
  | cast lhs rhs ty => exact h.hasFlow hentered
  | loadField lhs base f =>
    cases base with
    | none => exact h.hasFlow hentered
    | some _ => trivial
  | storeField base f rhs =>
    cases base with
    | none => exact h.hasFlow hentered
    | some _ => trivial
  | loadArray _ _ _ => trivial
  | storeArray _ _ _ => trivial
  | invoke call => exact fun hkind callee hcallee => h.hasCall (hentered hkind callee hcallee)
  | ret _ => trivial
  | other => trivial

theorem sent_feed {pointer : Pointer} {o : ObjId} :
    (s.feed pointer (Ascending.singleton o)).Sent pointer o := by
  have ho : o ∈ Ascending.singleton o := Ascending.mem_singleton.2 rfl
  have hne : Ascending.singleton o ≠ ∅ := by
    intro hempty
    rw [hempty] at ho
    exact Ascending.not_mem_empty o ho
  have hitem : ⟨(s.flow.intern pointer).2, Ascending.singleton o⟩ ∈
      (s.feed pointer (Ascending.singleton o)).worklist.items :=
    Worklist.mem_items_add.2 (Or.inr ⟨rfl, hne⟩)
  exact ⟨_, FlowGraph.find?_intern s.flow pointer, Or.inr ⟨_, hitem, rfl, ho⟩⟩

theorem hasCall_link {site : Location} {call : Invoke} {callee : MethodId} :
    (s.link p site call callee).calls.hasCall site callee = true := by
  have hrecord : ((s.reach callee).calls.addEdge ⟨call.kind, site, callee⟩).1.hasCall site callee =
      true := CallGraph.hasCall_addEdge.2 (Or.inl ⟨rfl, rfl⟩)
  unfold link
  dsimp only
  split
  · split
    · exact hrecord
    · exact (passValues_extends _ _).grows.hasCall hrecord
  · rename_i hold
    -- the edge is not new, so it was there before
    unfold CallGraph.addEdge at hold
    split at hold
    · assumption
    · simp at hold

theorem entered_enterStmt {loc : Location} {stmt : Stmt} :
    (s.enterStmt p loc stmt).Entered p loc stmt := by
  unfold enterStmt
  split
  · exact ⟨_, Heap.at?_allocate s.heap loc _, sent_feed⟩
  · exact hasFlow_connect
  · exact hasFlow_connect
  · exact hasFlow_connect
  · exact hasFlow_connect
  · -- an instance call has no immediate effect
    rename_i call
    intro hkind callee hcallee
    simp only [hkind, CallKind.isStatic, if_true, callStatic, Program.callee?, hcallee]
    exact hasCall_link
  · cases stmt with
    | loadField _ base _ => cases base <;> simp_all [Entered]
    | storeField base _ _ => cases base <;> simp_all [Entered]
    | _ => simp_all [Entered]

/-- **Entered methods**: after a method is entered, so is each of its statements. -/
theorem entered_enterMethod {m : MethodId} {loc : Location} {stmt : Stmt} (hm : loc.method = m)
    (hstmt : p.stmt? loc = some stmt) : (s.enterMethod p m).Entered p loc stmt := by
  subst hm
  obtain ⟨method, hmethod, hbody⟩ := Program.stmt?_eq_some_iff.1 hstmt
  unfold enterMethod
  simp only [hmethod]
  refine foldl_establishes ?_ (Q := fun t => t.Entered p loc stmt)
    (fun hext hentered => hext.grows.entered hentered)
    (List.mk_mem_zipIdx_iff_getElem?.2 hbody) fun _ _ => entered_enterStmt
  rintro t ⟨stmt', i⟩
  exact enterStmt_extends _ _

/-! ## §2 Received objects -/

/-- The effects of an object that reached a variable are in place. -/
structure Received (p : Program) (s : State) (v : VarId) (o : ObjId) : Prop where
  flows : ∀ {loc stmt kind a b}, p.stmt? loc = some stmt → stmt.access? = some (v, kind) →
    stmt.heapFlow? o = some (a, b) → s.flow.hasFlow a b = true
  calls : ∃ obj, s.heap.obj? o = some obj ∧ ∀ {site call callee},
    p.stmt? site = some (.invoke call) → call.receiver = some v →
    p.callee? call (some obj.ty) = some callee →
      s.calls.hasCall site callee = true ∧ ∀ {method self},
        p.method? callee = some method → method.self = some self → s.Sent (.var self) o

theorem Grows.received (h : s.Grows t) {v : VarId} {o : ObjId} (hreceived : s.Received p v o) :
    t.Received p v o := by
  refine ⟨fun hstmt haccess hflow => h.hasFlow (hreceived.flows hstmt haccess hflow), ?_⟩
  obtain ⟨obj, hobj, hcalls⟩ := hreceived.calls
  refine ⟨obj, Heap.obj?_of_isPrefix h.heap hobj, fun hstmt hreceiver hcallee => ?_⟩
  obtain ⟨hcall, hself⟩ := hcalls hstmt hreceiver hcallee
  exact ⟨h.hasCall hcall, fun hmethod hvar => h.sent (hself hmethod hvar)⟩

theorem called_callInstance {site : Location} {call : Invoke} {o : ObjId} {obj : Obj}
    {callee : MethodId} (hobj : s.heap.obj? o = some obj)
    (hstmt : p.stmt? site = some (.invoke call))
    (hcallee : p.callee? call (some obj.ty) = some callee) :
    (s.callInstance p o site).calls.hasCall site callee = true ∧ ∀ {method self},
      p.method? callee = some method → method.self = some self →
        (s.callInstance p o site).Sent (.var self) o := by
  have heq : s.callInstance p o site =
      (s.bindReceiver p callee o).link p site call callee := by
    simp [callInstance, hstmt, hobj, hcallee]
  rw [heq]
  refine ⟨hasCall_link, fun {method self} hmethod hself => ?_⟩
  have hbind : s.bindReceiver p callee o = s.feed (.var self) (Ascending.singleton o) := by
    simp [bindReceiver, hmethod, hself]
  rw [hbind]
  exact (link_extends _ _ _).grows.sent sent_feed

theorem received_receive (hp : p.WellFormed) {v : VarId} {o : ObjId} {var : Var} {obj : Obj}
    (hvar : p.var? v = some var) (hobj : s.heap.obj? o = some obj) :
    (receive p v s o).Received p v o := by
  unfold receive
  simp only [hvar]
  constructor
  -- the flows are there before the calls are looked at, and the calls keep them
  · intro loc stmt kind a b hstmt haccess hflow
    apply (foldl_extends (fun _ site => callInstance_extends _ site) _ _).grows.hasFlow
    exact hasFlow_connectAll (e := (a, b))
      ((mem_heapFlows hp hvar).2 ⟨loc, stmt, kind, hstmt, haccess, hflow⟩)
  · have hobj' : (s.connectAll (p.heapFlows var.accesses o)).heap.obj? o = some obj := by
      rwa [heap_connectAll]
    refine ⟨obj, ?_, fun {site call callee} hstmt hreceiver hcallee => ?_⟩
    · exact Heap.obj?_of_isPrefix
        (foldl_extends (fun _ site => callInstance_extends _ site) _ _).heap hobj'
    · -- the round of this call site establishes the edge and sends the receiver
      have hsite := (mem_invokes hp hvar).2 ⟨call, hstmt, hreceiver⟩
      refine foldl_establishes (fun _ site => callInstance_extends o site)
        (Q := fun t => t.calls.hasCall site callee = true ∧ ∀ {method self},
          p.method? callee = some method → method.self = some self → t.Sent (.var self) o)
        (fun hext hdone => ⟨hext.grows.hasCall hdone.1,
          fun hmethod hself => hext.grows.sent (hdone.2 hmethod hself)⟩) hsite fun t ht => ?_
      exact called_callInstance (Heap.obj?_of_isPrefix ht.heap hobj') hstmt hcallee

/-- **Received objects**: after objects are received at a variable, their effects are in place. -/
theorem received_receiveAll (hp : p.WellFormed) {v : VarId} {var : Var} {delta : ObjSet} {o : ObjId}
    {obj : Obj} (hvar : p.var? v = some var) (hobj : s.heap.obj? o = some obj) (ho : o ∈ delta) :
    (s.receiveAll p (.var v) delta).Received p v o :=
  foldl_establishes (fun _ obj => receive_extends v obj) (Q := fun t => t.Received p v o)
    (fun hext hdone => hext.grows.received hdone) ho
    fun _ ht => received_receive hp hvar (Heap.obj?_of_isPrefix ht.heap hobj)

end State

end PointsTo
