import PointsTo.Proofs.Runs

/-!
# Results are fixpoints

The result of an analysis satisfies every inference rule at once. Edges, objects, call edges and
reachable methods are found while propagation is under way, in whatever order; what a rule calls for is
in place or on its way at any time, and nothing is on its way when the analysis ends.

- `Result.Fixpoint`: the rules, as a property of a result.
- `Program.analyze_fixpoint`: every result of the analysis has the property.
-/

namespace PointsTo

/-! ## §1 The rules for results -/

/-- The values of a call flow between its site and the method called. -/
structure Result.Passes (r : Result) (call : Invoke) (method : Method) : Prop where
  argument : ∀ {arg param}, (arg, param) ∈ call.args.zip method.params →
    r.flow.hasFlow (.var arg) (.var param) = true
  result : ∀ {returned result}, Stmt.ret (some returned) ∈ method.body →
    call.result = some result → r.flow.hasFlow (.var returned) (.var result) = true

/-- The result satisfies the inference rules. -/
structure Result.Fixpoint (r : Result) (p : Program) (entry : MethodId) : Prop where
  entry : entry ∈ r.calls.methods
  new : ∀ {loc lhs ty}, loc.method ∈ r.calls.methods → p.stmt? loc = some (.new lhs ty) →
    ∃ o, r.heap.at? loc = some o ∧ r.heap.obj? o = some ⟨loc, ty⟩ ∧ o ∈ r.pointsTo (.var lhs)
  copy : ∀ {loc lhs rhs}, loc.method ∈ r.calls.methods → p.stmt? loc = some (.copy lhs rhs) →
    r.flow.hasFlow (.var rhs) (.var lhs) = true
  cast : ∀ {loc lhs rhs ty}, loc.method ∈ r.calls.methods → p.stmt? loc = some (.cast lhs rhs ty) →
    r.flow.hasFlow (.var rhs) (.var lhs) = true
  loadStatic : ∀ {loc lhs f}, loc.method ∈ r.calls.methods →
    p.stmt? loc = some (.loadField lhs none f) →
    r.flow.hasFlow (.staticField f) (.var lhs) = true
  storeStatic : ∀ {loc f rhs}, loc.method ∈ r.calls.methods →
    p.stmt? loc = some (.storeField none f rhs) →
    r.flow.hasFlow (.var rhs) (.staticField f) = true
  loadField : ∀ {loc lhs base f o}, loc.method ∈ r.calls.methods →
    p.stmt? loc = some (.loadField lhs (some base) f) → o ∈ r.pointsTo (.var base) →
    r.flow.hasFlow (.field o f) (.var lhs) = true
  storeField : ∀ {loc base f rhs o}, loc.method ∈ r.calls.methods →
    p.stmt? loc = some (.storeField (some base) f rhs) → o ∈ r.pointsTo (.var base) →
    r.flow.hasFlow (.var rhs) (.field o f) = true
  loadArray : ∀ {loc lhs base index o}, loc.method ∈ r.calls.methods →
    p.stmt? loc = some (.loadArray lhs base index) → o ∈ r.pointsTo (.var base) →
    r.flow.hasFlow (.element o) (.var lhs) = true
  storeArray : ∀ {loc base index rhs o}, loc.method ∈ r.calls.methods →
    p.stmt? loc = some (.storeArray base index rhs) → o ∈ r.pointsTo (.var base) →
    r.flow.hasFlow (.var rhs) (.element o) = true
  callStatic : ∀ {loc call callee}, loc.method ∈ r.calls.methods →
    p.stmt? loc = some (.invoke call) → call.kind = .static →
    p.resolve call.target = some callee → ⟨.static, loc, callee⟩ ∈ r.calls.edges
  /-- An instance call runs its target for each object that its receiver points to, and the object
      becomes the receiver of the target. -/
  callInstance : ∀ {loc call receiver o}, loc.method ∈ r.calls.methods →
    p.stmt? loc = some (.invoke call) → call.receiver = some receiver →
    o ∈ r.pointsTo (.var receiver) → ∃ obj, r.heap.obj? o = some obj ∧ ∀ {callee},
      p.Target call obj.ty callee → ⟨call.kind, loc, callee⟩ ∈ r.calls.edges ∧
        ∀ {method self}, p.method? callee = some method → method.self = some self →
          o ∈ r.pointsTo (.var self)
  /-- The callee of an edge is reachable, and the values of the call at its site are passed. -/
  callee : ∀ {e}, e ∈ r.calls.edges → e.callee ∈ r.calls.methods ∧ ∃ call method,
    p.stmt? e.site = some (.invoke call) ∧ call.kind = e.kind ∧
      p.method? e.callee = some method ∧ r.Passes call method
  /-- Points-to sets are closed under the edges. -/
  flow : ∀ {source target o}, r.flow.hasFlow source target = true → o ∈ r.pointsTo source →
    o ∈ r.pointsTo target

/-! ## §2 Nothing is left to do -/

namespace State.Finished

variable {p : Program} {F : Fact → Prop} {entry : MethodId} {s : State}

/-- Whatever was due has arrived. -/
theorem arrived (h : Finished p F s) {id : PointerId} {o : ObjId} (hdue : s.Due id o) :
    o ∈ s.flow.objects id := by
  rcases hdue with harrived | ⟨item, hitem, _⟩
  · exact harrived
  · rw [h.worklist] at hitem
    exact absurd hitem List.not_mem_nil

theorem mem_pointsTo_of_sent (h : Finished p F s) {pointer : Pointer} {o : ObjId}
    (hsent : s.Sent pointer o) : o ∈ s.flow.pointsTo pointer := by
  obtain ⟨id, hfind, hdue⟩ := hsent
  exact FlowGraph.mem_pointsTo.2 ⟨id, hfind, h.arrived hdue⟩

theorem entered (h : Finished p F s) {loc : Location} {stmt : Stmt}
    (hmethod : loc.method ∈ s.calls.methods) (hstmt : p.stmt? loc = some stmt) :
    s.Entered p loc stmt := by
  refine h.covered loc stmt hmethod ?_ hstmt
  rw [h.pending]
  exact List.not_mem_nil

theorem received (h : Finished p F s) {v : VarId} {o : ObjId}
    (ho : o ∈ s.flow.pointsTo (.var v)) : s.Received p v o := by
  obtain ⟨id, hfind, ho⟩ := FlowGraph.mem_pointsTo.1 ho
  exact h.served id v o (FlowGraph.pointer?_of_find? hfind) ho

/-- A site makes one call, so a known call has the kind that the statement says. -/
theorem mem_edges_of_hasCall (h : Finished p F s) {loc : Location} {call : Invoke}
    {callee : MethodId} (hstmt : p.stmt? loc = some (.invoke call))
    (hcall : s.calls.hasCall loc callee = true) : ⟨call.kind, loc, callee⟩ ∈ s.calls.edges := by
  obtain ⟨e, he, rfl, rfl⟩ := CallGraph.hasCall_iff.1 hcall
  obtain ⟨_, call', hstmt', hkind⟩ := h.supported.calls e he
  rw [hstmt, Option.some.injEq, Stmt.invoke.injEq] at hstmt'
  subst hstmt'
  rw [hkind]
  exact he

/-- A method that is reachable is in the program. -/
theorem method_exists (h : Finished p F s) {m : MethodId} (hm : m ∈ s.calls.methods) :
    ∃ method, p.method? m = some method :=
  ⟨_, Array.getElem?_eq_getElem (h.supported.methods m hm).2⟩

theorem new (h : Finished p F s) {loc : Location} {lhs : VarId} {ty : Ty}
    (hmethod : loc.method ∈ s.calls.methods) (hstmt : p.stmt? loc = some (.new lhs ty)) :
    ∃ o, s.heap.at? loc = some o ∧ s.heap.obj? o = some ⟨loc, ty⟩ ∧
      o ∈ s.flow.pointsTo (.var lhs) := by
  obtain ⟨o, hat, hsent⟩ := h.entered hmethod hstmt
  obtain ⟨⟨site, ty'⟩, hobj, rfl⟩ := Heap.exists_obj?_of_at? hat
  -- the object was created by the statement at its site, which is this one
  obtain ⟨lhs', hstmt'⟩ := h.supported.objects o _ hobj
  rw [hstmt, Option.some.injEq, Stmt.new.injEq] at hstmt'
  exact ⟨o, hat, hstmt'.2 ▸ hobj, h.mem_pointsTo_of_sent hsent⟩

theorem passes (h : Finished p F s) (hp : p.WellFormed) {e : CallEdge} (he : e ∈ s.calls.edges) :
    e.callee ∈ s.calls.methods ∧ ∃ call method, p.stmt? e.site = some (.invoke call) ∧
      call.kind = e.kind ∧ p.method? e.callee = some method ∧ s.result.Passes call method := by
  obtain ⟨_, call, hstmt, hkind⟩ := h.supported.calls e he
  obtain ⟨_, hcallee, hpassed⟩ := h.linked e he
  obtain ⟨method, hmethod⟩ := h.method_exists hcallee
  obtain ⟨hargs, hresult⟩ := hpassed call hstmt method hmethod
  refine ⟨hcallee, call, method, hstmt, hkind, hmethod, fun hzip => hargs _ _ hzip, ?_⟩
  intro returned result hreturn hres
  -- the variables that a method returns are indexed when it is built
  exact (hresult result hres).2 returned ((hp.returned hmethod).2 hreturn)

theorem callInstance (h : Finished p F s) {loc : Location} {call : Invoke} {receiver : VarId}
    {o : ObjId} (hstmt : p.stmt? loc = some (.invoke call)) (hreceiver : call.receiver = some receiver)
    (ho : o ∈ s.flow.pointsTo (.var receiver)) :
    ∃ obj, s.heap.obj? o = some obj ∧ ∀ {callee}, p.Target call obj.ty callee →
      ⟨call.kind, loc, callee⟩ ∈ s.calls.edges ∧ ∀ {method self},
        p.method? callee = some method → method.self = some self →
          o ∈ s.flow.pointsTo (.var self) := by
  obtain ⟨obj, hobj, hcalls⟩ := (h.received ho).calls
  refine ⟨obj, hobj, fun {callee} htarget => ?_⟩
  obtain ⟨hcall, hself⟩ := hcalls hstmt hreceiver (Program.target_iff.1 htarget).2
  exact ⟨h.mem_edges_of_hasCall hstmt hcall,
    fun hmethod hvar => h.mem_pointsTo_of_sent (hself hmethod hvar)⟩

theorem flow (h : Finished p F s) {source target : Pointer} {o : ObjId}
    (hflow : s.flow.hasFlow source target = true) (ho : o ∈ s.flow.pointsTo source) :
    o ∈ s.flow.pointsTo target := by
  obtain ⟨a, b, ha, hb, hedge⟩ := FlowGraph.hasFlow_iff.1 hflow
  obtain ⟨a', ha', ho⟩ := FlowGraph.mem_pointsTo.1 ho
  rw [ha, Option.some.injEq] at ha'
  subst ha'
  exact FlowGraph.mem_pointsTo.2 ⟨b, hb, h.arrived (h.conveyed a b o hedge ho)⟩

theorem fixpoint (h : Finished p F s) (hp : p.WellFormed) (hentry : entry ∈ s.calls.methods) :
    s.result.Fixpoint p entry where
  entry := hentry
  new hmethod hstmt := h.new hmethod hstmt
  copy hmethod hstmt := h.entered hmethod hstmt
  cast hmethod hstmt := h.entered hmethod hstmt
  loadStatic hmethod hstmt := h.entered hmethod hstmt
  storeStatic hmethod hstmt := h.entered hmethod hstmt
  loadField _ hstmt ho := (h.received ho).flows hstmt rfl rfl
  storeField _ hstmt ho := (h.received ho).flows hstmt rfl rfl
  loadArray _ hstmt ho := (h.received ho).flows hstmt rfl rfl
  storeArray _ hstmt ho := (h.received ho).flows hstmt rfl rfl
  callStatic hmethod hstmt hkind hresolve := by
    -- whichever edge made the call known, it has the kind of the statement at its site
    have hcall := h.entered hmethod hstmt hkind _ hresolve
    exact hkind ▸ h.mem_edges_of_hasCall hstmt hcall
  callInstance _ hstmt hreceiver ho := h.callInstance hstmt hreceiver ho
  callee he := h.passes hp he
  flow hflow ho := h.flow hflow ho

end State.Finished

/-! ## §3 The analysis -/

namespace Program

variable {p : Program} {entry : MethodId}

theorem analyze_eq (hmain : p.main = some entry) (options : Options) :
    ∃ run, p.analyze options = .ok run ∧ run.result = (p.solve options.order entry).result := by
  simp [analyze, hmain]

theorem solve_fixpoint (hp : p.WellFormed) (hentry : entry.index < p.methods.size)
    (order : WorkOrder) : (p.solve order entry).result.Fixpoint p entry := by
  -- any solution will do for the support, so take the least one
  have hclosed := Derivable.closed p entry
  exact (solve_finished hp hclosed hentry order).fixpoint hp
    (entry_mem_solve hp hclosed hentry order)

/-- **Fixpoints**: the analysis of a built program with an entry method gives a result, whatever the
    options are, and the result satisfies all inference rules. -/
theorem analyze_fixpoint (hp : p.Built) (hmain : p.main = some entry) (options : Options) :
    ∃ run, p.analyze options = .ok run ∧ run.result.Fixpoint p entry := by
  have hwell := hp.wellFormed
  obtain ⟨run, hrun, hresult⟩ := analyze_eq hmain options
  refine ⟨run, hrun, ?_⟩
  rw [hresult]
  exact solve_fixpoint hwell (hwell.mainExists hmain) options.order

theorem analyze_fixpoint_getter :
    ∃ run, getter.analyze { order := .lifo } = .ok run ∧ run.result.Fixpoint getter ⟨1⟩ :=
  analyze_fixpoint getter_built getter_main { order := .lifo }

end Program

end PointsTo
