import PointsTo.Proofs.Actions

/-!
# The analysis acts on the facts

Every operation of the analysis is a sequence of actions, for every solution of the rules that supports
the state in which the operation starts. What an operation needs from that state is monotone: it needs
methods to be reachable and objects to be known, and these stay so.

- `State.Actions.link`, `State.Actions.callInstance`: calls.
- `State.Actions.enterMethod`: the statements of a method that has become reachable.
- `State.Actions.receiveAll`: the objects that have reached a variable.
-/

namespace PointsTo

namespace State

variable {p : Program} {F : Fact → Prop} {entry : MethodId} {s t : State}

/-! ## §1 Values of a call -/

theorem hasFlow_connectAll {edges : List (Pointer × Pointer)} {e : Pointer × Pointer}
    (he : e ∈ edges) : (s.connectAll edges).flow.hasFlow e.1 e.2 = true := by
  refine foldl_establishes ?_ (Q := fun t => t.flow.hasFlow e.1 e.2 = true)
    (fun hext hflow => hext.grows.hasFlow hflow) he fun _ _ => hasFlow_connect
  rintro t ⟨a, b⟩
  exact connect_extends a b

theorem passValues_eq {call : Invoke} {method : Method} :
    s.passValues call method =
      (s.connectAll ((call.args.zip method.params).map (Prod.map .var .var))).passResult
        method.returnVars call.result :=
  rfl

theorem passed_passValues {call : Invoke} {callee : MethodId} {method : Method}
    (hmethod : p.method? callee = some method) :
    (s.passValues call method).Passed p call callee := by
  intro method' hmethod'
  have heq : method = method' := Option.some.inj (hmethod.symm.trans hmethod')
  subst heq
  constructor
  · intro arg param hzip
    refine (passResult_extends _ _).grows.hasFlow (hasFlow_connectAll (e := (.var arg, .var param)) ?_)
    exact List.mem_map.2 ⟨(arg, param), hzip, rfl⟩
  · intro result hresult
    simp only [passValues, hresult, passResult]
    constructor
    · apply (connectAll_extends _).pointers.subset
      exact FlowGraph.mem_pointerList_intern.2 (Or.inl rfl)
    · intro v hv
      exact hasFlow_connectAll (e := (.var v, .var result)) (List.mem_map.2 ⟨v, hv, rfl⟩)

/-- The values of a call that is among the facts are passed by wiring. -/
theorem Wiring.passValues (hp : p.WellFormed) (hF : Closed p entry F) {site : Location}
    {call : Invoke} {callee : MethodId} {method : Method}
    (hcall : F (.calls ⟨call.kind, site, callee⟩)) (hstmt : p.stmt? site = some (.invoke call))
    (hmethod : p.method? callee = some method) (hcaller : site.method ∈ s.calls.methods)
    (hcallee : callee ∈ s.calls.methods) : Wiring p F s (s.passValues call method) := by
  have hargs : Wiring p F s (s.connectAll
      ((call.args.zip method.params).map (Prod.map .var .var))) := by
    apply Wiring.connectAll
    intro e he
    obtain ⟨⟨arg, param⟩, hzip, rfl⟩ := List.mem_map.1 he
    obtain ⟨harg, hparam⟩ := List.of_mem_zip hzip
    have harg' : arg ∈ (Stmt.invoke call).vars := by simp [Stmt.vars, harg]
    exact ⟨⟨_, hcaller, hp.varOwned hstmt harg'⟩, ⟨_, hcallee, hp.paramOwned hmethod hparam⟩,
      _, _, rfl, rfl, hF _ (.argument hcall hstmt hmethod hzip)⟩
  have hframe := hargs.frame.2.1
  rw [passValues_eq]
  refine hargs.trans ?_
  cases hresult : call.result with
  | none => exact Wiring.refl
  | some result =>
    have hvar : result ∈ (Stmt.invoke call).vars := by simp [Stmt.vars, hresult]
    have howned := hp.varOwned hstmt hvar
    refine (Wiring.refl.mention ?_).trans (Wiring.connectAll ?_)
    · exact ⟨⟨_, hframe ▸ hcaller, howned⟩, _, rfl, .result hcall hstmt hresult⟩
    · intro e he
      obtain ⟨v, hv, rfl⟩ := List.mem_map.1 he
      have hreturn := (hp.returned hmethod).1 hv
      obtain ⟨i, hi⟩ := List.mem_iff_getElem?.1 hreturn
      -- a returned variable belongs to the callee, because the return statement does
      have hloc : p.stmt? ⟨callee, i⟩ = some (.ret (some v)) :=
        Program.stmt?_eq_some_iff.2 ⟨method, hmethod, hi⟩
      have hv' := hp.varOwned hloc (v := v) (by simp [Stmt.vars])
      exact ⟨⟨_, hframe ▸ hcallee, hv'⟩, ⟨_, hframe ▸ hcaller, howned⟩, _, _, rfl, rfl,
        hF _ (.result hcall hstmt hmethod hreturn hresult)⟩

/-! ## §2 Calls -/

theorem mem_reach (m : MethodId) : m ∈ (s.reach m).calls.methods := by
  by_cases hm : m ∈ s.calls.methods
  · rwa [reach_of_mem hm]
  · rw [reach_of_not_mem hm]
    exact List.mem_append_right _ List.mem_cons_self

theorem hasCall_reach {m callee : MethodId} {site : Location} :
    (s.reach m).calls.hasCall site callee = s.calls.hasCall site callee := by
  simp only [CallGraph.hasCall, edges_reach]

theorem link_of_known {site : Location} {call : Invoke} {callee : MethodId}
    (hknown : s.calls.hasCall site callee = true) :
    s.link p site call callee = s.reach callee := by
  simp [State.link, CallGraph.addEdge, hasCall_reach, hknown]

theorem link_of_new {site : Location} {call : Invoke} {callee : MethodId} {method : Method}
    (hmethod : p.method? callee = some method) (hnew : s.calls.hasCall site callee = false) :
    s.link p site call callee =
      ((s.reach callee).record ⟨call.kind, site, callee⟩).passValues call method := by
  simp [State.link, CallGraph.addEdge, hasCall_reach, hnew, hmethod, record]

/-- A call edge that is among the facts is recorded, if it is new, with all that belongs to it. -/
theorem Actions.link (hp : p.WellFormed) (hF : Closed p entry F) {site : Location} {call : Invoke}
    {callee : MethodId} {method : Method} (hcall : F (.calls ⟨call.kind, site, callee⟩))
    (hstmt : p.stmt? site = some (.invoke call)) (hmethod : p.method? callee = some method)
    (hcaller : site.method ∈ s.calls.methods) : Actions p F s 0 (s.link p site call callee) := by
  have hlt : callee.index < p.methods.size := (Array.getElem?_eq_some_iff.1 hmethod).1
  have hreach : Actions p F s 0 (s.reach callee) :=
    (Action.reach (hF _ (.callee hcall)) hlt).single
  -- a call that is known already has been linked when it was recorded
  cases hknown : s.calls.hasCall site callee with
  | true => rwa [link_of_known hknown]
  | false =>
    rw [link_of_new hmethod hknown]
    have hcaller' : site.method ∈ (s.reach callee).calls.methods :=
      hreach.extends.methods.subset hcaller
    have hcallee := mem_reach (s := s) callee
    have hnew : (s.reach callee).calls.hasCall site callee = false := by rwa [hasCall_reach]
    have hmethods := (calls_record (e := ⟨call.kind, site, callee⟩) hcaller' hcallee hnew).1
    refine hreach.step (.call hcall hstmt rfl hcaller' hcallee hnew ?_ (passed_passValues hmethod))
    exact Wiring.passValues hp hF hcall hstmt hmethod (hmethods ▸ hcaller') (hmethods ▸ hcallee)

theorem Actions.callStatic (hp : p.WellFormed) (hF : Closed p entry F) {site : Location}
    {call : Invoke} (hstmt : p.stmt? site = some (.invoke call)) (hkind : call.kind = .static)
    (hcaller : site.method ∈ s.calls.methods) (hreachable : F (.reachable site.method)) :
    Actions p F s 0 (s.callStatic p site call) := by
  unfold State.callStatic
  split
  · exact (Action.note _).single
  · rename_i callee hcallee
    obtain ⟨method, hmethod⟩ := hp.method_exists hcallee
    have hresolve : p.resolve call.target = some callee := by
      rw [← hcallee, Program.callee?, hkind]
    refine Actions.link hp hF ?_ hstmt hmethod hcaller
    rw [hkind]
    exact hF _ (.callStatic hreachable hstmt hkind hresolve)

/-- A method may become reachable before its receiver is bound. -/
theorem reach_feed {m : MethodId} {pointer : Pointer} {objects : ObjSet} :
    (s.feed pointer objects).reach m = (s.reach m).feed pointer objects := by
  by_cases hm : m ∈ s.calls.methods
  · rw [reach_of_mem hm, reach_of_mem (s := s.feed pointer objects) hm]
  · rw [reach_of_not_mem hm, reach_of_not_mem (s := s.feed pointer objects) hm]
    rfl

theorem link_bindReceiver {site : Location} {call : Invoke} {callee : MethodId} {o : ObjId} :
    (s.bindReceiver p callee o).link p site call callee =
      ((s.reach callee).bindReceiver p callee o).link p site call callee := by
  have hreach : (s.bindReceiver p callee o).reach callee =
      ((s.reach callee).bindReceiver p callee o).reach callee := by
    unfold bindReceiver
    split
    · rw [reach_of_mem (mem_reach callee)]
    · rw [reach_feed, reach_feed, reach_of_mem (mem_reach callee)]
  unfold State.link
  rw [hreach]

/-- An object of the heap that the facts let a variable point to. -/
def Known (p : Program) (F : Fact → Prop) (s : State) (v : VarId) (o : ObjId) : Prop :=
  ∃ obj, s.heap.obj? o = some obj ∧ p.allocated? obj.site = some obj.ty ∧
    F (.pointsTo (.var v) obj.site)

theorem Extends.known (h : s.Extends t) {v : VarId} {o : ObjId} (hknown : s.Known p F v o) :
    t.Known p F v o := by
  obtain ⟨obj, hobj, hty, hfact⟩ := hknown
  exact ⟨obj, Heap.obj?_of_isPrefix h.heap hobj, hty, hfact⟩

theorem Actions.callInstance (hp : p.WellFormed) (hF : Closed p entry F) {site : Location}
    {call : Invoke} {v : VarId} {o : ObjId} (hstmt : p.stmt? site = some (.invoke call))
    (hreceiver : call.receiver = some v) (hcaller : site.method ∈ s.calls.methods)
    (hreachable : F (.reachable site.method)) (hknown : s.Known p F v o) :
    Actions p F s 1 (s.callInstance p o site) := by
  obtain ⟨obj, hobj, hty, hfact⟩ := hknown
  -- static calls have no receiver
  have hkind : call.kind ≠ .static := by
    intro hstatic
    have hnone := (hp.receiver hstmt).2 (by rw [hstatic]; rfl)
    rw [hreceiver] at hnone
    exact absurd hnone (Option.some_ne_none v)
  unfold State.callInstance
  simp only [hstmt, hobj, Option.map_some]
  split
  · exact (Action.note _).single.of_le (Nat.zero_le 1)
  · rename_i callee hcallee
    obtain ⟨method, hmethod⟩ := hp.method_exists hcallee
    have htarget := Program.target_iff.2 ⟨hkind, hcallee⟩
    have hcall := hF _ (.callInstance hreachable hstmt hreceiver hfact hty htarget)
    have hlt : callee.index < p.methods.size := (Array.getElem?_eq_some_iff.1 hmethod).1
    have hreach : Actions p F s 0 (s.reach callee) :=
      (Action.reach (hF _ (.callee hcall)) hlt).single
    -- the receiver is bound after the callee is reachable, so that its variable is within reach
    have hbind : Actions p F (s.reach callee) 1 ((s.reach callee).bindReceiver p callee o) := by
      unfold bindReceiver
      simp only [hmethod, Option.bind_some]
      split
      · exact Actions.refl 1
      · rename_i self hself
        have hsite : (s.reach callee).heap.site? o = some obj.site :=
          Heap.site?_of_isPrefix hreach.extends.heap (Heap.site?_of_obj? hobj)
        have hfeed : (s.reach callee).Feedable p F (.var self) o :=
          ⟨⟨_, mem_reach callee, hp.selfOwned hmethod hself⟩, _, obj.site, rfl, hsite,
            hF _ (.bind hreachable hstmt hreceiver hfact hty htarget hmethod hself)⟩
        exact (Action.feed hfeed).single
    rw [link_bindReceiver]
    have hboth := hreach.trans hbind
    exact hboth.trans
      (Actions.link hp hF hcall hstmt hmethod (hboth.extends.methods.subset hcaller))

/-! ## §3 Reachable methods -/

theorem heap_connectAll (edges : List (Pointer × Pointer)) :
    (s.connectAll edges).heap = s.heap := by
  induction edges generalizing s with
  | nil => rfl
  | cons e rest ih => exact ih.trans heap_connect

theorem heap_reach {m : MethodId} : (s.reach m).heap = s.heap := by
  by_cases hm : m ∈ s.calls.methods
  · rw [reach_of_mem hm]
  · rw [reach_of_not_mem hm]
    rfl

theorem heap_passValues {call : Invoke} {method : Method} :
    (s.passValues call method).heap = s.heap := by
  unfold passValues passResult
  split
  · exact heap_connectAll _
  · exact (heap_connectAll _).trans (heap_connectAll (s := s) _)

theorem heap_link {site : Location} {call : Invoke} {callee : MethodId} :
    (s.link p site call callee).heap = s.heap := by
  unfold State.link
  dsimp only
  split
  · split
    · exact heap_reach
    · exact heap_passValues.trans heap_reach
  · exact heap_reach

/-- Entering a statement creates no object but its own. -/
theorem mem_siteList_enterStmt {loc site : Location} {stmt : Stmt}
    (h : site ∈ (s.enterStmt p loc stmt).heap.siteList) : site = loc ∨ site ∈ s.heap.siteList := by
  unfold enterStmt at h
  split at h
  · by_cases hfresh : s.heap.at? loc = none
    · have hsites : site ∈ (s.heap.allocate loc _).1.siteList := h
      rw [Heap.siteList_allocate hfresh, List.mem_append, List.mem_singleton] at hsites
      exact hsites.symm
    · obtain ⟨o, ho⟩ := Option.ne_none_iff_exists'.1 hfresh
      have hsites : site ∈ (s.heap.allocate loc _).1.siteList := h
      simp only [Heap.allocate, ho] at hsites
      exact Or.inr hsites
  · exact Or.inr (by rwa [heap_connect] at h)
  · exact Or.inr (by rwa [heap_connect] at h)
  · exact Or.inr (by rwa [heap_connect] at h)
  · exact Or.inr (by rwa [heap_connect] at h)
  · right
    unfold State.callStatic at h
    split at h
    · split at h
      · exact h
      · rwa [heap_link] at h
    · exact h
  · exact Or.inr h

/-- A statement of a method that has just become reachable. -/
theorem Actions.enterStmt (hp : p.WellFormed) (hF : Closed p entry F) {loc : Location} {stmt : Stmt}
    (hstmt : p.stmt? loc = some stmt) (hmethod : loc.method ∈ s.calls.methods)
    (hpending : loc.method ∉ s.pending) (hreachable : F (.reachable loc.method))
    (hfresh : s.heap.at? loc = none) : Actions p F s 0 (s.enterStmt p loc stmt) := by
  -- the variables of the statement are within the reachable methods
  have howned : ∀ v, v ∈ stmt.vars → (Pointer.var v).Within p s.calls.methods :=
    fun v hv => ⟨_, hmethod, hp.varOwned hstmt hv⟩
  have hconnect : ∀ {a b : Pointer}, s.Connectable p F a b → Actions p F s 0 (s.connect a b) :=
    fun h => (Action.wire (Wiring.refl.connect h)).single
  unfold State.enterStmt
  split
  · rename_i lhs ty
    have hlhs := hp.varOwned hstmt (v := lhs) (by simp [Stmt.vars])
    exact (Action.spawn hstmt (hF _ (.new hreachable hstmt)) hlhs hmethod hpending hfresh).single
  · rename_i lhs rhs
    exact hconnect ⟨howned rhs (by simp [Stmt.vars]), howned lhs (by simp [Stmt.vars]), _, _, rfl,
      rfl, hF _ (.copy hreachable hstmt)⟩
  · rename_i lhs rhs ty
    exact hconnect ⟨howned rhs (by simp [Stmt.vars]), howned lhs (by simp [Stmt.vars]), _, _, rfl,
      rfl, hF _ (.cast hreachable hstmt)⟩
  · rename_i lhs f
    exact hconnect ⟨hp.loadedExists hstmt, howned lhs (by simp [Stmt.vars]), _, _, rfl, rfl,
      hF _ (.loadStatic hreachable hstmt)⟩
  · rename_i f rhs
    exact hconnect ⟨howned rhs (by simp [Stmt.vars]), hp.storedExists hstmt, _, _, rfl, rfl,
      hF _ (.storeStatic hreachable hstmt)⟩
  · rename_i call
    split
    · rename_i hstatic
      have hkind : call.kind = .static := by
        cases hk : call.kind <;> simp [hk, CallKind.isStatic] at hstatic ⊢
      exact Actions.callStatic hp hF hstmt hkind hmethod hreachable
    · exact Actions.refl 0
  · exact Actions.refl 0

/-- The statements of a method, each at its location and none of them entered before. -/
theorem Actions.enterStmts (hp : p.WellFormed) (hF : Closed p entry F) {m : MethodId}
    (hreachable : F (.reachable m)) {body : List (Stmt × Nat)}
    (hbody : ∀ x ∈ body, p.stmt? ⟨m, x.2⟩ = some x.1) (hnodup : (body.map Prod.snd).Nodup)
    (hs : s.Waiting) (hmethod : m ∈ s.calls.methods) (hpending : m ∉ s.pending)
    (hfresh : ∀ x ∈ body, s.heap.at? ⟨m, x.2⟩ = none) :
    Actions p F s 0 (body.foldl (fun s (stmt, i) => s.enterStmt p ⟨m, i⟩ stmt) s) := by
  induction body generalizing s with
  | nil => exact Actions.refl 0
  | cons x rest ih =>
    obtain ⟨stmt, i⟩ := x
    have hfirst : Actions p F s 0 (s.enterStmt p ⟨m, i⟩ stmt) :=
      Actions.enterStmt hp hF (hbody (stmt, i) List.mem_cons_self) hmethod hpending hreachable
        (hfresh (stmt, i) List.mem_cons_self)
    rw [List.map_cons, List.nodup_cons] at hnodup
    have hwaiting := hfirst.waiting hs
    refine hfirst.trans (ih (fun x hx => hbody x (List.mem_cons_of_mem _ hx)) hnodup.2 hwaiting
      (hfirst.extends.methods.subset hmethod)
      (hfirst.discovers.not_pending hwaiting.methodsNodup hmethod hpending) ?_)
    -- the remaining locations differ from the one just entered
    intro x hx
    rw [Heap.at?_eq_none_iff]
    intro hmem
    rcases mem_siteList_enterStmt hmem with heq | hold
    · have hindex : x.2 = i := by simpa using congrArg Location.index heq
      have hlater : x.2 ∈ rest.map Prod.snd := List.mem_map_of_mem hx
      exact hnodup.1 (hindex ▸ hlater)
    · exact Heap.at?_eq_none_iff.1 (hfresh x (List.mem_cons_of_mem _ hx)) hold

theorem Actions.enterMethod (hp : p.WellFormed) (hF : Closed p entry F) {m : MethodId}
    (hreachable : F (.reachable m)) (hs : s.Waiting) (hmethod : m ∈ s.calls.methods)
    (hpending : m ∉ s.pending)
    (hfresh : ∀ o obj, s.heap.obj? o = some obj → obj.site.method ≠ m) :
    Actions p F s 0 (s.enterMethod p m) := by
  unfold State.enterMethod
  split
  · exact Actions.refl 0
  · rename_i method hlookup
    refine Actions.enterStmts hp hF hreachable ?_ ?_ hs hmethod hpending ?_
    · intro x hx
      exact Program.stmt?_eq_some_iff.2 ⟨method, hlookup, List.mk_mem_zipIdx_iff_getElem?.1 hx⟩
    · -- positions in a body are different
      rw [List.zipIdx_map_snd]
      exact List.nodup_range'
    · -- an object of this method would have been created by entering it before
      intro x _
      cases hat : s.heap.at? ⟨m, x.2⟩ with
      | none => rfl
      | some o =>
        obtain ⟨obj, hobj, hsite⟩ := Heap.exists_obj?_of_at? hat
        exact absurd (congrArg Location.method hsite) (hfresh o obj hobj)

/-! ## §4 Received objects -/

theorem owner_unique {m m' : MethodId} {v : VarId} (h : p.Owns m v) (h' : p.Owns m' v) : m = m' := by
  obtain ⟨var, hvar, hm⟩ := h
  obtain ⟨var', hvar', hm'⟩ := h'
  have heq : var = var' := Option.some.inj (hvar.symm.trans hvar')
  rw [← hm, ← hm', heq]

/-- The base of an access is one of the variables of the statement. -/
theorem base_mem_vars {stmt : Stmt} {v : VarId} {kind : AccessKind}
    (h : stmt.access? = some (v, kind)) : v ∈ stmt.vars := by
  unfold Stmt.access? at h
  split at h
  all_goals simp_all [Stmt.vars]

/-- A call goes through its receiver, but causes no flow of its own. -/
theorem heapFlow?_of_invoke {stmt : Stmt} {v : VarId} {o : ObjId}
    (h : stmt.access? = some (v, .invoke)) : stmt.heapFlow? o = none := by
  unfold Stmt.access? at h
  split at h
  all_goals simp_all [Stmt.heapFlow?]

/-- The flow that an access through a variable causes for an object that the variable points to. -/
theorem connectable_heapFlow (hp : p.WellFormed) (hF : Closed p entry F) {loc : Location}
    {stmt : Stmt} {v : VarId} {kind : AccessKind} {o : ObjId} {a b : Pointer}
    (hstmt : p.stmt? loc = some stmt) (haccess : stmt.access? = some (v, kind))
    (hflow : stmt.heapFlow? o = some (a, b)) (hmethod : loc.method ∈ s.calls.methods)
    (hreachable : F (.reachable loc.method)) (hknown : s.Known p F v o) :
    s.Connectable p F a b := by
  obtain ⟨obj, hobj, _, hfact⟩ := hknown
  have hsite : s.heap.site? o = some obj.site := Heap.site?_of_obj? hobj
  have howned : ∀ v, v ∈ stmt.vars → (Pointer.var v).Within p s.calls.methods :=
    fun v hv => ⟨_, hmethod, hp.varOwned hstmt hv⟩
  -- only the four kinds of access to the heap cause a flow, and only through a base
  cases stmt with
  | storeField base f rhs =>
    cases base with
    | none => cases haccess
    | some base =>
      cases haccess
      cases hflow
      exact ⟨howned rhs (by simp [Stmt.vars]), hp.storedExists hstmt, _, _, rfl,
        by simp [Heap.place?, hsite], hF _ (.storeField hreachable hstmt hfact)⟩
  | loadField lhs base f =>
    cases base with
    | none => cases haccess
    | some base =>
      cases haccess
      cases hflow
      exact ⟨hp.loadedExists hstmt, howned lhs (by simp [Stmt.vars]), _, _,
        by simp [Heap.place?, hsite], rfl, hF _ (.loadField hreachable hstmt hfact)⟩
  | storeArray base index rhs =>
    cases haccess
    cases hflow
    exact ⟨howned rhs (by simp [Stmt.vars]), trivial, _, _, rfl,
      by simp [Heap.place?, hsite], hF _ (.storeArray hreachable hstmt hfact)⟩
  | loadArray lhs base index =>
    cases haccess
    cases hflow
    exact ⟨trivial, howned lhs (by simp [Stmt.vars]), _, _,
      by simp [Heap.place?, hsite], rfl, hF _ (.loadArray hreachable hstmt hfact)⟩
  | _ => cases hflow

/-- The flows of an object are those of the field and array accesses through the variable. -/
theorem mem_heapFlows (hp : p.WellFormed) {v : VarId} {var : Var} (hvar : p.var? v = some var)
    {o : ObjId} {e : Pointer × Pointer} :
    e ∈ p.heapFlows var.accesses o ↔ ∃ loc stmt kind, p.stmt? loc = some stmt ∧
      stmt.access? = some (v, kind) ∧ stmt.heapFlow? o = some e := by
  have hindex : ∀ kind loc, loc ∈ var.accesses.of kind ↔
      ∃ stmt, p.stmt? loc = some stmt ∧ stmt.access? = some (v, kind) := by
    intro kind loc
    rw [hp.accesses hvar kind, Program.mem_accessSites]
  -- the four lists of the index are those of all kinds of access but calls
  have hlists : ∀ loc, loc ∈ var.accesses.storeFields ++ var.accesses.loadFields ++
      var.accesses.storeArrays ++ var.accesses.loadArrays ↔
        ∃ kind, kind ≠ .invoke ∧ loc ∈ var.accesses.of kind := by
    intro loc
    simp only [List.mem_append]
    constructor
    · rintro (((h | h) | h) | h)
      · exact ⟨.storeField, by decide, h⟩
      · exact ⟨.loadField, by decide, h⟩
      · exact ⟨.storeArray, by decide, h⟩
      · exact ⟨.loadArray, by decide, h⟩
    · rintro ⟨kind, hkind, h⟩
      cases kind with
      | storeField => exact Or.inl (Or.inl (Or.inl h))
      | loadField => exact Or.inl (Or.inl (Or.inr h))
      | storeArray => exact Or.inl (Or.inr h)
      | loadArray => exact Or.inr h
      | invoke => exact absurd rfl hkind
  simp only [Program.heapFlows, List.mem_filterMap, Option.bind_eq_some_iff]
  constructor
  · rintro ⟨loc, hloc, stmt, hstmt, hflow⟩
    obtain ⟨kind, _, hkind⟩ := (hlists loc).1 hloc
    obtain ⟨stmt', hstmt', haccess⟩ := (hindex kind loc).1 hkind
    cases hstmt.symm.trans hstmt'
    exact ⟨loc, stmt, kind, hstmt, haccess, hflow⟩
  · rintro ⟨loc, stmt, kind, hstmt, haccess, hflow⟩
    refine ⟨loc, (hlists loc).2 ⟨kind, ?_, (hindex kind loc).2 ⟨stmt, hstmt, haccess⟩⟩, stmt, hstmt,
      hflow⟩
    rintro rfl
    rw [heapFlow?_of_invoke haccess] at hflow
    simp at hflow

theorem mem_invokes (hp : p.WellFormed) {v : VarId} {var : Var} (hvar : p.var? v = some var)
    {site : Location} :
    site ∈ var.accesses.invokes ↔
      ∃ call, p.stmt? site = some (.invoke call) ∧ call.receiver = some v := by
  have hindex : var.accesses.invokes = p.accessSites v .invoke := hp.accesses hvar .invoke
  rw [hindex, Program.mem_accessSites]
  constructor
  · rintro ⟨stmt, hstmt, haccess⟩
    unfold Stmt.access? at haccess
    split at haccess
    all_goals simp_all
  · rintro ⟨call, hstmt, hreceiver⟩
    exact ⟨.invoke call, hstmt, by simp [Stmt.access?, hreceiver]⟩

/-- Each call through a variable is charged once for an object that reaches the variable. -/
theorem Actions.callInstances (hp : p.WellFormed) (hF : Closed p entry F) {m : MethodId} {v : VarId}
    {o : ObjId} {sites : List Location}
    (hsites : ∀ site ∈ sites, ∃ call, p.stmt? site = some (.invoke call) ∧ call.receiver = some v)
    (howns : p.Owns m v) (hmethod : m ∈ s.calls.methods) (hreachable : F (.reachable m))
    (hknown : s.Known p F v o) :
    Actions p F s sites.length (sites.foldl (fun s site => s.callInstance p o site) s) := by
  induction sites generalizing s with
  | nil => exact Actions.refl 0
  | cons site rest ih =>
    obtain ⟨call, hstmt, hreceiver⟩ := hsites site List.mem_cons_self
    have hv : v ∈ (Stmt.invoke call).vars := by simp [Stmt.vars, hreceiver]
    -- a variable belongs to one method, so the calls through it are made by that method
    have hsame : m = site.method := owner_unique howns (hp.varOwned hstmt hv)
    subst hsame
    have hfirst := Actions.callInstance hp hF hstmt hreceiver hmethod hreachable hknown
    have hrest := ih (fun site hsite => hsites site (List.mem_cons_of_mem _ hsite))
      (hfirst.extends.methods.subset hmethod) (hfirst.extends.known hknown)
    exact (hfirst.trans hrest).of_le (by simp [Nat.add_comm])

theorem Actions.receive (hp : p.WellFormed) (hF : Closed p entry F) {m : MethodId} {v : VarId}
    {o : ObjId} (howns : p.Owns m v) (hmethod : m ∈ s.calls.methods)
    (hreachable : F (.reachable m)) (hknown : s.Known p F v o) :
    Actions p F s (p.accessSites v .invoke).length (receive p v s o) := by
  obtain ⟨var, hvar, _⟩ := id howns
  have hindex : var.accesses.invokes = p.accessSites v .invoke := hp.accesses hvar .invoke
  have hflows : Actions p F s 0 (s.connectAll (p.heapFlows var.accesses o)) := by
    refine (Action.wire (Wiring.connectAll fun e he => ?_)).single
    obtain ⟨loc, stmt, kind, hstmt, haccess, hflow⟩ := (mem_heapFlows hp hvar).1 he
    have hsame : m = loc.method := owner_unique howns (hp.varOwned hstmt (base_mem_vars haccess))
    subst hsame
    exact connectable_heapFlow hp hF hstmt haccess hflow hmethod hreachable hknown
  unfold State.receive
  simp only [hvar]
  have hcalls := Actions.callInstances hp hF (fun site hsite => (mem_invokes hp hvar).1 hsite) howns
    (hflows.extends.methods.subset hmethod) hreachable (hflows.extends.known hknown)
  rw [← hindex]
  exact (hflows.trans hcalls).of_le (by simp)

/-- **Received objects**: every call through the variable is charged once for each object. -/
theorem Actions.receiveAll (hp : p.WellFormed) (hF : Closed p entry F) {m : MethodId} {v : VarId}
    {delta : ObjSet} (howns : p.Owns m v) (hmethod : m ∈ s.calls.methods)
    (hreachable : F (.reachable m)) (hknown : ∀ o ∈ delta, s.Known p F v o) :
    Actions p F s (delta.size * (p.accessSites v .invoke).length)
      (s.receiveAll p (.var v) delta) := by
  obtain ⟨objects, hsorted⟩ := delta
  have hlist : ∀ o ∈ objects, s.Known p F v o := hknown
  show Actions p F s (objects.length * _) (objects.foldl (State.receive p v) s)
  clear hknown hsorted
  induction objects generalizing s with
  | nil => exact Actions.refl _
  | cons o rest ih =>
    have hfirst := Actions.receive hp hF howns hmethod hreachable (hlist o List.mem_cons_self)
    have hrest := ih (hfirst.extends.methods.subset hmethod)
      fun o' ho' => hfirst.extends.known (hlist o' (List.mem_cons_of_mem _ ho'))
    refine (hfirst.trans hrest).of_le (Nat.le_of_eq ?_)
    rw [List.length_cons, Nat.succ_mul, Nat.add_comm]

end State

end PointsTo
