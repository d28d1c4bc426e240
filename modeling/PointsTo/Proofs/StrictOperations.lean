import PointsTo.Proofs.Runs
import PointsTo.Proofs.StrictAnalysis
import PointsTo.Proofs.StrictValidation

/-!
# Strict operations

Each operation of strict analysis gives the state that the operation of the analysis gives. What an
operation needs for this is a matter of the program, which building guarantees, or of the heap, where the
objects that are there stay there. So the conditions hold on from one operation to the next.

- `Program.Complete`, `Program.Built.complete`: what the analysis relies on.
- `Strict.callee_eq`, `Strict.link_eq`: calls find their targets.
- `Strict.enterMethod_eq`, `Strict.receiveAll_eq`, `Strict.propagate_eq`: what the loops are made of.
-/

namespace PointsTo

/-! ## §1 Built programs -/

namespace Program

variable {p q : Program}

/-- References are in scope in a program if they are in one with the same outline. -/
theorem Scoped.of_outline (h : p.outline = q.outline) (hp : p.Scoped) : q.Scoped := by
  have hclasses : p.classes = q.classes := eq_of_outline (f := Program.classes) (fun _ => rfl) h
  have hfields : p.fields = q.fields := eq_of_outline (f := Program.fields) (fun _ => rfl) h
  have hmethods : p.methods.map Method.outline = q.methods.map Method.outline :=
    congrArg Program.methods h
  have hvars : p.vars.map Var.outline = q.vars.map Var.outline := congrArg Program.vars h
  refine ⟨hclasses ▸ hp.interfaces, hclasses ▸ hfields ▸ hp.fieldOwners, fun method hmethod => ?_,
    fun var hvar => ?_⟩
  · obtain ⟨method', hmethod', heq⟩ := Array.mem_map.1 (hmethods ▸ Array.mem_map_of_mem hmethod)
    have howner : method.owner = method'.owner := (congrArg Method.owner heq).symm
    rw [howner, ← hclasses]
    exact hp.methodOwners method' hmethod'
  · obtain ⟨var', hvar', heq⟩ := Array.mem_map.1 (hvars ▸ Array.mem_map_of_mem hvar)
    have howner : var.method = var'.method := (congrArg Var.method heq).symm
    rw [howner, ← size_methods_eq_of_outline h]
    exact hp.varMethods var' hvar'

theorem CallValid.indexed {call : Invoke} (h : p.CallValid call) : p.indexed.CallValid call := by
  refine ⟨h.start, h.receiver, fun m hm => ?_⟩
  rw [resolve_eq_of_outline (outline_indexed p)] at hm
  obtain ⟨method, hmethod, hfits⟩ := h.target m hm
  rw [method?_indexed, hmethod]
  exact ⟨_, rfl, hfits⟩

/-- Indexing keeps programs valid. -/
theorem Valid.indexed (h : p.Valid) : p.indexed.Valid where
  objectClass := h.objectClass
  superclasses := h.superclasses
  acyclic := h.acyclic
  main m hm := by
    obtain ⟨method, hmethod, hstatic⟩ := h.main m hm
    rw [method?_indexed, hmethod]
    exact ⟨_, rfl, hstatic⟩
  abstracts method hmethod := by
    obtain ⟨method', hmethod', rfl⟩ := Array.mem_map.1 hmethod
    exact h.abstracts method' hmethod'
  vars loc stmt hstmt v hv := owns_indexed (h.vars loc stmt (stmt?_indexed loc ▸ hstmt) v hv)
  forms loc stmt hstmt := by
    have hform := h.forms loc stmt (stmt?_indexed loc ▸ hstmt)
    cases stmt with
    | invoke call => exact CallValid.indexed hform
    | _ => exact hform

/-- What the analysis relies on: the program is valid, its references are in scope, and its indexes are
    exact. -/
structure Complete (p : Program) : Prop extends p.WellFormed where
  inScope : p.Scoped
  valid : p.Valid

theorem Built.complete (h : p.Built) : p.Complete := by
  have hwell := h.wellFormed
  obtain ⟨calls, hfault, rfl⟩ := h.exists_calls
  have hscoped := Builder.scoped_after calls
  have hvalid := (fault?_eq_none_iff (Builder.declared_after calls) hscoped).1 hfault
  exact { hwell with inScope := hscoped.of_outline (outline_indexed _).symm, valid := hvalid.indexed }

theorem Complete.soundHierarchy (h : p.Complete) : p.SoundHierarchy :=
  h.valid.soundHierarchy h.inScope

end Program

namespace Strict

open Program

variable {p : Program} {s : State} {o : ObjId} {m : MethodId}

/-! ## §2 Wordings -/

theorem typeName?_isSome {ty : Ty} (hty : ty.baseClass.index < p.classes.size) :
    ∃ name, p.typeName? ty = some name := by
  induction ty with
  | ofClass c =>
    obtain ⟨cls, hcls, _⟩ : ∃ cls, p.class? c = some cls ∧ _ := exists_class?_of_lt hty
    exact ⟨cls.name, by simp [typeName?, hcls]⟩
  | array elem ih =>
    obtain ⟨name, hname⟩ := ih hty
    exact ⟨name ++ "[]", by simp [typeName?, hname]⟩

/-- An object of the heap that a statement of the program allocates. -/
def Placed (p : Program) (heap : Heap) (o : ObjId) : Prop :=
  ∃ obj lhs, heap.obj? o = some obj ∧ p.stmt? obj.site = some (.new lhs obj.ty)

theorem method_lt_of_stmt? {loc : Location} {stmt : Stmt} (h : p.stmt? loc = some stmt) :
    loc.method.index < p.methods.size := by
  obtain ⟨method, hmethod, _⟩ := stmt?_eq_some_iff.1 h
  exact (Array.getElem?_eq_some_iff.1 hmethod).1

theorem discard_methodName? (hp : p.Complete) (hm : m.index < p.methods.size) :
    discard (p.methodName? m) = some () := by
  rw [methodName?_eq hp.inScope hm]
  rfl

theorem nameObj_eq (hp : p.Complete) {heap : Heap} (h : Placed p heap o) :
    nameObj p heap o = some () := by
  obtain ⟨obj, lhs, hobj, hstmt⟩ := h
  obtain ⟨name, hname⟩ := typeName?_isSome (hp.valid.forms obj.site _ hstmt)
  simp only [nameObj, hobj, discard_methodName? hp (method_lt_of_stmt? hstmt), hname,
    Option.bind_eq_bind, Option.bind_some]
  rfl

theorem discard_indexOf? {g : CallGraph} (h : m ∈ g.methods) : discard (g.indexOf? m) = some () := by
  obtain ⟨i, hi⟩ : ∃ i, g.indexOf? m = some i := by
    apply Option.ne_none_iff_exists'.1
    simpa [CallGraph.indexOf?, List.idxOf?_eq_none_iff] using h
  rw [hi]
  rfl

/-- The ends of every arc are nodes. -/
def Anchored (g : CallGraph) : Prop :=
  ∀ arc ∈ g.arcs, arc.caller ∈ g.methods ∧ arc.callee ∈ g.methods

theorem nameGraph_eq (hp : p.Complete) {g : CallGraph} (h : Anchored g)
    (hmethods : ∀ m ∈ g.methods, m.index < p.methods.size) : nameGraph p g = some () := by
  have hnodes : g.methods.forM (fun m => discard (p.methodName? m)) = some () :=
    forM_eq fun m hm => discard_methodName? hp (hmethods m hm)
  unfold nameGraph
  rw [hnodes]
  refine forM_eq fun arc harc => ?_
  rw [discard_indexOf? (h arc harc).1, discard_indexOf? (h arc harc).2]
  rfl

/-! ## §3 Flow and calls -/

theorem emit_eq {e : Event} (h : nameEvent p s.heap e = some ()) : emit p s e = some (s.emit e) := by
  simp [emit, h]

/-- The source of an edge has just been made a node. -/
theorem connect_eq (a b : Pointer) : connect s a b = some (s.connect a b) := by
  have hsource : (s.flow.intern a).2.index < ((s.flow.intern a).1.intern b).1.size := by
    refine Nat.lt_of_lt_of_le ?_ (FlowGraph.size_le_intern)
    exact FlowGraph.index_lt_of_pointer? (FlowGraph.pointer?_of_find? (FlowGraph.find?_intern _ a))
  have hobjects := FlowGraph.objects?_of_lt
    (g := (((s.flow.intern a).1.intern b).1.addEdge (s.flow.intern a).2
      ((s.flow.intern a).1.intern b).2).1) hsource
  unfold connect State.connect
  dsimp only
  rw [hobjects]
  split <;> rfl

theorem connectAll_eq (edges : List (Pointer × Pointer)) :
    connectAll s edges = some (s.connectAll edges) :=
  foldlM_eq (P := fun _ => True) (fun _ _ _ _ => ⟨connect_eq _ _, trivial⟩) trivial

theorem passValues_eq (call : Invoke) (method : Method) :
    passValues s call method = some (s.passValues call method) := by
  unfold passValues State.passValues
  rw [connectAll_eq, Option.bind_eq_bind, Option.bind_some]
  cases call.result with
  | none => rfl
  | some result => exact connectAll_eq _

theorem reach_eq (hp : p.Complete) (hm : m.index < p.methods.size) :
    reach p s m = some (s.reach m) := by
  unfold reach State.reach
  dsimp only
  split
  · exact emit_eq (discard_methodName? hp hm)
  · rfl

/-- Both ends of a call edge have just been made nodes, if they were none. -/
theorem addEdge_eq (g : CallGraph) (e : CallEdge) : addEdge g e = some (g.addEdge e) := by
  unfold addEdge CallGraph.addEdge
  split
  · rfl
  · have hcallee : e.callee ∈ ((g.addMethod e.caller).1.addMethod e.callee).1.methods :=
      CallGraph.mem_methods_addMethod.2 (Or.inl rfl)
    have hcaller : e.caller ∈ ((g.addMethod e.caller).1.addMethod e.callee).1.methods :=
      CallGraph.mem_methods_addMethod.2 (Or.inr (CallGraph.mem_methods_addMethod.2 (Or.inl rfl)))
    dsimp only
    rw [discard_indexOf? hcaller, discard_indexOf? hcallee]
    rfl

theorem link_eq (hp : p.Complete) {site : Location} {callee : MethodId} (call : Invoke)
    (hsite : site.method.index < p.methods.size) (hcallee : callee.index < p.methods.size) :
    link p s site call callee = some (s.link p site call callee) := by
  have hmethod : p.method? callee = some p.methods[callee.index] := Array.getElem?_eq_getElem hcallee
  unfold link State.link
  rw [reach_eq hp hcallee, Option.bind_eq_bind, Option.bind_some, addEdge_eq, Option.bind_eq_bind,
    Option.bind_some]
  dsimp only
  split
  · rw [emit_eq, Option.bind_eq_bind, Option.bind_some, hmethod]
    · exact passValues_eq call _
    · simp only [nameEvent, discard_methodName? hp hsite, discard_methodName? hp hcallee]
      rfl
  · rfl

theorem bindReceiver_eq {callee : MethodId} (hcallee : callee.index < p.methods.size) (o : ObjId) :
    bindReceiver p s callee o = some (s.bindReceiver p callee o) := by
  have hmethod : p.method? callee = some p.methods[callee.index] := Array.getElem?_eq_getElem hcallee
  unfold bindReceiver State.bindReceiver
  rw [hmethod, Option.bind_eq_bind, Option.bind_some, Option.bind_some]
  cases p.methods[callee.index].self <;> rfl

theorem dispatchOn_eq (hp : p.Complete) {heap : Heap} (h : Placed p heap o) (s : Subsignature) :
    dispatchOn p heap o s = some (((heap.obj? o).map Obj.ty).bind fun ty => p.dispatchOnType ty s) := by
  obtain ⟨obj, lhs, hobj, hstmt⟩ := h
  have hty : obj.ty.baseClass.index < p.classes.size := hp.valid.forms obj.site _ hstmt
  unfold dispatchOn
  rw [hobj, Option.bind_eq_bind, Option.bind_some]
  exact dispatchOnType_eq hp.declaredExists hp.soundHierarchy hty hp.valid.objectClass s

/-- The method that a call runs can be found if its class is there and its receiver has a place. -/
theorem callee_eq (hp : p.Complete) {heap : Heap} {call : Invoke} {receiver : Option ObjId}
    (hstart : call.target.start.index < p.classes.size)
    (hreceiver : ∀ o, receiver = some o → Placed p heap o) :
    callee p heap call receiver = some (p.callee? call ((receiver.bind heap.obj?).map Obj.ty)) := by
  unfold callee callee?
  cases call.kind with
  | static => exact resolve_eq hp.declaredExists hp.soundHierarchy hstart
  | special => exact dispatch_eq hp.declaredExists hp.soundHierarchy hstart _
  | virtual =>
    cases receiver with
    | none => rfl
    | some o => exact dispatchOn_eq hp (hreceiver o rfl) _
  | interface =>
    cases receiver with
    | none => rfl
    | some o => exact dispatchOn_eq hp (hreceiver o rfl) _

theorem callStatic_eq (hp : p.Complete) {site : Location} {call : Invoke}
    (hstmt : p.stmt? site = some (.invoke call)) :
    callStatic p s site call = some (s.callStatic p site call) := by
  have hvalid : p.CallValid call := hp.valid.forms site _ hstmt
  unfold callStatic State.callStatic
  rw [callee_eq hp hvalid.start (fun o ho => absurd ho.symm (Option.some_ne_none o)),
    Option.bind_eq_bind, Option.bind_some]
  cases hcallee : p.callee? call none with
  | none =>
    simp only [Option.bind_none, Option.map_none, hcallee]
    exact emit_eq rfl
  | some callee =>
    simp only [Option.bind_none, Option.map_none, hcallee]
    exact link_eq hp call (method_lt_of_stmt? hstmt) (hp.callee_exists hcallee)

theorem callInstance_eq (hp : p.Complete) {site : Location} {stmt : Stmt}
    (hstmt : p.stmt? site = some stmt) (ho : Placed p s.heap o) :
    callInstance p o s site = some (s.callInstance p o site) := by
  unfold callInstance State.callInstance
  rw [hstmt, Option.bind_eq_bind, Option.bind_some]
  cases stmt with
  | invoke call =>
    have hvalid : p.CallValid call := hp.valid.forms site _ hstmt
    have hplaced : ∀ o', some o = some o' → Placed p s.heap o' := by
      rintro o' ⟨⟩
      exact ho
    dsimp only
    rw [callee_eq hp hvalid.start hplaced, Option.bind_eq_bind, Option.bind_some, Option.bind_some]
    cases hcallee : p.callee? call ((s.heap.obj? o).map Obj.ty) with
    | none => exact emit_eq (nameObj_eq hp ho)
    | some callee =>
      have hlt := hp.callee_exists hcallee
      dsimp only
      rw [bindReceiver_eq hlt, Option.bind_eq_bind, Option.bind_some]
      exact link_eq hp call (method_lt_of_stmt? hstmt) hlt
  | _ => rfl

/-! ## §4 Statements and received objects -/

theorem enterStmt_eq (hp : p.Complete) {loc : Location} {stmt : Stmt} (hstmt : p.stmt? loc = some stmt) :
    enterStmt p s loc stmt = some (s.enterStmt p loc stmt) := by
  cases stmt with
  | copy lhs rhs => exact connect_eq _ _
  | cast lhs rhs ty => exact connect_eq _ _
  | loadField lhs base f =>
    cases base with
    | none => exact connect_eq _ _
    | some base => rfl
  | storeField base f rhs =>
    cases base with
    | none => exact connect_eq _ _
    | some base => rfl
  | invoke call =>
    unfold enterStmt State.enterStmt
    dsimp only
    split
    · exact callStatic_eq hp hstmt
    · rfl
  | _ => rfl

theorem enterMethod_eq (hp : p.Complete) (hm : m.index < p.methods.size) :
    enterMethod p s m = some (s.enterMethod p m) := by
  have hmethod : p.method? m = some p.methods[m.index] := Array.getElem?_eq_getElem hm
  unfold enterMethod State.enterMethod
  rw [hmethod, Option.bind_eq_bind, Option.bind_some]
  refine foldlM_eq (P := fun _ => True) (fun s _ entry hentry => ⟨?_, trivial⟩) trivial
  exact enterStmt_eq hp
    (stmt?_eq_some_iff.2 ⟨_, hmethod, List.mk_mem_zipIdx_iff_getElem?.1 hentry⟩)

/-- The index of a variable leads to statements. -/
theorem exists_stmt_of_mem_accesses (hp : p.Complete) {v : VarId} {var : Var}
    (hvar : p.var? v = some var) {kind : AccessKind} {loc : Location}
    (h : loc ∈ var.accesses.of kind) : ∃ stmt, p.stmt? loc = some stmt := by
  rw [hp.accesses hvar, mem_accessSites] at h
  obtain ⟨stmt, hstmt, _⟩ := h
  exact ⟨stmt, hstmt⟩

theorem access_eq {loc : Location} {stmt : Stmt} (hstmt : p.stmt? loc = some stmt) :
    access p o s loc = some (s.connectAll (stmt.heapFlow? o).toList) := by
  unfold access
  rw [hstmt, Option.bind_eq_bind, Option.bind_some]
  cases stmt.heapFlow? o with
  | none => rfl
  | some edge => exact connect_eq _ _

/-- Following the index access by access has the effect of connecting all flows at once. -/
theorem foldlM_access {locs : List Location} (h : ∀ loc ∈ locs, ∃ stmt, p.stmt? loc = some stmt) :
    locs.foldlM (access p o) s =
      some (s.connectAll (locs.filterMap fun loc => (p.stmt? loc).bind (Stmt.heapFlow? o))) := by
  induction locs generalizing s with
  | nil => rfl
  | cons loc rest ih =>
    obtain ⟨stmt, hstmt⟩ := h loc List.mem_cons_self
    rw [List.foldlM_cons, access_eq hstmt, Option.bind_eq_bind, Option.bind_some,
      ih fun loc' hloc => h loc' (List.mem_cons_of_mem loc hloc), List.filterMap_cons, hstmt,
      Option.bind_some]
    cases stmt.heapFlow? o <;> rfl

theorem Placed.extends {t : State} (h : s.Extends t) (ho : Placed p s.heap o) : Placed p t.heap o := by
  obtain ⟨obj, lhs, hobj, hstmt⟩ := ho
  exact ⟨obj, lhs, Heap.obj?_of_isPrefix h.heap hobj, hstmt⟩

theorem receive_eq (hp : p.Complete) {v : VarId} {var : Var} (hvar : p.var? v = some var)
    (ho : Placed p s.heap o) : receive p v s o = some (State.receive p v s o) := by
  have hindexed : ∀ kind, ∀ loc ∈ var.accesses.of kind, ∃ stmt, p.stmt? loc = some stmt :=
    fun _ _ hloc => exists_stmt_of_mem_accesses hp hvar hloc
  have hflows : ∀ loc ∈ var.accesses.storeFields ++ var.accesses.loadFields ++
      var.accesses.storeArrays ++ var.accesses.loadArrays, ∃ stmt, p.stmt? loc = some stmt := by
    intro loc hloc
    simp only [List.mem_append] at hloc
    rcases hloc with ((h | h) | h) | h
    · exact hindexed .storeField loc h
    · exact hindexed .loadField loc h
    · exact hindexed .storeArray loc h
    · exact hindexed .loadArray loc h
  unfold receive State.receive
  rw [hvar, Option.bind_eq_bind, Option.bind_some]
  dsimp only
  rw [foldlM_access hflows, Option.bind_eq_bind, Option.bind_some]
  -- calls leave the object where it is
  refine foldlM_eq (P := fun t => Placed p t.heap o) (fun t ht site hsite => ?_)
    (ho.extends (State.connectAll_extends _))
  obtain ⟨stmt, hstmt⟩ := hindexed .invoke site hsite
  exact ⟨callInstance_eq hp hstmt ht, ht.extends (State.callInstance_extends o site)⟩

theorem receiveAll_eq (hp : p.Complete) {pointer : Pointer} {delta : ObjSet}
    (hpointer : ∀ v, pointer = .var v → ∃ var, p.var? v = some var)
    (hdelta : ∀ o ∈ delta, Placed p s.heap o) :
    receiveAll p s pointer delta = some (s.receiveAll p pointer delta) := by
  cases pointer with
  | var v =>
    obtain ⟨var, hvar⟩ := hpointer v rfl
    refine foldlM_eq (P := fun t => ∀ o ∈ delta, Placed p t.heap o) (fun t ht o ho => ?_) hdelta
    exact ⟨receive_eq hp hvar (ht o ho), fun o' ho' => (ht o' ho').extends (State.receive_extends v o)⟩
  | field obj f => rfl
  | element obj => rfl
  | staticField f => rfl

/-- New objects do not overlap the set that they are added to. -/
theorem propagate_eq {id : PointerId} {delta : ObjSet} (hid : id.index < s.flow.size)
    (hnew : ∀ o ∈ delta, o ∉ s.flow.objects id) (pointer : Pointer) :
    propagate p s id pointer delta = some (s.propagate id pointer delta) := by
  have hid' : id.index < (s.flow.grow id delta).size := by
    rwa [← FlowGraph.length_pointerList, FlowGraph.pointerList_grow, FlowGraph.length_pointerList]
  have hsize := State.size_objects_grow hid hnew
  unfold propagate
  rw [FlowGraph.objects?_of_lt hid, Option.bind_eq_bind, Option.bind_some]
  dsimp only
  rw [FlowGraph.objects?_of_lt hid', Option.bind_eq_bind, Option.bind_some, guard, if_pos hsize]
  rfl

end Strict

end PointsTo
