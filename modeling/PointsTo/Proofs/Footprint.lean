import PointsTo.Proofs.Callees
import PointsTo.Proofs.OrderIndependence

/-!
# Footprints of statements

Objects and pointers enter the tables of the analysis as a side effect of many operations, some of which have
nothing else to do. In the end the tables hold what the final facts call for and no more: every object comes
from an allocation in a reachable method, and every pointer is in the footprint of a statement of a reachable
method.

The footprint of a statement depends on the result, since heap accesses and instance calls take effect for
each object of a variable. A statement that cannot take effect leaves nothing behind.

- `Result.CallsFor`: the pointers that a statement calls for.
- `Result.Inert`: a statement that cannot take effect.
- `Result.Footprint`: the tables of a result hold what its statements call for.
- `Result.Exact.callsFor_of_flows`: the ends of a flow are called for.
- `Program.analyze_footprint`: the tables that the analysis leaves.
-/

namespace PointsTo

theorem Program.exists_new_of_allocated? {p : Program} {site : Location} {ty : Ty}
    (h : p.allocated? site = some ty) : ∃ lhs, p.stmt? site = some (.new lhs ty) := by
  unfold allocated? at h
  split at h
  · rename_i lhs ty' hstmt
    cases h
    exact ⟨lhs, hstmt⟩
  · contradiction

/-- The site of a derivable call is in a reachable method. -/
theorem Derivable.caller {p : Program} {entry : MethodId} {e : CallEdge}
    (h : Derivable p entry (.calls e)) : Derivable p entry (.reachable e.site.method) := by
  obtain ⟨himmediate⟩ := h
  cases himmediate with
  | callStatic hm => exact hm
  | callInstance hm => exact hm

namespace Result

/-! ## §1 What a statement calls for -/

section

variable (r : Result) (p : Program) (loc : Location)

/-- The pointers that the statement at a location calls for, given the points-to sets and the calls of a
    result. -/
inductive CallsFor (pointer : Pointer) : Prop
  | new {lhs ty} : p.stmt? loc = some (.new lhs ty) → pointer = .var lhs → CallsFor pointer
  | copy {lhs rhs} : p.stmt? loc = some (.copy lhs rhs) →
      pointer = .var rhs ∨ pointer = .var lhs → CallsFor pointer
  | cast {lhs rhs ty} : p.stmt? loc = some (.cast lhs rhs ty) →
      pointer = .var rhs ∨ pointer = .var lhs → CallsFor pointer
  | loadStatic {lhs f} : p.stmt? loc = some (.loadField lhs none f) →
      pointer = .staticField f ∨ pointer = .var lhs → CallsFor pointer
  | storeStatic {f rhs} : p.stmt? loc = some (.storeField none f rhs) →
      pointer = .var rhs ∨ pointer = .staticField f → CallsFor pointer
  /-- A heap access calls for a pointer of each object that its base points to. -/
  | loadField {lhs base f o} : p.stmt? loc = some (.loadField lhs (some base) f) →
      o ∈ r.pointsTo (.var base) → pointer = .field o f ∨ pointer = .var lhs → CallsFor pointer
  | storeField {base f rhs o} : p.stmt? loc = some (.storeField (some base) f rhs) →
      o ∈ r.pointsTo (.var base) → pointer = .var rhs ∨ pointer = .field o f → CallsFor pointer
  | loadArray {lhs base index o} : p.stmt? loc = some (.loadArray lhs base index) →
      o ∈ r.pointsTo (.var base) → pointer = .element o ∨ pointer = .var lhs → CallsFor pointer
  | storeArray {base index rhs o} : p.stmt? loc = some (.storeArray base index rhs) →
      o ∈ r.pointsTo (.var base) → pointer = .var rhs ∨ pointer = .element o → CallsFor pointer
  /-- A call that is linked passes its arguments. -/
  | argument {call kind callee method arg param} : p.stmt? loc = some (.invoke call) →
      ⟨kind, loc, callee⟩ ∈ r.calls.edges → p.method? callee = some method →
      (arg, param) ∈ call.args.zip method.params →
      pointer = .var arg ∨ pointer = .var param → CallsFor pointer
  /-- A call that is linked calls for its result, whether or not something is returned. -/
  | result {call kind callee result} : p.stmt? loc = some (.invoke call) →
      ⟨kind, loc, callee⟩ ∈ r.calls.edges → call.result = some result → pointer = .var result →
      CallsFor pointer
  | returned {call kind callee method result returned} : p.stmt? loc = some (.invoke call) →
      ⟨kind, loc, callee⟩ ∈ r.calls.edges → p.method? callee = some method →
      call.result = some result → Stmt.ret (some returned) ∈ method.body →
      pointer = .var returned → CallsFor pointer
  /-- An instance call binds the receiver of the method that it runs for an object. -/
  | self {call receiver o obj callee method self} : p.stmt? loc = some (.invoke call) →
      call.kind ≠ .static → call.receiver = some receiver → o ∈ r.pointsTo (.var receiver) →
      r.heap.obj? o = some obj → p.callee? call (some obj.ty) = some callee →
      p.method? callee = some method → method.self = some self → pointer = .var self →
      CallsFor pointer

/-- A statement cannot take effect: its method is not reachable, or it accesses the heap through a variable
    that points nowhere, or it is a call without a target. -/
inductive Inert : Prop
  | unreachable : loc.method ∉ r.calls.methods → Inert
  | access {stmt base kind} : p.stmt? loc = some stmt → stmt.access? = some (base, kind) →
      kind ≠ .invoke → r.pointsTo (.var base) = ∅ → Inert
  | callStatic {call} : p.stmt? loc = some (.invoke call) → call.kind = .static →
      p.resolve call.target = none → Inert
  | callInstance {call receiver} : p.stmt? loc = some (.invoke call) → call.kind ≠ .static →
      call.receiver = some receiver →
      (∀ o ∈ r.pointsTo (.var receiver), ∀ obj, r.heap.obj? o = some obj →
        p.callee? call (some obj.ty) = none) → Inert

end

/-- The tables of a result hold what the statements of its reachable methods call for, and nothing else. -/
structure Footprint (r : Result) (p : Program) : Prop where
  /-- The object of a site is the one of its allocation. -/
  objects : ∀ site o, r.heap.at? site = some o ↔ site.method ∈ r.calls.methods ∧
    ∃ lhs ty, p.stmt? site = some (.new lhs ty) ∧ r.heap.obj? o = some ⟨site, ty⟩
  /-- An allocation has one object. -/
  allocated : ∀ {site lhs ty}, site.method ∈ r.calls.methods → p.stmt? site = some (.new lhs ty) →
    ∃! o, ∃ obj, r.heap.obj? o = some obj ∧ obj.site = site
  /-- Every object is the one of its site. -/
  sited : ∀ {o obj}, r.heap.obj? o = some obj → r.heap.at? obj.site = some o
  pointersNodup : r.flow.pointerList.Nodup
  pointers : ∀ pointer, pointer ∈ r.flow.pointerList ↔
    ∃ loc, loc.method ∈ r.calls.methods ∧ r.CallsFor p loc pointer
  inert : ∀ {loc}, r.Inert p loc →
    ¬ ∃ pointer, loc.method ∈ r.calls.methods ∧ r.CallsFor p loc pointer

variable {p : Program} {entry : MethodId} {r : Result} {loc : Location} {pointer : Pointer}

/-! ## §2 Objects -/

theorem Exact.at?_eq_some_iff (h : r.Exact p entry) (site : Location) (o : ObjId) :
    r.heap.at? site = some o ↔ site.method ∈ r.calls.methods ∧
      ∃ lhs ty, p.stmt? site = some (.new lhs ty) ∧ r.heap.obj? o = some ⟨site, ty⟩ := by
  constructor
  · intro hat
    obtain ⟨⟨_, ty⟩, hobj, rfl⟩ := Heap.exists_obj?_of_at? hat
    obtain ⟨lhs, hstmt⟩ := Program.exists_new_of_allocated? (h.typed hobj)
    have hreachable := ((h.sites _).1 (mem_siteList_of_obj? hobj)).1
    exact ⟨(h.facts (.reachable _)).2 hreachable, lhs, ty, hstmt, hobj⟩
  · intro ⟨_, lhs, ty, _, hobj⟩
    exact Heap.at?_of_obj? h.nodup hobj

/-- The object of an allocation is the only one with its site. -/
theorem Exact.existsUnique_object (h : r.Exact p entry) (hfix : r.Fixpoint p entry) {site : Location}
    {lhs : VarId} {ty : Ty} (hm : site.method ∈ r.calls.methods)
    (hstmt : p.stmt? site = some (.new lhs ty)) :
    ∃! o, ∃ obj, r.heap.obj? o = some obj ∧ obj.site = site := by
  obtain ⟨o, hat, hobj, _⟩ := hfix.new hm hstmt
  refine ⟨o, ⟨_, hobj, rfl⟩, ?_⟩
  -- sites tell objects apart
  intro o' ⟨obj', hobj', hsite⟩
  have hat' := Heap.at?_of_obj? h.nodup hobj'
  rw [hsite, hat, Option.some.injEq] at hat'
  exact hat'.symm

/-! ## §3 Pointers that are listed are called for -/

/-- The object that a base points to and that a site names. -/
theorem Exact.exists_based (h : r.Exact p entry) {base : VarId} {site : Location}
    (hfact : Derivable p entry (.pointsTo (.var base) site)) :
    ∃ o ∈ r.pointsTo (.var base), ∀ o', r.heap.site? o' = some site → o' = o := by
  obtain ⟨o, hsite, ho⟩ := ((h.facts _).2 hfact).of_pointsTo_var
  exact ⟨o, ho, fun o' hsite' => Heap.site?_injective h.nodup hsite' hsite⟩

/-- **The ends of a flow are called for**: each rule about flows is about a statement, and the ends of the
    flow are in the footprint of the statement. -/
theorem Exact.callsFor_of_flows (h : r.Exact p entry) {x y : Place}
    (hflow : Derivable p entry (.flows x y))
    (hend : r.heap.place? pointer = some x ∨ r.heap.place? pointer = some y) :
    ∃ loc, loc.method ∈ r.calls.methods ∧ r.CallsFor p loc pointer := by
  have hreached : ∀ {m}, Derivable p entry (.reachable m) → m ∈ r.calls.methods :=
    fun hm => (h.facts (.reachable _)).2 hm
  have hlinked : ∀ {e}, Derivable p entry (.calls e) → e ∈ r.calls.edges :=
    fun he => (h.facts (.calls _)).2 he
  obtain ⟨himmediate⟩ := hflow
  cases himmediate with
  | copy hm hs =>
    exact ⟨_, hreached hm, .copy hs (hend.imp Heap.eq_var_of_place? Heap.eq_var_of_place?)⟩
  | cast hm hs =>
    exact ⟨_, hreached hm, .cast hs (hend.imp Heap.eq_var_of_place? Heap.eq_var_of_place?)⟩
  | loadStatic hm hs =>
    exact ⟨_, hreached hm,
      .loadStatic hs (hend.imp Heap.eq_staticField_of_place? Heap.eq_var_of_place?)⟩
  | storeStatic hm hs =>
    exact ⟨_, hreached hm,
      .storeStatic hs (hend.imp Heap.eq_var_of_place? Heap.eq_staticField_of_place?)⟩
  -- a place on the heap is named by a site, and its pointer by the object of the site
  | loadField hm hs ho =>
    obtain ⟨o, ho, hunique⟩ := h.exists_based ho
    refine ⟨_, hreached hm, .loadField hs ho (hend.imp ?_ Heap.eq_var_of_place?)⟩
    intro hplace
    obtain ⟨o', rfl, hsite⟩ := Heap.exists_field_of_place? hplace
    rw [hunique o' hsite]
  | storeField hm hs ho =>
    obtain ⟨o, ho, hunique⟩ := h.exists_based ho
    refine ⟨_, hreached hm, .storeField hs ho (hend.imp Heap.eq_var_of_place? ?_)⟩
    intro hplace
    obtain ⟨o', rfl, hsite⟩ := Heap.exists_field_of_place? hplace
    rw [hunique o' hsite]
  | loadArray hm hs ho =>
    obtain ⟨o, ho, hunique⟩ := h.exists_based ho
    refine ⟨_, hreached hm, .loadArray hs ho (hend.imp ?_ Heap.eq_var_of_place?)⟩
    intro hplace
    obtain ⟨o', rfl, hsite⟩ := Heap.exists_element_of_place? hplace
    rw [hunique o' hsite]
  | storeArray hm hs ho =>
    obtain ⟨o, ho, hunique⟩ := h.exists_based ho
    refine ⟨_, hreached hm, .storeArray hs ho (hend.imp Heap.eq_var_of_place? ?_)⟩
    intro hplace
    obtain ⟨o', rfl, hsite⟩ := Heap.exists_element_of_place? hplace
    rw [hunique o' hsite]
  | argument he hs hd hz =>
    exact ⟨_, hreached he.caller, .argument hs (hlinked he) hd hz
      (hend.imp Heap.eq_var_of_place? Heap.eq_var_of_place?)⟩
  | result he hs hd hr hres =>
    refine ⟨_, hreached he.caller, ?_⟩
    rcases hend with hsource | htarget
    · exact .returned hs (hlinked he) hd hres hr (Heap.eq_var_of_place? hsource)
    · exact .result hs (hlinked he) hres (Heap.eq_var_of_place? htarget)

/-- A pointer that points somewhere is called for by an allocation, by a call that binds it, or by the flow
    that brings the object. -/
theorem Exact.callsFor_of_pointsTo (h : r.Exact p entry) {place : Place} {site : Location}
    (hfact : Derivable p entry (.pointsTo place site)) (hplace : r.heap.place? pointer = some place) :
    ∃ loc, loc.method ∈ r.calls.methods ∧ r.CallsFor p loc pointer := by
  obtain ⟨himmediate⟩ := hfact
  cases himmediate with
  | new hm hs => exact ⟨_, (h.facts (.reachable _)).2 hm, .new hs (Heap.eq_var_of_place? hplace)⟩
  | bind hm hs hr ho hty htarget hd hself =>
    obtain ⟨o, obj, ho, hobj, rfl⟩ := h.exists_object ho hty
    obtain ⟨hkind, hcallee⟩ := Program.target_iff.1 htarget
    exact ⟨_, (h.facts (.reachable _)).2 hm,
      .self hs hkind hr ho hobj hcallee hd hself (Heap.eq_var_of_place? hplace)⟩
  | flow hflow => exact h.callsFor_of_flows hflow (Or.inr hplace)

theorem Exact.callsFor_of_mem (h : r.Exact p entry) (hpointer : pointer ∈ r.flow.pointerList) :
    ∃ loc, loc.method ∈ r.calls.methods ∧ r.CallsFor p loc pointer := by
  obtain ⟨place, hplace, hlisted⟩ := h.nodes pointer hpointer
  cases hlisted with
  | pointing hfact => exact h.callsFor_of_pointsTo hfact hplace
  | source hflow => exact h.callsFor_of_flows hflow (Or.inl hplace)
  | target hflow => exact h.callsFor_of_flows hflow (Or.inr hplace)
  | result he hs hres =>
    exact ⟨_, (h.facts (.reachable _)).2 he.caller,
      .result hs ((h.facts (.calls _)).2 he) hres (Heap.eq_var_of_place? hplace)⟩

/-! ## §4 Pointers that are called for are listed -/

theorem mem_pointerList_of_mem_pointsTo {o : ObjId} (h : o ∈ r.pointsTo pointer) :
    pointer ∈ r.flow.pointerList := by
  obtain ⟨id, hfind, _⟩ := FlowGraph.mem_pointsTo.1 h
  exact FlowGraph.mem_pointerList_of_pointer? (FlowGraph.pointer?_of_find? hfind)

theorem mem_pointerList_of_hasFlow {a b : Pointer} (h : r.flow.hasFlow a b = true)
    (hend : pointer = a ∨ pointer = b) : pointer ∈ r.flow.pointerList := by
  obtain ⟨i, j, hi, hj, _⟩ := FlowGraph.hasFlow_iff.1 h
  rcases hend with rfl | rfl
  · exact FlowGraph.mem_pointerList_of_pointer? (FlowGraph.pointer?_of_find? hi)
  · exact FlowGraph.mem_pointerList_of_pointer? (FlowGraph.pointer?_of_find? hj)

/-- A linked call passes its values. -/
theorem Fixpoint.passes (h : r.Fixpoint p entry) {call : Invoke} {kind : CallKind} {callee : MethodId}
    (hs : p.stmt? loc = some (.invoke call)) (he : ⟨kind, loc, callee⟩ ∈ r.calls.edges) :
    call.kind = kind ∧ ∀ {method}, p.method? callee = some method → r.Passes call method := by
  obtain ⟨_, call', method', hs', hkind, hd', hpasses⟩ := h.callee he
  -- a location has one statement, and an id has one method
  cases hs.symm.trans hs'
  refine ⟨hkind, fun hd => ?_⟩
  cases hd.symm.trans hd'
  exact hpasses

theorem Exact.mem_of_callsFor (h : r.Exact p entry) (hfix : r.Fixpoint p entry)
    (hm : loc.method ∈ r.calls.methods) (hcalls : r.CallsFor p loc pointer) :
    pointer ∈ r.flow.pointerList := by
  -- the rules hold of the result, so what each statement calls for is there
  cases hcalls with
  | new hs heq =>
    obtain ⟨o, _, _, ho⟩ := hfix.new hm hs
    rw [heq]
    exact mem_pointerList_of_mem_pointsTo ho
  | copy hs hend => exact mem_pointerList_of_hasFlow (hfix.copy hm hs) hend
  | cast hs hend => exact mem_pointerList_of_hasFlow (hfix.cast hm hs) hend
  | loadStatic hs hend => exact mem_pointerList_of_hasFlow (hfix.loadStatic hm hs) hend
  | storeStatic hs hend => exact mem_pointerList_of_hasFlow (hfix.storeStatic hm hs) hend
  | loadField hs ho hend => exact mem_pointerList_of_hasFlow (hfix.loadField hm hs ho) hend
  | storeField hs ho hend => exact mem_pointerList_of_hasFlow (hfix.storeField hm hs ho) hend
  | loadArray hs ho hend => exact mem_pointerList_of_hasFlow (hfix.loadArray hm hs ho) hend
  | storeArray hs ho hend => exact mem_pointerList_of_hasFlow (hfix.storeArray hm hs ho) hend
  | argument hs he hd hz hend =>
    exact mem_pointerList_of_hasFlow (((hfix.passes hs he).2 hd).argument hz) hend
  | result hs he hres heq =>
    -- no flow need lead into the result
    obtain ⟨rfl, _⟩ := hfix.passes hs he
    obtain ⟨pointer', hmem, hplace⟩ := h.listed _ (.result ((h.facts (.calls _)).1 he) hs hres)
    rw [heq, ← Heap.eq_var_of_place? hplace]
    exact hmem
  | returned hs he hd hres hr heq =>
    exact mem_pointerList_of_hasFlow (((hfix.passes hs he).2 hd).result hr hres) (Or.inl heq)
  | self hs hkind hr ho hobj hcallee hd hself heq =>
    obtain ⟨obj', hobj', hcalls⟩ := hfix.callInstance hm hs hr ho
    cases hobj.symm.trans hobj'
    rw [heq]
    exact mem_pointerList_of_mem_pointsTo
      ((hcalls (Program.target_iff.2 ⟨hkind, hcallee⟩)).2 hd hself)

/-! ## §5 Statements that cannot take effect -/

/-- A linked call has a target: the declaration that it refers to, or a method that it runs for an object of
    its receiver. -/
theorem Exact.exists_target (h : r.Exact p entry) {call : Invoke} {kind : CallKind} {callee : MethodId}
    (hs : p.stmt? loc = some (.invoke call)) (he : ⟨kind, loc, callee⟩ ∈ r.calls.edges) :
    (call.kind = .static ∧ p.resolve call.target = some callee) ∨
      ∃ receiver o obj, call.kind ≠ .static ∧ call.receiver = some receiver ∧
        o ∈ r.pointsTo (.var receiver) ∧ r.heap.obj? o = some obj ∧
        p.callee? call (some obj.ty) = some callee := by
  obtain ⟨himmediate⟩ := (h.facts (.calls _)).1 he
  cases himmediate with
  | callStatic _ hs' hkind hresolve =>
    cases hs.symm.trans hs'
    exact Or.inl ⟨hkind, hresolve⟩
  | callInstance _ hs' hr ho hty htarget =>
    cases hs.symm.trans hs'
    obtain ⟨o, obj, ho, hobj, rfl⟩ := h.exists_object ho hty
    obtain ⟨hkind, hcallee⟩ := Program.target_iff.1 htarget
    exact Or.inr ⟨_, o, obj, hkind, hr, ho, hobj, hcallee⟩

/-- A call that calls for a pointer has a target. -/
theorem Exact.exists_target_of_callsFor (h : r.Exact p entry) {call : Invoke}
    (hs : p.stmt? loc = some (.invoke call)) (hcalls : r.CallsFor p loc pointer) :
    ∃ callee, (call.kind = .static ∧ p.resolve call.target = some callee) ∨
      ∃ receiver o obj, call.kind ≠ .static ∧ call.receiver = some receiver ∧
        o ∈ r.pointsTo (.var receiver) ∧ r.heap.obj? o = some obj ∧
        p.callee? call (some obj.ty) = some callee := by
  cases hcalls with
  | argument _ he => exact ⟨_, h.exists_target hs he⟩
  | result _ he => exact ⟨_, h.exists_target hs he⟩
  | returned _ he => exact ⟨_, h.exists_target hs he⟩
  | self hs' hkind hr ho hobj hcallee =>
    cases hs.symm.trans hs'
    exact ⟨_, Or.inr ⟨_, _, _, hkind, hr, ho, hobj, hcallee⟩⟩
  -- the other statements are not calls
  | new hs' | copy hs' | cast hs' | loadStatic hs' | storeStatic hs' | loadField hs' | storeField hs'
  | loadArray hs' | storeArray hs' => cases hs.symm.trans hs'

/-- A heap access that calls for a pointer has a base that points somewhere. -/
theorem CallsFor.exists_based {stmt : Stmt} {base : VarId} {kind : AccessKind}
    (h : r.CallsFor p loc pointer) (hs : p.stmt? loc = some stmt)
    (haccess : stmt.access? = some (base, kind)) (hkind : kind ≠ .invoke) :
    ∃ o, o ∈ r.pointsTo (.var base) := by
  cases h with
  | loadField hs' ho | storeField hs' ho | loadArray hs' ho | storeArray hs' ho =>
    cases hs.symm.trans hs'
    cases haccess
    exact ⟨_, ho⟩
  | argument hs' | result hs' | returned hs' | self hs' =>
    cases hs.symm.trans hs'
    obtain ⟨_, _, hpair⟩ := Option.map_eq_some_iff.1 haccess
    cases hpair
    contradiction
  -- the other statements do not go through a variable to the heap
  | new hs' | copy hs' | cast hs' | loadStatic hs' | storeStatic hs' =>
    cases hs.symm.trans hs'
    cases haccess

/-- **A statement that cannot take effect leaves nothing behind.** -/
theorem Exact.not_callsFor (h : r.Exact p entry) (hinert : r.Inert p loc) :
    ¬ ∃ pointer, loc.method ∈ r.calls.methods ∧ r.CallsFor p loc pointer := by
  intro ⟨pointer, hm, hcalls⟩
  cases hinert with
  | unreachable hnot => exact hnot hm
  | access hs haccess hkind hempty =>
    obtain ⟨o, ho⟩ := hcalls.exists_based hs haccess hkind
    rw [hempty] at ho
    exact Ascending.not_mem_empty o ho
  | callStatic hs hkind hnone =>
    obtain ⟨callee, ⟨_, hresolve⟩ | ⟨_, _, _, hnot, _⟩⟩ := h.exists_target_of_callsFor hs hcalls
    · rw [hnone] at hresolve
      contradiction
    · exact hnot hkind
  | callInstance hs hkind hr hnone =>
    obtain ⟨callee, ⟨hstatic, _⟩ | ⟨_, o, obj, _, hr', ho, hobj, hcallee⟩⟩ :=
      h.exists_target_of_callsFor hs hcalls
    · exact hkind hstatic
    · cases hr.symm.trans hr'
      rw [hnone o ho obj hobj] at hcallee
      contradiction

/-! ## §6 The analysis -/

theorem Exact.footprint (h : r.Exact p entry) (hfix : r.Fixpoint p entry) : r.Footprint p where
  objects := h.at?_eq_some_iff
  allocated hm hs := h.existsUnique_object hfix hm hs
  sited hobj := Heap.at?_of_obj? h.nodup hobj
  pointersNodup := h.pointersNodup
  pointers _ := ⟨h.callsFor_of_mem, fun ⟨_, hm, hcalls⟩ => h.mem_of_callsFor hfix hm hcalls⟩
  inert := h.not_callsFor

end Result

namespace Program

variable {p : Program} {entry : MethodId}

/-- **Footprints**: the tables that the analysis of a built program leaves hold the objects and the pointers
    that the statements of its reachable methods call for, each once, and nothing else. -/
theorem analyze_footprint (hp : p.Built) (hmain : p.main = some entry) (options : Options) :
    ∃ run, p.analyze options = .ok run ∧ run.result.Footprint p := by
  have hwell := hp.wellFormed
  have hlt := hwell.mainExists hmain
  obtain ⟨run, hrun, hresult⟩ := analyze_eq hmain options
  refine ⟨run, hrun, ?_⟩
  rw [hresult]
  exact (solve_exact hwell hlt options.order).footprint (solve_fixpoint hwell hlt options.order)

/-- The pointers of a program in the order in which its statements call for them. -/
theorem pointers_getter {order : WorkOrder} (horder : order = .lifo) :
    (getter.solve order ⟨1⟩).result.flow.pointerList =
      [.var ⟨2⟩, .field ⟨0⟩ ⟨0⟩, .var ⟨0⟩, .var ⟨3⟩, .var ⟨1⟩] := by
  subst horder
  decide +kernel

theorem analyze_footprint_getter :
    ∃ run, getter.analyze { order := .lifo } = .ok run ∧
      run.result.flow.pointerList =
        [.var ⟨2⟩, .field ⟨0⟩ ⟨0⟩, .var ⟨0⟩, .var ⟨3⟩, .var ⟨1⟩] ∧
      run.result.Footprint getter := by
  obtain ⟨run, hrun, hfootprint⟩ := analyze_footprint getter_built getter_main { order := .lifo }
  obtain ⟨run', hrun', hresult⟩ := analyze_eq getter_main { order := .lifo }
  cases hrun.symm.trans hrun'
  refine ⟨run, hrun, ?_, hfootprint⟩
  rw [hresult]
  exact pointers_getter rfl

end Program

end PointsTo
