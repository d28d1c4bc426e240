import PointsTo.Proofs.Leastness
import PointsTo.Proofs.Outline

/-!
# Unreachable methods have no influence

The access indexes and the returned variables are computed for all methods when a program is built, but
the analysis looks only at those of methods that it has found to be reachable. So two programs with the
same outline, whose statements agree on the methods that the analysis of one of them reaches, take the
analysis through the same states: not only the results are equal, but every number given to an object or
a pointer, every order of discovery and every message.

- `Program.AgreesOn`: two programs look the same from within a set of methods.
- `Program.Built.agreesOn`: it is enough that their statements agree there.
- `State.step?_congr`, `State.drain_congr`: steps and runs agree.
- `Program.analyze_congr`: the analyses agree.
- `Program.idle`, `Program.busy`: two programs that differ in a method which nobody calls.
-/

namespace PointsTo

/-! ## §1 Agreement on some methods -/

namespace Program

variable {p q : Program} {M : MethodId → Prop}

/-- Two programs look the same from within a set of methods. -/
structure AgreesOn (p q : Program) (M : MethodId → Prop) : Prop where
  outline : p.outline = q.outline
  method : ∀ {m}, M m → q.method? m = p.method? m
  var : ∀ {m v}, M m → p.Owns m v → q.var? v = p.var? v

theorem AgreesOn.stmt?_eq (h : p.AgreesOn q M) {loc : Location} (hm : M loc.method) :
    q.stmt? loc = p.stmt? loc := by
  unfold stmt?
  rw [h.method hm]

/-- The statements of one method, with their locations. -/
def statementsOf (p : Program) (m : MethodId) : List (Location × Stmt) :=
  match p.method? m with
  | none => []
  | some method => method.body.zipIdx.map fun (stmt, i) => (⟨m, i⟩, stmt)

theorem mem_statementsOf {m : MethodId} {loc : Location} {stmt : Stmt}
    (h : (loc, stmt) ∈ p.statementsOf m) : loc.method = m ∧ p.stmt? loc = some stmt := by
  unfold statementsOf at h
  split at h
  · exact absurd h List.not_mem_nil
  · rename_i method hmethod
    obtain ⟨⟨stmt', i⟩, hzip, heq⟩ := List.mem_map.1 h
    cases heq
    exact ⟨rfl, stmt?_eq_some_iff.2 ⟨method, hmethod, List.mk_mem_zipIdx_iff_getElem?.1 hzip⟩⟩

/-- Of the statements of another method none goes through the variable. -/
theorem WellFormed.filter_statementsOf (hp : p.WellFormed) {m m' : MethodId} {v : VarId}
    (howns : p.Owns m v) (hne : m' ≠ m) (kind : AccessKind) :
    (p.statementsOf m').filter (fun entry => entry.2.access? = some (v, kind)) = [] := by
  rw [List.filter_eq_nil_iff]
  rintro ⟨loc, stmt⟩ hmem haccess
  obtain ⟨hloc, hstmt⟩ := mem_statementsOf hmem
  -- the variable would belong to two methods
  have hbase := State.base_mem_vars (of_decide_eq_true haccess)
  exact hne (hloc ▸ State.owner_unique (hp.varOwned hstmt hbase) howns)

/-- The accesses through a variable are those of its own method, so agreement there is enough. -/
theorem accessSites_congr (hp : p.WellFormed) (hq : q.WellFormed)
    (hsize : p.methods.size = q.methods.size) {m : MethodId} {v : VarId} (howns : p.Owns m v)
    (howns' : q.Owns m v) (hmethod : q.method? m = p.method? m) (kind : AccessKind) :
    q.accessSites v kind = p.accessSites v kind := by
  have hids : q.methodIds = p.methodIds := by simp [methodIds, hsize]
  have hsites : ∀ r : Program, r.accessSites v kind = (r.methodIds.flatMap fun m' =>
      (r.statementsOf m').filter fun entry => entry.2.access? = some (v, kind)).map Prod.fst := by
    intro r
    rw [← List.filter_flatMap]
    rfl
  rw [hsites p, hsites q, hids]
  apply congrArg (List.map Prod.fst)
  apply List.flatMap_congr
  intro m' _
  by_cases hm : m' = m
  · subst hm
    simp only [statementsOf, hmethod]
  · rw [hp.filter_statementsOf howns hm, hq.filter_statementsOf howns' hm]

theorem WellFormed.accesses_eq (hp : p.WellFormed) {v : VarId} {var : Var} (hv : p.var? v = some var) :
    var.accesses =
      { loadFields := p.accessSites v .loadField
        storeFields := p.accessSites v .storeField
        loadArrays := p.accessSites v .loadArray
        storeArrays := p.accessSites v .storeArray
        invokes := p.accessSites v .invoke } := by
  simp only [← hp.accesses hv]
  rfl

/-- **Agreement**: built programs with the same outline agree on the methods on which their statements
    agree. -/
theorem Built.agreesOn (hp : p.Built) (hq : q.Built) (houtline : p.outline = q.outline)
    (hstmt : ∀ m, M m → ∀ i, q.stmt? ⟨m, i⟩ = p.stmt? ⟨m, i⟩) : p.AgreesOn q M := by
  have hmethod : ∀ {m}, M m → q.method? m = p.method? m := by
    intro m hm
    cases hold : p.method? m with
    | none =>
      have hnone : (q.method? m).map Method.outline = none := by
        rw [← method?_outline, ← houtline, method?_outline, hold]
        rfl
      exact Option.map_eq_none_iff.1 hnone
    | some method =>
      obtain ⟨method', hnew, hsame⟩ := exists_method_of_outline houtline hold
      have hbody : method'.body = method.body := by
        apply List.ext_getElem?
        intro i
        have hi := hstmt m hm i
        simpa [stmt?, hold, hnew] using hi
      -- the returned variables are computed from the statements
      have hreturned : method'.returnVars = method.returnVars := by
        rw [hq.returnVars_eq hnew, hp.returnVars_eq hold, hbody]
      rw [hnew, Option.some.injEq]
      cases method
      cases method'
      simp_all [Method.outline]
  refine ⟨houtline, hmethod, fun {m v} hm howns => ?_⟩
  obtain ⟨var, hv, _⟩ := id howns
  obtain ⟨var', hv', hsame⟩ := exists_var_of_outline houtline hv
  have haccesses : var'.accesses = var.accesses := by
    have hsites := accessSites_congr hp.wellFormed hq.wellFormed
      (size_methods_eq_of_outline houtline) howns (owns_of_outline houtline howns) (hmethod hm)
    rw [hp.wellFormed.accesses_eq hv, hq.wellFormed.accesses_eq hv']
    simp only [hsites]
  rw [hv, hv', Option.some.injEq]
  cases var
  cases var'
  simp_all [Var.outline]

end Program

/-! ## §2 Operations -/

namespace State

variable {p q : Program} {F : Fact → Prop} {entry : MethodId} {s t : State}

/-- Folds agree if their rounds agree in all states that the first fold may pass through. -/
theorem foldl_congr {α : Type} {f g : State → α → State} (hf : ∀ s x, Extends s (f s x)) {l : List α}
    (hround : ∀ t x, s.Extends t → x ∈ l → g t x = f t x) : l.foldl g s = l.foldl f s := by
  induction l generalizing s with
  | nil => rfl
  | cons x rest ih =>
    have hfirst : g s x = f s x := hround s x (Extends.refl s) List.mem_cons_self
    rw [List.foldl_cons, List.foldl_cons, hfirst]
    apply ih
    intro t y ht hy
    exact hround t y ((hf s x).trans ht) (List.mem_cons_of_mem x hy)

section Agreement

/- From here on the programs agree on all methods that the facts call reachable. -/
variable (h : p.AgreesOn q fun m => F (.reachable m)) (hF : Closed p entry F)

include h

theorem link_congr {site : Location} {call : Invoke} {callee : MethodId}
    (hcallee : F (.reachable callee)) : s.link q site call callee = s.link p site call callee := by
  unfold link
  rw [h.method hcallee]

theorem bindReceiver_congr {callee : MethodId} {o : ObjId} (hcallee : F (.reachable callee)) :
    s.bindReceiver q callee o = s.bindReceiver p callee o := by
  unfold bindReceiver
  rw [h.method hcallee]

include hF

theorem callStatic_congr {site : Location} {call : Invoke} (hstmt : p.stmt? site = some (.invoke call))
    (hkind : call.kind = .static) (hreachable : F (.reachable site.method)) :
    s.callStatic q site call = s.callStatic p site call := by
  unfold callStatic
  rw [← Program.callee?_eq_of_outline h.outline]
  split
  · rfl
  · rename_i callee hcallee
    have hresolve : p.resolve call.target = some callee := by
      rw [← hcallee, Program.callee?, hkind]
    have hcall := hF _ (.callStatic hreachable hstmt hkind hresolve)
    exact link_congr h (hF _ (.callee hcall))

theorem enterStmt_congr {loc : Location} {stmt : Stmt} (hstmt : p.stmt? loc = some stmt)
    (hreachable : F (.reachable loc.method)) :
    s.enterStmt q loc stmt = s.enterStmt p loc stmt := by
  -- only static calls look at the program
  cases stmt with
  | invoke call =>
    simp only [enterStmt]
    split
    · rename_i hstatic
      have hkind : call.kind = .static := by
        cases hk : call.kind <;> simp [hk, CallKind.isStatic] at hstatic ⊢
      exact callStatic_congr h hF hstmt hkind hreachable
    · rfl
  | loadField lhs base f => cases base <;> rfl
  | storeField base f rhs => cases base <;> rfl
  | _ => rfl

theorem enterMethod_congr {m : MethodId} (hm : F (.reachable m)) :
    s.enterMethod q m = s.enterMethod p m := by
  unfold enterMethod
  rw [h.method hm]
  cases hmethod : p.method? m with
  | none => rfl
  | some method =>
    have hext : ∀ (t : State) (x : Stmt × Nat), t.Extends (t.enterStmt p ⟨m, x.2⟩ x.1) :=
      fun t x => enterStmt_extends _ x.1
    refine foldl_congr hext ?_
    rintro t ⟨stmt, i⟩ _ hmem
    have hstmt : p.stmt? ⟨m, i⟩ = some stmt :=
      Program.stmt?_eq_some_iff.2 ⟨method, hmethod, List.mk_mem_zipIdx_iff_getElem?.1 hmem⟩
    exact enterStmt_congr h hF hstmt hm

/-- The object at the receiver decides which method a call runs, and the facts know that object. -/
theorem callInstance_congr (hp : p.WellFormed) {site : Location} {call : Invoke} {v : VarId}
    {o : ObjId} (hstmt : p.stmt? site = some (.invoke call)) (hreceiver : call.receiver = some v)
    (hreachable : F (.reachable site.method)) (hknown : s.Known p F v o) :
    s.callInstance q o site = s.callInstance p o site := by
  obtain ⟨obj, hobj, hty, hfact⟩ := hknown
  have hkind : call.kind ≠ .static := by
    intro hstatic
    have hnone := (hp.receiver hstmt).2 (by rw [hstatic]; rfl)
    rw [hreceiver] at hnone
    exact absurd hnone (Option.some_ne_none v)
  unfold callInstance
  rw [h.stmt?_eq hreachable, hstmt]
  simp only [hobj, Option.map_some, ← Program.callee?_eq_of_outline h.outline]
  split
  · rfl
  · rename_i callee hcallee
    have htarget := Program.target_iff.2 ⟨hkind, hcallee⟩
    have hcall := hF _ (.callInstance hreachable hstmt hreceiver hfact hty htarget)
    have hcallee' := hF _ (.callee hcall)
    rw [bindReceiver_congr h hcallee', link_congr h hcallee']

theorem receive_congr (hp : p.WellFormed) {m : MethodId} {v : VarId} {o : ObjId}
    (howns : p.Owns m v) (hreachable : F (.reachable m)) (hknown : s.Known p F v o) :
    receive q v s o = receive p v s o := by
  obtain ⟨var, hvar, _⟩ := id howns
  unfold receive
  rw [h.var hreachable howns, hvar]
  -- an access through the variable stands in the method of the variable
  have hmethod : ∀ {loc stmt kind}, p.stmt? loc = some stmt → stmt.access? = some (v, kind) →
      F (.reachable loc.method) := by
    intro loc stmt kind hstmt haccess
    have howner := hp.varOwned hstmt (base_mem_vars haccess)
    exact owner_unique howns howner ▸ hreachable
  have hflows : q.heapFlows var.accesses o = p.heapFlows var.accesses o := by
    unfold Program.heapFlows
    apply List.filterMap_congr
    intro loc hloc
    have hkind : ∃ kind, loc ∈ var.accesses.of kind := by
      simp only [List.mem_append] at hloc
      rcases hloc with ((hloc | hloc) | hloc) | hloc
      · exact ⟨.storeField, hloc⟩
      · exact ⟨.loadField, hloc⟩
      · exact ⟨.storeArray, hloc⟩
      · exact ⟨.loadArray, hloc⟩
    obtain ⟨kind, hmem⟩ := hkind
    rw [hp.accesses hvar kind, Program.mem_accessSites] at hmem
    obtain ⟨stmt, hstmt, haccess⟩ := hmem
    rw [h.stmt?_eq (hmethod hstmt haccess)]
  dsimp only
  rw [hflows]
  refine foldl_congr (fun _ site => callInstance_extends o site) ?_
  intro t site ht hsite
  obtain ⟨call, hstmt, hreceiver⟩ := (mem_invokes hp hvar).1 hsite
  have haccess : (Stmt.invoke call).access? = some (v, .invoke) := by
    simp [Stmt.access?, hreceiver]
  have hext := (connectAll_extends (s := s) (p.heapFlows var.accesses o)).trans ht
  exact callInstance_congr h hF hp hstmt hreceiver (hmethod hstmt haccess) (hext.known hknown)

theorem receiveAll_congr (hp : p.WellFormed) {m : MethodId} {v : VarId} {delta : ObjSet}
    (howns : p.Owns m v) (hreachable : F (.reachable m)) (hknown : ∀ o ∈ delta, s.Known p F v o) :
    s.receiveAll q (.var v) delta = s.receiveAll p (.var v) delta := by
  apply foldl_congr (fun _ o => receive_extends v o)
  intro t o ht ho
  exact receive_congr h hF hp howns hreachable (ht.known (hknown o ho))

/-! ## §3 Steps and runs -/

theorem enterPending_congr (hp : p.WellFormed) (n : Nat) (hs : Steady p F s) :
    s.enterPending q n = s.enterPending p n := by
  induction n generalizing s with
  | zero => rfl
  | succ n ih =>
    unfold enterPending
    split
    · rfl
    · rename_i m rest hpending
      -- a pending method is reachable, so its statements are among those that agree
      have hmem : m ∈ s.pending := by
        rw [hpending]
        exact List.mem_cons_self
      have hm := (hs.supported.methods m (hs.waiting.reached m hmem)).1
      rw [enterMethod_congr h hF hm]
      exact ih (hs.enterMethod hp hF hpending)

theorem settle_congr (hp : p.WellFormed) (hs : Steady p F s) : s.settle q = s.settle p := by
  unfold settle
  rw [← Program.size_methods_eq_of_outline h.outline]
  exact enterPending_congr h hF hp _ hs

/-- **Steps agree** from every steady state of the first program. -/
theorem step?_congr (hp : p.WellFormed) (hs : Steady p F s) : s.step? q = s.step? p := by
  unfold step?
  cases hpoll : s.worklist.poll with
  | none => rfl
  | some next =>
    obtain ⟨item, rest⟩ := next
    simp only [Option.map_some, Option.some.injEq]
    unfold absorb
    dsimp only
    split
    · rfl
    · rename_i pointer hpointer
      split
      · rfl
      · rename_i hnew
        have hne : s.newObjects item ≠ ∅ := fun hempty => hnew (Ascending.isEmpty_iff.2 hempty)
        have hkept := hs.propagate hF hpoll hpointer hne
        have hgrows := propagate_grows pointer hpoll (FlowGraph.index_lt_of_pointer? hpointer)
        have hpointer' := FlowGraph.pointer?_of_isPrefix hgrows.pointers hpointer
        have hreceive :
            ((s.polled rest).propagate item.pointer pointer (s.newObjects item)).receiveAll q pointer
                (s.newObjects item) =
              ((s.polled rest).propagate item.pointer pointer (s.newObjects item)).receiveAll p pointer
                (s.newObjects item) := by
          cases pointer with
          | var v =>
            obtain ⟨⟨m, hm, howns⟩, _⟩ :=
              hkept.supported.nodes _ (FlowGraph.mem_pointerList_of_pointer? hpointer')
            apply receiveAll_congr h hF hp howns (hkept.supported.methods m hm).1
            intro o ho
            refine hkept.supported.known hpointer' (hkept.supported.members _ o ?_)
            exact (FlowGraph.mem_objects_grow (g := s.flow)
              (FlowGraph.index_lt_of_pointer? hpointer)).2 (Or.inr ⟨rfl, ho⟩)
          | field _ _ => rfl
          | element _ => rfl
          | staticField _ => rfl
        have hsettle := settle_congr h hF hp (hs.receiveAll hp hF hpoll hpointer hne)
        rw [← hreceive] at hsettle
        exact hsettle.trans (congrArg (settle p) hreceive)

/-- **Runs agree**, step by step. -/
theorem drain_congr (hp : p.WellFormed) (n : Nat) (hs : Steady p F s) (hpending : s.pending = []) :
    s.drain q n = s.drain p n := by
  induction n generalizing s with
  | zero => rfl
  | succ n ih =>
    unfold drain
    rw [step?_congr h hF hp hs]
    split
    · rfl
    · rename_i t hstep
      obtain ⟨hsteady, hdone, _⟩ := step?_steady hp hF hs hpending hstep
      exact ih hsteady hdone

theorem start_congr (hp : p.WellFormed) (hentry : entry.index < p.methods.size) (order : WorkOrder) :
    start q order entry = start p order entry := by
  have hreach : Actions p F (blank order entry) 0 ((blank order entry).reach entry) :=
    (Action.reach (hF _ .entry) hentry).single
  rw [start_eq, start_eq]
  exact settle_congr h hF hp ((blank_steady order).actions hF hreach)

end Agreement

/-- More rounds than are needed change nothing. -/
theorem drain_of_le {m n : Nat} (hle : m ≤ n) (hdone : (s.drain p m).worklist.items = []) :
    s.drain p n = s.drain p m := by
  induction m generalizing n s with
  | zero =>
    have hpoll : s.worklist.poll = none := Worklist.poll_eq_none_iff.2 hdone
    cases n with
    | zero => rfl
    | succ n => simp [drain, step?, hpoll]
  | succ m ih =>
    cases n with
    | zero => exact absurd hle (Nat.not_succ_le_zero m)
    | succ n =>
      unfold drain at hdone ⊢
      split
      · rfl
      · rename_i t hstep
        rw [hstep] at hdone
        exact ih (Nat.le_of_succ_le_succ hle) hdone

end State

/-! ## §4 The analysis -/

namespace Program

variable {p q : Program} {entry : MethodId}

/-- The numbers of rounds that the two analyses are given differ, but neither uses them up. -/
theorem solve_congr (hp : p.WellFormed) (hq : q.WellFormed)
    (h : p.AgreesOn q fun m => Derivable p entry (.reachable m))
    (hentry : entry.index < p.methods.size) (order : WorkOrder) :
    q.solve order entry = p.solve order entry := by
  have hclosed := Derivable.closed p entry
  have hentry' : entry.index < q.methods.size := size_methods_eq_of_outline h.outline ▸ hentry
  obtain ⟨hsteady, hpending⟩ := State.start_steady hp hclosed hentry order
  have hdone := (solve_finished hp hclosed hentry order).worklist
  have hdone' := (solve_finished hq (Derivable.closed q entry) hentry' order).worklist
  have hstart := State.start_congr h hclosed hp hentry order
  unfold solve at hdone hdone' ⊢
  rw [hstart, State.drain_congr h hclosed hp _ hsteady hpending] at hdone' ⊢
  -- the run of the first program, with either number of rounds
  rcases Nat.le_total p.iterationBound q.iterationBound with hle | hle
  · exact State.drain_of_le hle hdone
  · exact (State.drain_of_le hle hdone').symm

/-- **Unreachable methods have no influence**: if two programs have the same outline and their
    statements agree on the methods that the analysis of the first reaches, then both analyses give the
    same answer, with the same numbering, order and events, and their logs read the same. -/
theorem analyze_congr (hp : p.Built) (hq : q.Built) (houtline : p.outline = q.outline)
    (options : Options)
    (hstmt : ∀ run, p.analyze options = .ok run → ∀ m ∈ run.result.calls.methods,
      ∀ i, q.stmt? ⟨m, i⟩ = p.stmt? ⟨m, i⟩) :
    q.analyze options = p.analyze options ∧
      ∀ run, p.analyze options = .ok run → ∀ detail, run.lines q detail = run.lines p detail := by
  refine ⟨?_, fun run _ detail => (Run.lines_eq_of_outline houtline run detail).symm⟩
  cases hmain : p.main with
  | none =>
    have hmain' : q.main = none := main_eq_of_outline houtline ▸ hmain
    simp [analyze, hmain, hmain']
  | some entry =>
    have hmain' : q.main = some entry := main_eq_of_outline houtline ▸ hmain
    have hwell := hp.wellFormed
    have hentry := hwell.mainExists hmain
    obtain ⟨run, hrun, hresult⟩ := analyze_eq hmain options
    -- every method that is derivably reachable is among those that the analysis reaches
    have hreached : ∀ m, Derivable p entry (.reachable m) → m ∈ run.result.calls.methods := by
      intro m hm
      rw [hresult]
      exact ((solve_exact hwell hentry options.order).facts (.reachable m)).2 hm
    have hagrees : p.AgreesOn q fun m => Derivable p entry (.reachable m) :=
      hp.agreesOn hq houtline fun m hm => hstmt run hrun m (hreached m hm)
    have hsolve := solve_congr hwell hq.wellFormed hagrees hentry options.order
    simp [analyze, hmain, hmain', hsolve]

end Program

/-! ## §5 An idle method -/

/-- Calls that declare a method which nobody calls, beside those of `Builder.getterCalls`. -/
def Builder.idleCalls : List Builder.Call :=
  Builder.getterCalls ++ [.addMethod ⟨1⟩ "void idle()" false, .localVar ⟨2⟩ "x"]

/-- Calls that give this method statements, with an allocation, a store and a call among them. -/
def Builder.idleBody : List Builder.Call :=
  [.append ⟨2⟩ (.new ⟨5⟩ (.ofClass ⟨0⟩)), .append ⟨2⟩ (.storeField (some ⟨4⟩) ⟨0⟩ ⟨5⟩),
   .append ⟨2⟩ (.invoke ⟨.virtual, ⟨⟨1⟩, ⟨"Object", "get", []⟩⟩, some ⟨4⟩, [], some ⟨5⟩⟩)]

namespace Program

/-- The program with an empty idle method. -/
def idle : Program := (Builder.after Builder.idleCalls).program.indexed

/-- The program whose idle method has statements. -/
def busy : Program := (Builder.after (Builder.idleCalls ++ Builder.idleBody)).program.indexed

theorem idle_built : idle.Built := built_indexed (by decide +kernel)

theorem busy_built : busy.Built := built_indexed (by decide +kernel)

theorem idle_outline_eq_busy : idle.outline = busy.outline := by
  simp [idle, busy, outline_indexed, Builder.after, Builder.idleBody, Builder.perform,
    Builder.outline_append]

/-- The statements of the idle method are the only difference. -/
theorem busy_stmt?_eq {m : MethodId} (hm : m ∈ [(⟨1⟩ : MethodId), ⟨0⟩]) (i : Nat) :
    busy.stmt? ⟨m, i⟩ = idle.stmt? ⟨m, i⟩ := by
  have hbodies : ∀ m ∈ [(⟨1⟩ : MethodId), ⟨0⟩],
      (busy.method? m).map Method.body = (idle.method? m).map Method.body := by decide +kernel
  have hstmt : ∀ r : Program, r.stmt? ⟨m, i⟩ = ((r.method? m).map Method.body).bind (·[i]?) := by
    intro r
    cases hmethod : r.method? m <;> simp [stmt?, hmethod]
  rw [hstmt, hstmt, hbodies m hm]

theorem analyze_congr_idle :
    idle.stmt? ⟨⟨2⟩, 0⟩ ≠ busy.stmt? ⟨⟨2⟩, 0⟩ ∧
      (busy.analyze { dump := .all } = idle.analyze { dump := .all } ∧
        ∀ run, idle.analyze { dump := .all } = .ok run →
          ∀ detail, run.lines busy detail = run.lines idle detail) := by
  refine ⟨by decide +kernel, analyze_congr idle_built busy_built idle_outline_eq_busy _ ?_⟩
  intro run hrun m hm i
  have hmain : idle.main = some ⟨1⟩ := by decide +kernel
  obtain ⟨run', hrun', hresult⟩ := analyze_eq hmain { dump := .all }
  rw [hrun, Except.ok.injEq] at hrun'
  subst hrun'
  have hmethods : (idle.solve ({ dump := .all } : Options).order ⟨1⟩).result.calls.methods = [⟨1⟩, ⟨0⟩] := by
    decide +kernel
  rw [hresult, hmethods] at hm
  exact busy_stmt?_eq hm i

end Program

end PointsTo
