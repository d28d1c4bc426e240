import PointsTo.Analysis.Solver
import PointsTo.Proofs.Declarations
import PointsTo.Proofs.Indexing

/-!
# Built programs are well formed

What the analysis may rely on in a program that comes out of a builder. Part of it is checked when the
program is built (`Program.fault?`), part of it holds of every builder (`Program.Declared`), and part of
it is established by the indexing pass.

- `Program.WellFormed`: the laws.
- `Program.Built.wellFormed`: every built program obeys them.
-/

namespace PointsTo

namespace Program

/-! ## §1 The laws -/

/-- What the analysis relies on. -/
structure WellFormed (p : Program) : Prop where
  /-- The variables of a statement belong to the method of the statement. -/
  varOwned : ∀ {loc stmt v}, p.stmt? loc = some stmt → v ∈ stmt.vars → p.Owns loc.method v
  selfOwned : ∀ {m method v}, p.method? m = some method → method.self = some v → p.Owns m v
  paramOwned : ∀ {m method v}, p.method? m = some method → v ∈ method.params → p.Owns m v
  /-- The access indexes are exact. -/
  accesses : ∀ {v var}, p.var? v = some var → ∀ kind, var.accesses.of kind = p.accessSites v kind
  /-- The returned variables are those of the return statements. -/
  returned : ∀ {m method v}, p.method? m = some method →
    (v ∈ method.returnVars ↔ Stmt.ret (some v) ∈ method.body)
  /-- The methods that classes declare exist. -/
  declaredExists : ∀ {c s m}, p.declaredMethod? c s = some m → m.index < p.methods.size
  loadedExists : ∀ {loc lhs base f}, p.stmt? loc = some (.loadField lhs base f) →
    f.index < p.fields.size
  storedExists : ∀ {loc base f rhs}, p.stmt? loc = some (.storeField base f rhs) →
    f.index < p.fields.size
  /-- Precisely the static calls have no receiver. -/
  receiver : ∀ {loc call}, p.stmt? loc = some (.invoke call) →
    (call.receiver = none ↔ call.kind.isStatic = true)
  mainExists : ∀ {m}, p.main = some m → m.index < p.methods.size

/-! ## §2 What validation checks -/

section Validation

variable {q : Program}

theorem stmtFault?_eq_none (h : q.fault? = none) {loc : Location} {stmt : Stmt}
    (hstmt : q.stmt? loc = some stmt) : q.stmtFault? loc.method stmt = none := by
  obtain ⟨method, hm, hbody⟩ := stmt?_eq_some_iff.1 hstmt
  simp only [fault?, Option.or_eq_none_iff, List.findSome?_eq_none_iff] at h
  have hmethod := h.2.2.2.2 loc.method (by
    simpa [methodIds] using (Array.getElem?_eq_some_iff.1 hm).1)
  simp only [namedMethodFault?, hm, Option.bind_some, Option.map_eq_none_iff] at hmethod
  unfold methodFault? at hmethod
  split at hmethod
  · simp at hmethod
  · rw [List.findSome?_eq_none_iff] at hmethod
    simpa using hmethod (stmt, loc.index) (List.mk_mem_zipIdx_iff_getElem?.2 hbody)

theorem owns_of_fault? (h : q.fault? = none) {loc : Location} {stmt : Stmt} {v : VarId}
    (hstmt : q.stmt? loc = some stmt) (hv : v ∈ stmt.vars) : q.Owns loc.method v := by
  have hnone := stmtFault?_eq_none h hstmt
  simp only [stmtFault?, Option.or_eq_none_iff, List.findSome?_eq_none_iff] at hnone
  have hvar := hnone.1 v hv
  unfold varFault? at hvar
  split at hvar
  · simp at hvar
  · rename_i var hlookup
    split at hvar
    · exact ⟨var, hlookup, by assumption⟩
    · simp at hvar

theorem field_lt_of_fieldFault? {base : Option VarId} {f : FieldId}
    (h : q.fieldFault? base f = none) : f.index < q.fields.size := by
  unfold fieldFault? at h
  split at h
  · simp at h
  · rename_i field hfield
    exact (Array.getElem?_eq_some_iff.1 hfield).1

theorem receiver_iff_of_fault? (h : q.fault? = none) {loc : Location} {call : Invoke}
    (hstmt : q.stmt? loc = some (.invoke call)) :
    call.receiver = none ↔ call.kind.isStatic = true := by
  have hnone := stmtFault?_eq_none h hstmt
  simp only [stmtFault?, Option.or_eq_none_iff] at hnone
  have hcall := hnone.2
  unfold invokeFault? at hcall
  split at hcall
  · simp at hcall
  · rw [Option.or_eq_none_iff] at hcall
    have hrecv := hcall.1
    unfold receiverFault? at hrecv
    cases hr : call.receiver <;> cases hk : call.kind.isStatic <;> simp_all

theorem main_lt_of_fault? (h : q.fault? = none) {m : MethodId} (hm : q.main = some m) :
    m.index < q.methods.size := by
  simp only [fault?, Option.or_eq_none_iff] at h
  have hmain := h.2.2.2.1
  simp only [mainFault?, hm, Option.bind_some] at hmain
  split at hmain
  · simp at hmain
  · rename_i method hmethod
    exact (Array.getElem?_eq_some_iff.1 hmethod).1

end Validation

/-! ## §3 Built programs -/

theorem owns_indexed {q : Program} {m : MethodId} {v : VarId} (h : q.Owns m v) :
    q.indexed.Owns m v := by
  obtain ⟨var, hv, hm⟩ := h
  obtain ⟨accesses, hv'⟩ := var?_indexed_of hv
  exact ⟨_, hv', hm⟩

/-- The indexing pass makes a declared program without faults well formed. -/
theorem wellFormed_indexed {q : Program} (hq : q.Declared) (h : q.fault? = none) :
    q.indexed.WellFormed where
  varOwned hstmt hv := owns_indexed (owns_of_fault? h (stmt?_indexed _ ▸ hstmt) hv)
  selfOwned hm hv := by
    rw [method?_indexed] at hm
    obtain ⟨method, hm', rfl⟩ := Option.map_eq_some_iff.1 hm
    exact owns_indexed (hq.selfOwned hm' hv)
  paramOwned hm hv := by
    rw [method?_indexed] at hm
    obtain ⟨method, hm', rfl⟩ := Option.map_eq_some_iff.1 hm
    exact owns_indexed (hq.paramOwned hm' hv)
  accesses hv kind := by
    obtain ⟨old, hold, _, _, hof⟩ := accesses_indexed hv
    rw [hof kind, hq.unindexed hold, accessSites, accessSites, statements_indexed]
    cases kind <;> rfl
  returned hm := by
    rw [method?_indexed] at hm
    obtain ⟨method, _, rfl⟩ := Option.map_eq_some_iff.1 hm
    exact mem_returnedVars
  declaredExists hd := by
    obtain ⟨cls, hc, hs⟩ := Option.bind_eq_some_iff.1 hd
    obtain ⟨before, rest, hsplit, _⟩ := List.lookup_eq_some_iff.1 hs
    have hlt := hq.methodsExist hc (hsplit ▸ List.mem_append_right before List.mem_cons_self)
    simpa [indexed] using hlt
  loadedExists hstmt := by
    have hnone := stmtFault?_eq_none h (stmt?_indexed _ ▸ hstmt)
    simp only [stmtFault?, Option.or_eq_none_iff] at hnone
    exact field_lt_of_fieldFault? hnone.2
  storedExists hstmt := by
    have hnone := stmtFault?_eq_none h (stmt?_indexed _ ▸ hstmt)
    simp only [stmtFault?, Option.or_eq_none_iff] at hnone
    exact field_lt_of_fieldFault? hnone.2
  receiver hstmt := receiver_iff_of_fault? h (stmt?_indexed _ ▸ hstmt)
  mainExists hm := by
    have hlt := main_lt_of_fault? (q := q) h hm
    simpa [indexed] using hlt

/-- A built program is what indexing makes of a declared program without faults. -/
theorem Built.exists_calls {p : Program} (h : p.Built) :
    ∃ calls, (Builder.after calls).program.fault? = none ∧
      p = (Builder.after calls).program.indexed := by
  obtain ⟨calls, hbuild⟩ := h
  unfold Builder.build at hbuild
  split at hbuild
  · simp at hbuild
  · rename_i hfault
    cases hbuild
    exact ⟨calls, hfault, rfl⟩

theorem built_indexed {calls : List Builder.Call}
    (h : (Builder.after calls).program.fault? = none) : (Builder.after calls).program.indexed.Built :=
  ⟨calls, by simp [Builder.build, h]⟩

theorem Built.wellFormed {p : Program} (h : p.Built) : p.WellFormed := by
  obtain ⟨calls, hfault, rfl⟩ := h.exists_calls
  exact wellFormed_indexed (Builder.declared_after calls) hfault

/-- The returned variables of a method are those of its body, in the same order. -/
theorem Built.returnVars_eq {p : Program} (h : p.Built) {m : MethodId} {method : Method}
    (hm : p.method? m = some method) : method.returnVars = returnedVars method.body := by
  obtain ⟨calls, _, rfl⟩ := h.exists_calls
  rw [method?_indexed] at hm
  obtain ⟨_, _, rfl⟩ := Option.map_eq_some_iff.1 hm
  rfl

/-! ## §4 Consequences -/

section

variable {p : Program}

theorem mem_visibleMethods {c : ClassId} {s : Subsignature} {m : MethodId}
    (h : m ∈ p.visibleMethods c s) : ∃ c', p.declaredMethod? c' s = some m := by
  obtain ⟨c', _, hc'⟩ := List.mem_filterMap.1 h
  exact ⟨c', hc'⟩

/-- Whatever a call is found to run is declared under the subsignature of its reference. -/
theorem exists_declared_of_callee? {call : Invoke} {ty : Option Ty} {m : MethodId}
    (h : p.callee? call ty = some m) :
    ∃ c, p.declaredMethod? c call.target.subsignature = some m := by
  have hdispatch : ∀ {c s}, p.dispatch c s = some m → ∃ c', p.declaredMethod? c' s = some m :=
    fun hd => mem_visibleMethods (List.mem_of_find?_eq_some hd)
  have htype : ∀ {ty s}, p.dispatchOnType ty s = some m → ∃ c', p.declaredMethod? c' s = some m := by
    intro ty s hd
    cases ty with
    | ofClass c => exact hdispatch hd
    | array elem =>
      obtain ⟨root, _, hroot⟩ := Option.bind_eq_some_iff.1 hd
      exact hdispatch hroot
  unfold callee? at h
  split at h
  · exact mem_visibleMethods (List.mem_of_head? h)
  · exact hdispatch h
  · obtain ⟨ty', _, hty⟩ := Option.bind_eq_some_iff.1 h
    exact htype hty
  · obtain ⟨ty', _, hty⟩ := Option.bind_eq_some_iff.1 h
    exact htype hty

/-- Whatever method a call is found to run, the program has it. -/
theorem WellFormed.callee_exists (hp : p.WellFormed) {call : Invoke} {ty : Option Ty} {m : MethodId}
    (h : p.callee? call ty = some m) : m.index < p.methods.size := by
  obtain ⟨c, hc⟩ := exists_declared_of_callee? h
  exact hp.declaredExists hc

theorem WellFormed.method_exists (hp : p.WellFormed) {call : Invoke} {ty : Option Ty} {m : MethodId}
    (h : p.callee? call ty = some m) : ∃ method, p.method? m = some method :=
  ⟨_, Array.getElem?_eq_getElem (hp.callee_exists h)⟩

end

end Program

end PointsTo
