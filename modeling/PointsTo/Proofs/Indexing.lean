import PointsTo.Program.Access

/-!
# Access indexes are exact

One pass over the program fills in the access indexes. After it, the index of a variable for one kind
of access lists the locations of precisely the statements that make such an access through the
variable, in the order of the program, and a method returns precisely the variables of its return
statements. Nothing else of the program changes.

- `Program.accesses_indexed`: the index of a variable.
- `Program.mem_returnedVars`: the returned variables of a method.
-/

namespace PointsTo

/-! ## §1 Statements and locations -/

namespace Program

theorem mem_statements {p : Program} {loc : Location} {stmt : Stmt} :
    (loc, stmt) ∈ p.statements ↔ p.stmt? loc = some stmt := by
  obtain ⟨m, i⟩ := loc
  simp only [statements, stmt?, methodIds, List.mem_flatMap, Id.mem_below]
  constructor
  · rintro ⟨m', _, hmem⟩
    cases hm' : p.method? m' with
    | none => simp [hm'] at hmem
    | some method =>
      simp only [hm', List.mem_map, Prod.mk.injEq, Location.mk.injEq, Prod.exists] at hmem
      obtain ⟨stmt', j, hzip, ⟨rfl, rfl⟩, rfl⟩ := hmem
      simpa [hm'] using List.mk_mem_zipIdx_iff_getElem?.1 hzip
  · intro h
    obtain ⟨method, hm, hstmt⟩ := Option.bind_eq_some_iff.1 h
    refine ⟨m, (Array.getElem?_eq_some_iff.1 hm).1, ?_⟩
    simp only [hm, List.mem_map]
    exact ⟨(stmt, i), List.mk_mem_zipIdx_iff_getElem?.2 hstmt, rfl⟩

theorem stmt?_eq_some_iff {p : Program} {loc : Location} {stmt : Stmt} :
    p.stmt? loc = some stmt ↔
      ∃ method, p.method? loc.method = some method ∧ method.body[loc.index]? = some stmt :=
  Option.bind_eq_some_iff

/-- The locations of the accesses of one kind through a variable, in the order of the program. -/
def accessSites (p : Program) (v : VarId) (kind : AccessKind) : List Location :=
  (p.statements.filter fun entry => entry.2.access? = some (v, kind)).map Prod.fst

theorem mem_accessSites {p : Program} {v : VarId} {kind : AccessKind} {loc : Location} :
    loc ∈ p.accessSites v kind ↔
      ∃ stmt, p.stmt? loc = some stmt ∧ stmt.access? = some (v, kind) := by
  simp only [accessSites, List.mem_map, List.mem_filter, decide_eq_true_eq, Prod.exists,
    exists_and_right, exists_eq_right, mem_statements]

end Program

/-! ## §2 The indexing pass -/

/-- The indexed locations of one kind of access. -/
def Accesses.of (a : Accesses) : AccessKind → List Location
  | .loadField => a.loadFields
  | .storeField => a.storeFields
  | .loadArray => a.loadArrays
  | .storeArray => a.storeArrays
  | .invoke => a.invokes

theorem Accesses.of_record (a : Accesses) (kind kind' : AccessKind) (loc : Location) :
    (a.record kind loc).of kind' = a.of kind' ++ (if kind = kind' then [loc] else []) := by
  cases kind <;> cases kind' <;> simp [record, of]

/-- One statement extends the index of a variable by its location or leaves it alone. -/
theorem getElem?_indexStmt {vars : Array Var} {v : VarId} {var : Var} (loc : Location) (stmt : Stmt)
    (hv : vars[v.index]? = some var) :
    ∃ accesses, (indexStmt vars loc stmt)[v.index]? = some { var with accesses } ∧
      ∀ kind, accesses.of kind =
        var.accesses.of kind ++ (if stmt.access? = some (v, kind) then [loc] else []) := by
  unfold indexStmt
  cases haccess : stmt.access? with
  | none => exact ⟨var.accesses, hv, by simp⟩
  | some access =>
    obtain ⟨base, kind'⟩ := access
    by_cases hbase : base = v
    · subst hbase
      refine ⟨var.accesses.record kind' loc, by simp [Array.getElem?_modify, hv], fun kind => ?_⟩
      simp [Accesses.of_record]
    · have hne : base.index ≠ v.index := by
        intro h
        cases base; cases v
        exact hbase (congrArg Id.mk h)
      refine ⟨var.accesses, by simp [Array.getElem?_modify, hne, hv], fun kind => ?_⟩
      simp [hbase]

theorem getElem?_foldl_indexStmt (l : List (Location × Stmt)) {vars : Array Var} {v : VarId}
    {var : Var} (hv : vars[v.index]? = some var) :
    ∃ accesses,
      (l.foldl (fun vars (loc, stmt) => indexStmt vars loc stmt) vars)[v.index]? =
        some { var with accesses } ∧
      ∀ kind, accesses.of kind = var.accesses.of kind ++
        (l.filter fun entry => entry.2.access? = some (v, kind)).map Prod.fst := by
  induction l generalizing vars var with
  | nil => exact ⟨var.accesses, hv, by simp⟩
  | cons entry rest ih =>
    obtain ⟨loc, stmt⟩ := entry
    obtain ⟨first, hfirst, hof⟩ := getElem?_indexStmt loc stmt hv
    obtain ⟨accesses, hrest, hof'⟩ := ih hfirst
    refine ⟨accesses, hrest, fun kind => ?_⟩
    rw [hof' kind, hof kind, List.append_assoc, List.filter_cons]
    by_cases hkind : stmt.access? = some (v, kind) <;> simp [hkind]

theorem size_foldl_indexStmt (l : List (Location × Stmt)) (vars : Array Var) :
    (l.foldl (fun vars (loc, stmt) => indexStmt vars loc stmt) vars).size = vars.size := by
  induction l generalizing vars with
  | nil => rfl
  | cons entry rest ih =>
    obtain ⟨loc, stmt⟩ := entry
    rw [List.foldl_cons, ih]
    simp only [indexStmt]
    split
    · rfl
    · exact Array.size_modify

/-! ## §3 What the pass leaves -/

namespace Program

variable {p : Program}

theorem method?_indexed (m : MethodId) :
    p.indexed.method? m =
      (p.method? m).map fun method => { method with returnVars := returnedVars method.body } := by
  simp [indexed, method?]

theorem stmt?_indexed (loc : Location) : p.indexed.stmt? loc = p.stmt? loc := by
  unfold stmt?
  rw [method?_indexed]
  cases p.method? loc.method <;> rfl

theorem statements_indexed : p.indexed.statements = p.statements := by
  have hids : p.indexed.methodIds = p.methodIds := by simp [methodIds, indexed]
  unfold statements
  rw [hids]
  congr 1
  funext m
  rw [method?_indexed]
  cases p.method? m <;> rfl

/-- **Access indexes are exact**: an indexed variable keeps its name and method and lists, after what
    it listed before, the locations of the accesses through it. -/
theorem accesses_indexed {v : VarId} {var : Var} (hv : p.indexed.var? v = some var) :
    ∃ old, p.var? v = some old ∧ old.method = var.method ∧ old.name = var.name ∧
      ∀ kind, var.accesses.of kind = old.accesses.of kind ++ p.accessSites v kind := by
  have hlt : v.index < p.vars.size := by
    have := (Array.getElem?_eq_some_iff.1 hv).1
    simpa only [indexed, size_foldl_indexStmt] using this
  obtain ⟨accesses, hvar, hof⟩ :=
    getElem?_foldl_indexStmt p.statements (Array.getElem?_eq_getElem hlt)
  have heq : some var = some { p.vars[v.index] with accesses } := hv.symm.trans hvar
  cases heq
  exact ⟨p.vars[v.index], Array.getElem?_eq_getElem hlt, rfl, rfl, hof⟩

theorem var?_indexed_of {v : VarId} {var : Var} (hv : p.var? v = some var) :
    ∃ accesses, p.indexed.var? v = some { var with accesses } := by
  obtain ⟨accesses, hvar, _⟩ := getElem?_foldl_indexStmt p.statements hv
  exact ⟨accesses, hvar⟩

theorem mem_returnedVars {body : List Stmt} {v : VarId} :
    v ∈ returnedVars body ↔ Stmt.ret (some v) ∈ body := by
  simp only [returnedVars, List.mem_eraseDups, List.mem_filterMap]
  constructor
  · rintro ⟨stmt, hmem, hret⟩
    cases stmt with
    | ret value =>
      simp only [Stmt.returned?] at hret
      exact hret ▸ hmem
    | _ => simp [Stmt.returned?] at hret
  · exact fun hmem => ⟨_, hmem, rfl⟩

end Program

end PointsTo
