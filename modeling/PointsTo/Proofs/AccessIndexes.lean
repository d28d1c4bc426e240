import PointsTo.Proofs.Distances
import PointsTo.Proofs.Turns

/-!
# What the access indexes hold

Field accesses, array accesses and instance calls are looked at only through the indexes of the variables
that they go through. A location that is missing from an index is therefore missing from the analysis, and
no later check would show it. Nothing is missing, and nothing is out of place: an index holds the locations
of precisely the statements that its name says, from all over the program. They all turn out to be in the
method of the variable, since validation keeps the variables of other methods out of statements.

- `Stmt.GoesThrough`: which statements belong into which index.
- `Program.pairwise_accessSites`: indexes ascend.
- `Method.ExactReturns`: the variables that a method returns.
- `Program.ExactAccesses`, `Program.ExactReadings`: the indexes of a variable, and what is read through them.
- `Program.indexes_exact`: the indexes of built programs.
-/

namespace PointsTo

/-! ## §1 Statements and their indexes -/

/-- A statement goes through a variable to the heap, in one of five ways. -/
inductive Stmt.GoesThrough : Stmt → VarId → AccessKind → Prop
  | loadField (lhs base : VarId) (f : FieldId) : GoesThrough (.loadField lhs (some base) f) base .loadField
  | storeField (base : VarId) (f : FieldId) (rhs : VarId) :
      GoesThrough (.storeField (some base) f rhs) base .storeField
  | loadArray (lhs base index : VarId) : GoesThrough (.loadArray lhs base index) base .loadArray
  | storeArray (base index rhs : VarId) : GoesThrough (.storeArray base index rhs) base .storeArray
  | invoke {call : Invoke} {v : VarId} : call.receiver = some v → GoesThrough (.invoke call) v .invoke

namespace Stmt

variable {stmt : Stmt} {v : VarId} {kind : AccessKind}

theorem access?_eq_some_iff : stmt.access? = some (v, kind) ↔ stmt.GoesThrough v kind := by
  constructor
  · intro h
    cases stmt with
    | loadField lhs base f =>
      cases base with
      | none => simp [access?] at h
      | some base =>
        cases h
        exact .loadField lhs v f
    | storeField base f rhs =>
      cases base with
      | none => simp [access?] at h
      | some base =>
        cases h
        exact .storeField v f rhs
    | loadArray lhs base index =>
      cases h
      exact .loadArray lhs v index
    | storeArray base index rhs =>
      cases h
      exact .storeArray v index rhs
    | invoke call =>
      obtain ⟨receiver, hreceiver, heq⟩ := Option.map_eq_some_iff.1 h
      cases heq
      exact .invoke hreceiver
    | _ => simp [access?] at h
  · intro h
    cases h with
    | invoke hreceiver => simp [access?, hreceiver]
    | _ => rfl

/-- Accesses to the heap other than calls make objects flow. -/
theorem GoesThrough.heapFlow?_isSome (h : stmt.GoesThrough v kind) (hkind : kind ≠ .invoke) (o : ObjId) :
    (stmt.heapFlow? o).isSome = true := by
  cases h with
  | invoke _ => exact absurd rfl hkind
  | _ => rfl

end Stmt

/-! ## §2 The order of locations -/

/-- One location comes before another one in the program. -/
def Location.Earlier (a b : Location) : Prop :=
  a.method.index < b.method.index ∨ a.method = b.method ∧ a.index < b.index

namespace Program

variable {p : Program}

/-- The locations of a method ascend. -/
theorem pairwise_locationsOf (m : MethodId) : (p.locationsOf m).Pairwise Location.Earlier := by
  unfold locationsOf statementsOf
  split
  · exact List.Pairwise.nil
  · rename_i method _
    have hpositions : (method.body.zipIdx.map Prod.snd).Pairwise (· < ·) := by
      rw [List.zipIdx_map_snd]
      exact List.pairwise_lt_range'
    rw [List.map_map, List.pairwise_map]
    apply (List.pairwise_map.1 hpositions).imp
    intro a b hab
    exact Or.inr ⟨rfl, hab⟩

/-- The statements of a program ascend. -/
theorem pairwise_statements (p : Program) : (p.statements.map Prod.fst).Pairwise Location.Earlier := by
  have hsame : p.statements.map Prod.fst = p.methodIds.flatMap p.locationsOf := List.map_flatMap
  have hids : p.methodIds.Pairwise fun m m' => m.index < m'.index := by
    unfold methodIds Id.below
    rw [List.pairwise_map]
    exact List.pairwise_lt_range
  rw [hsame, List.pairwise_flatMap]
  refine ⟨fun m _ => pairwise_locationsOf m, hids.imp ?_⟩
  -- locations of different methods are in the order of their methods
  intro m m' hlt a ha b hb
  obtain ⟨rfl, _⟩ := mem_locationsOf.1 ha
  obtain ⟨rfl, _⟩ := mem_locationsOf.1 hb
  exact Or.inl hlt

/-- The accesses through a variable are listed in the order of the program. -/
theorem pairwise_accessSites (v : VarId) (kind : AccessKind) :
    (p.accessSites v kind).Pairwise Location.Earlier :=
  (pairwise_statements p).sublist (List.filter_sublist.map _)

end Program

/-! ## §3 Returned variables -/

/-- A method lists the variables that it returns, once each, in the order of the statements that return them
    first. -/
structure Method.ExactReturns (method : Method) : Prop where
  nodup : method.returnVars.Nodup
  mem_iff : ∀ v, v ∈ method.returnVars ↔ .ret (some v) ∈ method.body
  firstReturns : ∀ v ∈ method.returnVars, ∀ w ∈ method.returnVars,
    (method.returnVars.idxOf v < method.returnVars.idxOf w ↔
      method.body.idxOf (.ret (some v)) < method.body.idxOf (.ret (some w)))

/-- Variables are met in the order of the statements that return them. -/
theorem idxOf_returned_lt_iff (body : List Stmt) (v w : VarId) :
    (body.filterMap Stmt.returned?).idxOf v < (body.filterMap Stmt.returned?).idxOf w ↔
      body.idxOf (.ret (some v)) < body.idxOf (.ret (some w)) := by
  have hreturned : ∀ {stmt : Stmt} {u : VarId}, stmt.returned? = some u ↔ stmt = .ret (some u) := by
    intro stmt u
    cases stmt <;> simp [Stmt.returned?]
  induction body with
  | nil => simp
  | cons stmt body ih =>
    cases hstmt : stmt.returned? with
    | none =>
      -- the statement returns neither of the two
      have hother : ∀ u : VarId, stmt ≠ .ret (some u) := by
        intro u heq
        rw [hreturned.2 heq] at hstmt
        exact absurd hstmt (Option.some_ne_none u)
      simp only [List.filterMap_cons_none hstmt, List.idxOf_cons_ne _ (hother v),
        List.idxOf_cons_ne _ (hother w), Nat.succ_lt_succ_iff]
      exact ih
    | some u =>
      rw [List.filterMap_cons_some hstmt, hreturned.1 hstmt]
      by_cases hv : u = v
      · subst hv
        by_cases hw : u = w
        · simp [hw]
        · have hne : Stmt.ret (some u) ≠ .ret (some w) := by simpa using hw
          simp [List.idxOf_cons_ne _ hw, List.idxOf_cons_ne _ hne]
      · have hne : Stmt.ret (some u) ≠ .ret (some v) := by simpa using hv
        by_cases hw : u = w
        · simp [hw]
        · have hne' : Stmt.ret (some u) ≠ .ret (some w) := by simpa using hw
          simp only [List.idxOf_cons_ne _ hv, List.idxOf_cons_ne _ hw, List.idxOf_cons_ne _ hne,
            List.idxOf_cons_ne _ hne', Nat.succ_lt_succ_iff]
          exact ih

theorem Method.exactReturns {method : Method} (h : method.returnVars = returnedVars method.body) :
    method.ExactReturns := by
  have hmem : ∀ v, v ∈ method.returnVars ↔ .ret (some v) ∈ method.body := by
    intro v
    rw [h]
    exact Program.mem_returnedVars
  -- collecting the variables that are new is taking one level of them
  have hfresh : method.returnVars = BreadthFirst.fresh [] (method.body.filterMap Stmt.returned?) := by
    simp [h, returnedVars, BreadthFirst.fresh]
  refine ⟨?_, hmem, ?_⟩
  · rw [hfresh]
    exact BreadthFirst.nodup_fresh _
  · intro v hv w hw
    rw [hfresh] at hv hw ⊢
    rw [BreadthFirst.idxOf_fresh_lt_iff (BreadthFirst.mem_fresh.1 hv).1 List.not_mem_nil
      (BreadthFirst.mem_fresh.1 hw).1 List.not_mem_nil]
    exact idxOf_returned_lt_iff method.body v w

/-! ## §4 Accesses through a variable -/

namespace Program

variable {p : Program} {v : VarId} {var : Var}

/-- The indexes of a variable hold the locations of all statements that go through the variable, each kind of
    access in an index of its own. Every index ascends, and stays within the method of the variable. -/
structure ExactAccesses (p : Program) (v : VarId) (var : Var) : Prop where
  mem_iff : ∀ kind loc, loc ∈ var.accesses.of kind ↔
    ∃ stmt, p.stmt? loc = some stmt ∧ stmt.GoesThrough v kind
  ascending : ∀ kind, (var.accesses.of kind).Pairwise Location.Earlier
  inMethod : ∀ kind, ∀ loc ∈ var.accesses.of kind, loc.method = var.method

/-- What an object that arrives at a variable brings about is read off the indexes. -/
structure ExactReadings (p : Program) (v : VarId) (var : Var) : Prop where
  /-- There is a flow for each location that is read. -/
  length_heapFlows : ∀ o, (p.heapFlows var.accesses o).length =
    (var.accesses.storeFields ++ var.accesses.loadFields ++ var.accesses.storeArrays
      ++ var.accesses.loadArrays).length
  /-- The flows are those of the statements that go through the variable. -/
  mem_heapFlows : ∀ o flow, flow ∈ p.heapFlows var.accesses o ↔
    ∃ loc stmt kind, p.stmt? loc = some stmt ∧ stmt.GoesThrough v kind ∧ stmt.heapFlow? o = some flow
  /-- The calls are the instance calls on the variable. -/
  mem_invokes : ∀ site, site ∈ var.accesses.invokes ↔
    ∃ call, p.stmt? site = some (.invoke call) ∧ call.receiver = some v ∧ call.kind.isStatic = false

theorem WellFormed.mem_accesses (hp : p.WellFormed) (hv : p.var? v = some var) (kind : AccessKind)
    (loc : Location) : loc ∈ var.accesses.of kind ↔
      ∃ stmt, p.stmt? loc = some stmt ∧ stmt.GoesThrough v kind := by
  rw [hp.accesses hv, mem_accessSites]
  simp only [Stmt.access?_eq_some_iff]

theorem WellFormed.exactAccesses (hp : p.WellFormed) (hv : p.var? v = some var) : p.ExactAccesses v var where
  mem_iff := hp.mem_accesses hv
  ascending kind := by
    rw [hp.accesses hv]
    exact pairwise_accessSites v kind
  inMethod kind loc hloc := by
    obtain ⟨stmt, hstmt, hthrough⟩ := (hp.mem_accesses hv kind loc).1 hloc
    -- the variable is one of the statement, so it belongs to the method of the statement
    have hmem := State.base_mem_vars (Stmt.access?_eq_some_iff.2 hthrough)
    obtain ⟨var', hv', hmethod⟩ := hp.varOwned hstmt hmem
    rw [hv] at hv'
    cases hv'
    exact hmethod.symm

theorem WellFormed.exactReadings (hp : p.WellFormed) (hv : p.var? v = some var) : p.ExactReadings v var where
  length_heapFlows o := by
    rw [heapFlows, List.length_filterMap_eq_countP, List.countP_eq_length]
    intro loc hloc
    -- whichever index the location is from, its statement makes objects flow
    have hkind : ∃ kind, kind ≠ .invoke ∧ loc ∈ var.accesses.of kind := by
      simp only [List.mem_append] at hloc
      rcases hloc with ((h | h) | h) | h
      · exact ⟨.storeField, by decide, h⟩
      · exact ⟨.loadField, by decide, h⟩
      · exact ⟨.storeArray, by decide, h⟩
      · exact ⟨.loadArray, by decide, h⟩
    obtain ⟨kind, hne, hmem⟩ := hkind
    obtain ⟨stmt, hstmt, hthrough⟩ := (hp.mem_accesses hv kind loc).1 hmem
    simpa [hstmt] using hthrough.heapFlow?_isSome hne o
  mem_heapFlows o flow := by
    rw [State.mem_heapFlows hp hv]
    simp only [Stmt.access?_eq_some_iff]
  mem_invokes site := by
    rw [State.mem_invokes hp hv]
    constructor
    · rintro ⟨call, hstmt, hreceiver⟩
      -- a call with a receiver is no static call
      have hinstance : call.kind.isStatic = false := by
        rw [← Bool.not_eq_true, ← hp.receiver hstmt, hreceiver]
        exact Option.some_ne_none v
      exact ⟨call, hstmt, hreceiver, hinstance⟩
    · rintro ⟨call, hstmt, hreceiver, _⟩
      exact ⟨call, hstmt, hreceiver⟩

/-! ## §5 Built programs -/

/-- **The indexes of built programs are exact.** Every variable lists, for each kind of access, the locations of
    all statements that make such an access through it, once each and in ascending order; all of them are in
    its own method. Every method lists the variables that it returns in the order of their first returns. So
    what is read through an index has the kind of the index and goes through the variable, and nothing that
    goes through the variable is passed over. -/
theorem indexes_exact (hp : p.Built) :
    (∀ v var, p.var? v = some var → p.ExactAccesses v var) ∧
      (∀ m method, p.method? m = some method → method.ExactReturns) ∧
      ∀ v var, p.var? v = some var → p.ExactReadings v var := by
  have hwell := hp.wellFormed
  refine ⟨?_, ?_, ?_⟩
  · intro v var hv
    exact hwell.exactAccesses hv
  · intro m method hm
    exact Method.exactReturns (hp.returnVars_eq hm)
  · intro v var hv
    exact hwell.exactReadings hv

/-- In this program the entry method stores to a field of one variable and then calls a method on it, and the
    method that is called returns what it loads. -/
theorem indexes_exact_getter :
    getter.Built ∧
      (∃ var, getter.var? ⟨2⟩ = some var ∧ var.accesses.storeFields = [⟨⟨1⟩, 1⟩] ∧
        var.accesses.invokes = [⟨⟨1⟩, 2⟩] ∧ getter.ExactAccesses ⟨2⟩ var ∧ getter.ExactReadings ⟨2⟩ var) ∧
      ∃ method, getter.method? ⟨0⟩ = some method ∧ method.returnVars = [⟨1⟩] ∧ method.ExactReturns := by
  obtain ⟨haccesses, hreturns, hreadings⟩ := indexes_exact getter_built
  have hvar : (getter.var? ⟨2⟩).map (fun var => (var.accesses.storeFields, var.accesses.invokes)) =
      some ([⟨⟨1⟩, 1⟩], [⟨⟨1⟩, 2⟩]) := by
    decide +kernel
  have hmethod : (getter.method? ⟨0⟩).map Method.returnVars = some [⟨1⟩] := by decide +kernel
  obtain ⟨var, hv, hlists⟩ := Option.map_eq_some_iff.1 hvar
  obtain ⟨method, hm, hlist⟩ := Option.map_eq_some_iff.1 hmethod
  obtain ⟨hstores, hinvokes⟩ := Prod.mk.inj hlists
  exact ⟨getter_built, ⟨var, hv, hstores, hinvokes, haccesses _ _ hv, hreadings _ _ hv⟩,
    method, hm, hlist, hreturns _ _ hm⟩

end Program

end PointsTo
