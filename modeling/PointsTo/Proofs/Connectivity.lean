import PointsTo.Proofs.Leastness
import PointsTo.Proofs.Traversal
import PointsTo.Proofs.Turns

/-!
# Reachable methods are connected to the entry method

That a method is reachable and that a call leads to it are recorded separately, and at different times.
In the end they agree. A derivation of "the method is reachable" contains a chain of calls from the entry
method, with a derivation of "the caller is reachable" for each of them, and the analysis finds exactly what
can be derived. So the traversal of the call graph lists all reachable methods, starting with the entry
method. Nor does a method get into the graph as an end of a call edge without being looked at: the run of
the analysis goes through the statements of all reachable methods, each of them once.

- `Derivable.chained`: the chain of calls that a derivation contains.
- `Result.Connected`: methods, call edges and the traversal of a result agree.
- `Program.analyze_connected`: results are connected, and their methods were looked at once.
-/

namespace PointsTo

/-! ## §1 Chains of calls -/

/-- A derivable call leads from one method to another. -/
def DerivableCall (p : Program) (entry caller callee : MethodId) : Prop :=
  ∃ e : CallEdge, Derivable p entry (.calls e) ∧ e.caller = caller ∧ e.callee = callee

/-- Derivable calls connect the entry method with a reachable method, or with the caller of a call. -/
def Fact.Chained (p : Program) (entry : MethodId) : Fact → Prop
  | .reachable m => Relation.ReflTransGen (DerivableCall p entry) entry m
  | .calls e => Relation.ReflTransGen (DerivableCall p entry) entry e.caller
  | _ => True

mutual

/-- **Chains**: a derivation contains a chain of calls. -/
theorem Derivable.chained {p : Program} {entry : MethodId} {fact : Fact} :
    Derivable p entry fact → fact.Chained p entry
  | .rule h => h.chained

theorem Immediate.chained {p : Program} {entry : MethodId} {fact : Fact} :
    Immediate p entry (Derivable p entry) fact → fact.Chained p entry
  | .entry => Relation.ReflTransGen.refl
  -- a call is made by a reachable method, and the method that it calls is one call further away
  | .callStatic hm _ _ _ => hm.chained
  | .callInstance hm _ _ _ _ _ => hm.chained
  | .callee he => he.chained.tail ⟨_, he, rfl, rfl⟩
  | .new _ _ | .copy _ _ | .cast _ _ | .loadStatic _ _ | .storeStatic _ _ | .loadField _ _ _
  | .storeField _ _ _ | .loadArray _ _ _ | .storeArray _ _ _ | .bind _ _ _ _ _ _ _ _
  | .argument _ _ _ _ | .result _ _ _ _ _ | .flow _ _ => trivial

end

/-! ## §2 Connected results -/

namespace Result

variable {p : Program} {entry : MethodId} {r : Result}

/-- Call edges join reachable methods, and through them the entry method reaches all the others. -/
structure Connected (r : Result) (entry : MethodId) : Prop where
  entries : r.calls.entries = [entry]
  ends : ∀ e ∈ r.calls.edges, e.caller ∈ r.calls.methods ∧ e.callee ∈ r.calls.methods
  chain : ∀ m ∈ r.calls.methods, Relation.ReflTransGen
    (fun caller callee => caller ∈ r.calls.methods ∧ r.calls.Calls caller callee) entry m
  traversal : r.calls.traversal.Perm r.calls.methods
  first : r.calls.traversal.head? = some entry

/-- The callers of recorded calls are reachable. -/
theorem chain_of_calls (hends : ∀ e ∈ r.calls.edges, e.caller ∈ r.calls.methods) {m : MethodId}
    (h : Relation.ReflTransGen r.calls.Calls entry m) : Relation.ReflTransGen
      (fun caller callee => caller ∈ r.calls.methods ∧ r.calls.Calls caller callee) entry m := by
  refine Relation.ReflTransGen.mono ?_ _ _ h
  rintro _ _ ⟨e, he, rfl, rfl⟩
  exact ⟨hends e he, e, he, rfl, rfl⟩

/-- What can be derived is recorded, so derivable chains of calls are chains of recorded calls. -/
theorem Exact.calls_of_mem (h : r.Exact p entry) {m : MethodId} (hm : m ∈ r.calls.methods) :
    Relation.ReflTransGen r.calls.Calls entry m := by
  have hchain : Relation.ReflTransGen (DerivableCall p entry) entry m :=
    ((h.facts (.reachable m)).1 hm).chained
  refine Relation.ReflTransGen.mono ?_ _ _ hchain
  rintro _ _ ⟨e, he, hcaller, hcallee⟩
  exact ⟨e, (h.facts (.calls e)).2 he, hcaller, hcallee⟩

theorem Exact.connected (h : r.Exact p entry) (hentry : entry ∈ r.calls.methods)
    (hsound : r.calls.Sound) : r.Connected entry := by
  have htraversal := CallGraph.traversal_of_entries h.entries hentry
  refine ⟨h.entries, hsound.ends, ?_, ?_, ?_⟩
  · intro m hm
    exact chain_of_calls (fun e he => (hsound.ends e he).1) (h.calls_of_mem hm)
  · -- both lists are without repetitions and have the same members
    rw [htraversal, List.perm_ext_iff_of_nodup (hsound.nodup_reachableFrom hentry) hsound.nodup]
    intro m
    rw [hsound.mem_reachableFrom hentry]
    exact ⟨hsound.mem_of_calls hentry, h.calls_of_mem⟩
  · rw [htraversal]
    exact head?_breadthFirst entry

end Result

/-! ## §3 The analysis -/

namespace Program

variable {p : Program} {entry : MethodId}

/-- Every maximal run goes through the statements of the reachable methods, and through each once. -/
theorem solve_trace (hp : p.WellFormed) (hentry : entry.index < p.methods.size) {order : WorkOrder}
    {trace : List Location} {last : Moment} (h : p.Completes order entry trace last) :
    last.state = p.solve order entry ∧ trace.Nodup ∧
      ∀ loc, loc ∈ trace ↔
        loc.method ∈ (p.solve order entry).calls.methods ∧ ∃ stmt, p.stmt? loc = some stmt := by
  obtain ⟨⟨hturns, hlast⟩, hsound⟩ := turns_solve hp (Derivable.closed p entry) hentry order
  -- the run of the analysis is maximal too, so it is the same run
  obtain ⟨rfl, rfl⟩ := h.1.unique h.2 hturns hlast
  refine ⟨rfl, nodup_flatMap_locationsOf hsound.nodup, ?_⟩
  intro loc
  simp only [List.mem_flatMap, mem_locationsOf]
  constructor
  · rintro ⟨m, hm, rfl, hstmt⟩
    exact ⟨hm, hstmt⟩
  · rintro ⟨hm, hstmt⟩
    exact ⟨loc.method, hm, rfl, hstmt⟩

/-- **Connectivity**: the analysis of a built program with an entry method gives a result whose reachable
    methods are those that calls connect with the entry method. There is a maximal run, and every such run
    ends with this result and has gone through exactly the statements of the reachable methods, without
    going through any of them twice. -/
theorem analyze_connected (hp : p.Built) (hmain : p.main = some entry) (options : Options) :
    ∃ run, p.analyze options = .ok run ∧ run.result.Connected entry ∧
      (∃ trace last, p.Completes options.order entry trace last) ∧
      ∀ trace last, p.Completes options.order entry trace last →
        last.state.result = run.result ∧ trace.Nodup ∧
          ∀ loc, loc ∈ trace ↔
            loc.method ∈ run.result.calls.methods ∧ ∃ stmt, p.stmt? loc = some stmt := by
  have hwell := hp.wellFormed
  have hentry := hwell.mainExists hmain
  have hclosed := Derivable.closed p entry
  obtain ⟨run, hrun, hresult⟩ := analyze_eq hmain options
  obtain ⟨hcompletes, hsound⟩ := turns_solve hwell hclosed hentry options.order
  refine ⟨run, hrun, ?_, ⟨_, _, hcompletes⟩, ?_⟩
  · rw [hresult]
    exact (solve_exact hwell hentry options.order).connected
      (entry_mem_solve hwell hclosed hentry options.order) hsound
  · intro trace last h
    obtain ⟨hstate, htrace⟩ := solve_trace hwell hentry h
    rw [hresult, hstate]
    exact ⟨rfl, htrace⟩

theorem analyze_connected_getter :
    ∃ run, getter.analyze { order := .lifo } = .ok run ∧ run.result.Connected ⟨1⟩ ∧
      (∃ trace last, getter.Completes .lifo ⟨1⟩ trace last) ∧
      ∀ trace last, getter.Completes .lifo ⟨1⟩ trace last →
        last.state.result = run.result ∧ trace.Nodup ∧
          ∀ loc, loc ∈ trace ↔
            loc.method ∈ run.result.calls.methods ∧ ∃ stmt, getter.stmt? loc = some stmt :=
  analyze_connected getter_built getter_main { order := .lifo }

end Program

end PointsTo
