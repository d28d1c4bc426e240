import PointsTo.Proofs.Fixpoint

/-!
# Results are least

A set of facts is a set of methods, a set of call edges, a set of flow edges and a points-to map in one,
with objects named by their allocation sites. The result of an analysis is contained in every such set
that is closed under the rules, and everything in it has a derivation. Together with the fact that the
result is itself closed, the result says exactly what can be derived.

- `Result.ContainedIn`: a result is contained in a set of facts.
- `Program.analyze_least`: the result of an analysis is contained in every solution.
- `Program.solve_exact`: the facts of a result are the derivable ones.
-/

namespace PointsTo

/-! ## §1 Containment -/

/-- Everything that a result says is among the facts. -/
structure Result.ContainedIn (r : Result) (F : Fact → Prop) : Prop where
  methods : ∀ m ∈ r.calls.methods, F (.reachable m)
  calls : ∀ e ∈ r.calls.edges, F (.calls e)
  /-- Every edge leads from the node of a place to the node of a place. -/
  flows : ∀ e ∈ r.flow.edges, ∃ a b x y, r.flow.pointer? e.1 = some a ∧
    r.flow.pointer? e.2 = some b ∧ r.heap.place? a = some x ∧ r.heap.place? b = some y ∧
      F (.flows x y)
  pointsTo : ∀ a, ∀ o ∈ r.pointsTo a, ∃ x site, r.heap.place? a = some x ∧
    r.heap.site? o = some site ∧ F (.pointsTo x site)

theorem State.Supported.containedIn {p : Program} {F : Fact → Prop} {s : State}
    (h : s.Supported p F) : s.result.ContainedIn F where
  methods m hm := (h.methods m hm).1
  calls e he := (h.calls e he).1
  flows e he := by
    obtain ⟨x, y, hx, hy, hflow⟩ := h.edges e he
    obtain ⟨a, ha, hax⟩ := placeOf?_eq_some_iff.1 hx
    obtain ⟨b, hb, hby⟩ := placeOf?_eq_some_iff.1 hy
    exact ⟨a, b, x, y, ha, hb, hax, hby, hflow⟩
  pointsTo a o ho := by
    obtain ⟨id, hfind, ho⟩ := FlowGraph.mem_pointsTo.1 ho
    obtain ⟨x, site, hx, hsite, hfact⟩ := h.members id o ho
    obtain ⟨a', ha', hplace⟩ := placeOf?_eq_some_iff.1 hx
    -- the node that holds the object is the node of `a`
    have hsame : some a = some a' := (FlowGraph.pointer?_of_find? hfind).symm.trans ha'
    cases hsame
    exact ⟨x, site, hplace, hsite, hfact⟩

namespace Program

variable {p : Program} {entry : MethodId}

/-- **Leastness**: the result of an analysis is contained in every solution of the rules, and all that
    it says is derivable. -/
theorem analyze_least (hp : p.Built) (hmain : p.main = some entry) (options : Options) :
    ∃ run, p.analyze options = .ok run ∧
      (∀ F, Closed p entry F → run.result.ContainedIn F) ∧
      run.result.ContainedIn (Derivable p entry) := by
  have hwell := hp.wellFormed
  have hlt := hwell.mainExists hmain
  have hcontained : ∀ F, Closed p entry F → (p.solve options.order entry).result.ContainedIn F :=
    fun F hF => (solve_finished hwell hF hlt options.order).supported.containedIn
  obtain ⟨run, hrun, hresult⟩ := analyze_eq hmain options
  rw [← hresult] at hcontained
  exact ⟨run, hrun, hcontained, hcontained _ (Derivable.closed p entry)⟩

theorem analyze_least_getter :
    ∃ run, getter.analyze { order := .lifo } = .ok run ∧
      (∀ F, Closed getter ⟨1⟩ F → run.result.ContainedIn F) ∧
      run.result.ContainedIn (Derivable getter ⟨1⟩) :=
  analyze_least getter_built getter_main { order := .lifo }

end Program

/-! ## §2 Facts of a result -/

namespace Result

variable {p : Program} {entry : MethodId} {r : Result}

/-- What a result says, with objects named by their allocation sites. -/
def Says (r : Result) : Fact → Prop
  | .reachable m => m ∈ r.calls.methods
  | .calls e => e ∈ r.calls.edges
  | .flows x y => ∃ a b, r.heap.place? a = some x ∧ r.heap.place? b = some y ∧
      r.flow.hasFlow a b = true
  | .pointsTo x site => ∃ a o, r.heap.place? a = some x ∧ r.heap.site? o = some site ∧
      o ∈ r.pointsTo a

theorem Says.of_pointsTo_var {v : VarId} {site : Location} (h : r.Says (.pointsTo (.var v) site)) :
    ∃ o, r.heap.site? o = some site ∧ o ∈ r.pointsTo (.var v) := by
  obtain ⟨a, o, ha, ho, hmem⟩ := h
  rw [Heap.eq_var_of_place? ha] at hmem
  exact ⟨o, ho, hmem⟩

/-- Objects have different allocation sites, and the types that are allocated there. -/
structure Named (r : Result) (p : Program) : Prop where
  nodup : r.heap.siteList.Nodup
  typed : ∀ {o obj}, r.heap.obj? o = some obj → p.allocated? obj.site = some obj.ty

/-- The rules for instance calls, for an object given by its allocation site. -/
theorem Fixpoint.target (h : r.Fixpoint p entry) (hnamed : r.Named p) {loc site : Location}
    {call : Invoke} {receiver : VarId} {ty : Ty} {callee : MethodId}
    (hm : loc.method ∈ r.calls.methods) (hs : p.stmt? loc = some (.invoke call))
    (hr : call.receiver = some receiver) (ho : r.Says (.pointsTo (.var receiver) site))
    (hty : p.allocated? site = some ty) (hc : p.Target call ty callee) :
    ⟨call.kind, loc, callee⟩ ∈ r.calls.edges ∧ ∀ {method self}, p.method? callee = some method →
      method.self = some self → r.Says (.pointsTo (.var self) site) := by
  obtain ⟨o, hsite, ho⟩ := ho.of_pointsTo_var
  obtain ⟨obj, hobj, hcalls⟩ := h.callInstance hm hs hr ho
  have hobj' : obj.site = site := by
    exact Option.some.inj ((Heap.site?_of_obj? hobj).symm.trans hsite)
  -- the target depends on the type of the object, and the site determines the type
  have htyped := hnamed.typed hobj
  rw [hobj', hty, Option.some.injEq] at htyped
  subst htyped
  obtain ⟨hedge, hself⟩ := hcalls hc
  exact ⟨hedge, fun hd hv => ⟨_, o, rfl, hsite, hself hd hv⟩⟩

/-- What a fixpoint says is closed under the rules. -/
theorem Fixpoint.closed (h : r.Fixpoint p entry) (hnamed : r.Named p) :
    Closed p entry r.Says := by
  intro fact himmediate
  -- one case for each rule; the rules about heap accesses and calls go through the object of a site
  cases himmediate with
  | entry => exact h.entry
  | new hm hs =>
    obtain ⟨o, hat, _, ho⟩ := h.new hm hs
    exact ⟨_, o, rfl, Heap.site?_of_at? hat, ho⟩
  | copy hm hs => exact ⟨_, _, rfl, rfl, h.copy hm hs⟩
  | cast hm hs => exact ⟨_, _, rfl, rfl, h.cast hm hs⟩
  | loadStatic hm hs => exact ⟨_, _, rfl, rfl, h.loadStatic hm hs⟩
  | storeStatic hm hs => exact ⟨_, _, rfl, rfl, h.storeStatic hm hs⟩
  | loadField hm hs ho =>
    obtain ⟨o, hsite, ho⟩ := ho.of_pointsTo_var
    exact ⟨_, _, by simp [Heap.place?, hsite], rfl, h.loadField hm hs ho⟩
  | storeField hm hs ho =>
    obtain ⟨o, hsite, ho⟩ := ho.of_pointsTo_var
    exact ⟨_, _, rfl, by simp [Heap.place?, hsite], h.storeField hm hs ho⟩
  | loadArray hm hs ho =>
    obtain ⟨o, hsite, ho⟩ := ho.of_pointsTo_var
    exact ⟨_, _, by simp [Heap.place?, hsite], rfl, h.loadArray hm hs ho⟩
  | storeArray hm hs ho =>
    obtain ⟨o, hsite, ho⟩ := ho.of_pointsTo_var
    exact ⟨_, _, rfl, by simp [Heap.place?, hsite], h.storeArray hm hs ho⟩
  | callStatic hm hs hk hc => exact h.callStatic hm hs hk hc
  | callInstance hm hs hr ho hty hc => exact (h.target hnamed hm hs hr ho hty hc).1
  | bind hm hs hr ho hty hc hd hself => exact (h.target hnamed hm hs hr ho hty hc).2 hd hself
  | callee he => exact (h.callee he).1
  | argument he hs hd hz =>
    obtain ⟨_, call, method, hs', _, hd', hpasses⟩ := h.callee he
    cases hs.symm.trans hs'
    cases hd.symm.trans hd'
    exact ⟨_, _, rfl, rfl, hpasses.argument hz⟩
  | result he hs hd hr hres =>
    obtain ⟨_, call, method, hs', _, hd', hpasses⟩ := h.callee he
    cases hs.symm.trans hs'
    cases hd.symm.trans hd'
    exact ⟨_, _, rfl, rfl, hpasses.result hr hres⟩
  | flow hf ho =>
    obtain ⟨a, b, ha, hb, hflow⟩ := hf
    obtain ⟨a', o, ha', hsite, ho⟩ := ho
    -- the edge and the object are said of one place, which has one pointer
    have hsame := Heap.place?_injective hnamed.nodup ha' ha
    subst hsame
    exact ⟨b, o, hb, hsite, h.flow hflow ho⟩

theorem ContainedIn.fact {F : Fact → Prop} (h : r.ContainedIn F) {fact : Fact}
    (hsaid : r.Says fact) : F fact := by
  cases fact with
  | reachable m => exact h.methods m hsaid
  | calls e => exact h.calls e hsaid
  | flows x y =>
    obtain ⟨a, b, ha, hb, hflow⟩ := hsaid
    obtain ⟨i, j, hi, hj, hedge⟩ := FlowGraph.hasFlow_iff.1 hflow
    obtain ⟨a', b', x', y', ha', hb', hx', hy', hfact⟩ := h.flows (i, j) hedge
    cases (FlowGraph.pointer?_of_find? hi).symm.trans ha'
    cases (FlowGraph.pointer?_of_find? hj).symm.trans hb'
    cases ha.symm.trans hx'
    cases hb.symm.trans hy'
    exact hfact
  | pointsTo x site =>
    obtain ⟨a, o, ha, hsite, ho⟩ := hsaid
    obtain ⟨x', site', hx', hsite', hfact⟩ := h.pointsTo a o ho
    cases ha.symm.trans hx'
    cases hsite.symm.trans hsite'
    exact hfact

/-! ## §3 Exactness -/

/-- The result says exactly what can be derived, and has the tables to say it and no more. -/
structure Exact (r : Result) (p : Program) (entry : MethodId) : Prop extends Named r p where
  pointersNodup : r.flow.pointerList.Nodup
  methodsNodup : r.calls.methods.Nodup
  callsNodup : r.calls.edges.Nodup
  entries : r.calls.entries = [entry]
  facts : ∀ fact, r.Says fact ↔ Derivable p entry fact
  /-- The objects are those of the allocations in reachable methods. -/
  sites : ∀ site, site ∈ r.heap.siteList ↔
    Derivable p entry (.reachable site.method) ∧ (p.allocated? site).isSome
  /-- The nodes are the pointers that the derivable facts call for. -/
  nodes : ∀ pointer ∈ r.flow.pointerList, ∃ place, r.heap.place? pointer = some place ∧
    Listed p (Derivable p entry) place
  listed : ∀ place, Listed p (Derivable p entry) place →
    ∃ pointer ∈ r.flow.pointerList, r.heap.place? pointer = some place
  edges : ∀ e ∈ r.flow.edges, ∃ a b, r.flow.pointer? e.1 = some a ∧ r.flow.pointer? e.2 = some b
  located : ∀ pointer, ∀ o ∈ r.pointsTo pointer, ∃ site, r.heap.site? o = some site

end Result

namespace State.Finished

variable {p : Program} {F : Fact → Prop} {entry : MethodId} {s : State}

theorem named (h : Finished p F s) : s.result.Named p where
  nodup := h.supported.sitesNodup
  typed hobj := by
    obtain ⟨lhs, hstmt⟩ := h.supported.objects _ _ hobj
    exact Program.allocated?_eq hstmt

theorem facts_iff (h : Finished p (Derivable p entry) s) (hp : p.WellFormed)
    (hentry : entry ∈ s.calls.methods) (fact : Fact) :
    s.result.Says fact ↔ Derivable p entry fact :=
  ⟨h.supported.containedIn.fact, fun hfact =>
    hfact.holds ((h.fixpoint hp hentry).closed h.named)⟩

theorem mem_siteList_iff (h : Finished p (Derivable p entry) s) (hp : p.WellFormed)
    (hentry : entry ∈ s.calls.methods) (site : Location) :
    site ∈ s.heap.siteList ↔
      Derivable p entry (.reachable site.method) ∧ (p.allocated? site).isSome := by
  rw [← h.facts_iff hp hentry]
  constructor
  · intro hsite
    obtain ⟨i, hi⟩ := List.mem_iff_getElem?.1 hsite
    rw [Heap.siteList, List.getElem?_map, Option.map_eq_some_iff] at hi
    obtain ⟨obj, hobj, rfl⟩ := hi
    have hobj' : s.heap.obj? ⟨i⟩ = some obj := Heap.obj?_eq.trans hobj
    refine ⟨(h.waiting.objects _ obj hobj').1, ?_⟩
    rw [h.named.typed hobj']
    rfl
  · rintro ⟨hmethod, halloc⟩
    obtain ⟨ty, hty⟩ := Option.isSome_iff_exists.1 halloc
    unfold Program.allocated? at hty
    split at hty
    · rename_i lhs ty' hstmt
      obtain ⟨o, hat, _⟩ := h.new hmethod hstmt
      by_contra hnot
      rw [Heap.at?_eq_none_iff.2 hnot] at hat
      exact absurd hat.symm (Option.some_ne_none o)
    · simp at hty

/-- Every place that the derivable facts call for is a node. -/
theorem exists_node (h : Finished p (Derivable p entry) s) (hp : p.WellFormed)
    (hentry : entry ∈ s.calls.methods) {place : Place}
    (hlisted : Listed p (Derivable p entry) place) :
    ∃ pointer ∈ s.flow.pointerList, s.heap.place? pointer = some place := by
  cases hlisted with
  | pointing hfact =>
    obtain ⟨a, o, ha, _, ho⟩ := (h.facts_iff hp hentry _).2 hfact
    obtain ⟨id, hfind, _⟩ := FlowGraph.mem_pointsTo.1 ho
    exact ⟨a, FlowGraph.mem_pointerList_of_pointer? (FlowGraph.pointer?_of_find? hfind), ha⟩
  | source hfact =>
    obtain ⟨a, b, ha, _, hflow⟩ := (h.facts_iff hp hentry _).2 hfact
    obtain ⟨i, j, hi, _, _⟩ := FlowGraph.hasFlow_iff.1 hflow
    exact ⟨a, FlowGraph.mem_pointerList_of_pointer? (FlowGraph.pointer?_of_find? hi), ha⟩
  | target hfact =>
    obtain ⟨a, b, _, hb, hflow⟩ := (h.facts_iff hp hentry _).2 hfact
    obtain ⟨i, j, _, hj, _⟩ := FlowGraph.hasFlow_iff.1 hflow
    exact ⟨b, FlowGraph.mem_pointerList_of_pointer? (FlowGraph.pointer?_of_find? hj), hb⟩
  | result hfact hstmt hresult =>
    -- the node of a result is there even if the callee returns nothing
    have hedge := (h.facts_iff hp hentry _).2 hfact
    obtain ⟨_, hcallee, hpassed⟩ := h.linked _ hedge
    obtain ⟨method, hmethod⟩ := h.method_exists hcallee
    exact ⟨_, ((hpassed _ hstmt method hmethod).2 _ hresult).1, rfl⟩

end State.Finished

/-- **Exactness**: whatever the order, the analysis finds exactly what can be derived. -/
theorem Program.solve_exact {p : Program} {entry : MethodId} (hp : p.WellFormed)
    (hentry : entry.index < p.methods.size) (order : WorkOrder) :
    (p.solve order entry).result.Exact p entry := by
  have hclosed := Derivable.closed p entry
  have h := solve_finished hp hclosed hentry order
  have hmem := entry_mem_solve hp hclosed hentry order
  exact
    { h.named with
      pointersNodup := h.supported.pointersNodup
      methodsNodup := h.waiting.methodsNodup
      callsNodup := h.supported.callsNodup
      entries := entries_solve hp hclosed hentry order
      facts := h.facts_iff hp hmem
      sites := h.mem_siteList_iff hp hmem
      nodes := fun pointer hpointer => (h.supported.nodes pointer hpointer).2
      listed := fun _ hlisted => h.exists_node hp hmem hlisted
      edges := fun e he => by
        obtain ⟨a, b, _, _, ha, hb, _⟩ := h.supported.containedIn.flows e he
        exact ⟨a, b, ha, hb⟩
      located := fun pointer o ho => by
        obtain ⟨_, site, _, hsite, _⟩ := h.supported.containedIn.pointsTo pointer o ho
        exact ⟨site, hsite⟩ }

end PointsTo
