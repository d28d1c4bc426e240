import Mathlib.Data.Finset.Basic
import Mathlib.Data.List.Destutter
import PointsTo.Proofs.CallRecords

/-!
# Call graphs as tables

A call graph can be kept in tables that make its questions quick to answer: a multigraph whose arcs carry
lists of call edges, the positions of its nodes, the reachable methods and the call edges in order, and the
set of pairs of sites and methods that have an edge. Most of this can be told from the rest. An addition
updates several tables, and looks up in one what it writes to another.

All of it is determined by the call graph. The tables of a graph, followed by an addition, are the tables
of the graph after the addition, so they never disagree.

- `CallTables`: the tables, with the additions and the questions that they answer.
- `CallTables.ofGraph`: the tables of a call graph.
- `CallTables.after?_eq`: every sequence of additions succeeds, and leaves the tables of the graph behind.
- `CallTables.Coherent`: how the tables agree.
- `CallGraph.tables_exact`: they do, after every sequence of additions.
-/

namespace PointsTo

/-! ## §1 Multigraphs -/

/-- An arc of a multigraph, between the positions of two nodes. -/
structure Multigraph.Arc (ε : Type) where
  source : Nat
  target : Nat
  weight : ε

/-- A directed graph that only grows. Nodes and arcs are addressed by their positions, and there can be
    any number of arcs between two nodes. -/
structure Multigraph (ν ε : Type) where
  nodes : List ν := []
  arcs : List (Multigraph.Arc ε) := []

namespace Multigraph

variable {ν ε : Type}

/-- Adds a node, and tells its position. -/
def addNode (g : Multigraph ν ε) (a : ν) : Multigraph ν ε × Nat :=
  ({ g with nodes := g.nodes ++ [a] }, g.nodes.length)

/-- Adds an arc. -/
def addArc (g : Multigraph ν ε) (source target : Nat) (weight : ε) : Multigraph ν ε :=
  { g with arcs := g.arcs ++ [⟨source, target, weight⟩] }

/-- The position of an arc between two nodes. -/
def findArc? (g : Multigraph ν ε) (source target : Nat) : Option Nat :=
  g.arcs.findIdx? fun arc => arc.source = source && arc.target = target

/-- Changes the weight of an arc. -/
def updateArc (g : Multigraph ν ε) (k : Nat) (f : ε → ε) : Multigraph ν ε :=
  { g with arcs := g.arcs.modify k fun arc => { arc with weight := f arc.weight } }

end Multigraph

/-! ## §2 Tables -/

/-- A call graph as six tables: the multigraph, the positions of its nodes, the entry methods, the
    reachable methods, the call edges, and the pairs of sites and methods that they join. -/
structure CallTables where
  graph : Multigraph MethodId (List CallEdge) := {}
  index : MethodId → Option Nat := fun _ => none
  entries : List MethodId := []
  methods : List MethodId := []
  edges : List CallEdge := []
  pairs : Finset (Location × MethodId) := ∅

namespace CallTables

/-- Adds an entry method, unless it is one already. -/
def addEntry (t : CallTables) (m : MethodId) : CallTables :=
  if t.entries.contains m then t else { t with entries := t.entries ++ [m] }

/-- Adds a reachable method, and tells whether it is new. -/
def addMethod (t : CallTables) (m : MethodId) : CallTables × Bool :=
  if (t.index m).isSome then (t, false)
  else
    let (graph, position) := t.graph.addNode m
    ({ t with
        graph
        index := Function.update t.index m (some position)
        methods := t.methods ++ [m] }, true)

/-- Adds a call edge, and tells whether it is new. The positions of its methods are looked up after both
    have been made reachable; there would be no answer if one of them were missing. -/
def addEdge? (t : CallTables) (e : CallEdge) : Option (CallTables × Bool) :=
  if e.key ∈ t.pairs then some (t, false)
  else do
    let t := { t with pairs := insert e.key t.pairs }
    -- nothing can reject the edge from here on
    let t := (t.addMethod e.caller).1
    let t := (t.addMethod e.callee).1
    let source ← t.index e.caller
    let target ← t.index e.callee
    let graph :=
      match t.graph.findArc? source target with
      | some k => t.graph.updateArc k (· ++ [e])
      | none => t.graph.addArc source target [e]
    return ({ t with graph, edges := t.edges ++ [e] }, true)

/-- What an addition leaves behind. -/
def add? (t : CallTables) : CallGraph.Addition → Option CallTables
  | .entry m => some (t.addEntry m)
  | .method m => some (t.addMethod m).1
  | .edge e => (t.addEdge? e).map Prod.fst

/-- What a sequence of additions leaves behind. -/
def after? (additions : List CallGraph.Addition) : Option CallTables :=
  additions.foldlM add? {}

/-- The edges that leave a call site. -/
def edgesFrom (t : CallTables) (site : Location) : List CallEdge := t.edges.filter (·.site = site)

/-- The edges that lead to a method. -/
def edgesInto (t : CallTables) (m : MethodId) : List CallEdge := t.edges.filter (·.callee = m)

/-- The methods that a call site calls, sorted. -/
def calleesOf (t : CallTables) (site : Location) : List MethodId :=
  ((t.edgesFrom site).map CallEdge.callee).mergeSort fun a b => a.index ≤ b.index

/-- The methods that call a method, sorted, with repeated ones removed. -/
def callersOf (t : CallTables) (m : MethodId) : List MethodId :=
  (((t.edgesInto m).map CallEdge.caller).mergeSort fun a b => a.index ≤ b.index).destutter (· ≠ ·)

/-! ## §3 The tables of a call graph -/

/-- The tables of a call graph. -/
def ofGraph (g : CallGraph) : CallTables where
  graph :=
    { nodes := g.methods
      arcs := g.arcs.map fun arc =>
        ⟨g.methods.idxOf arc.caller, g.methods.idxOf arc.callee, arc.calls⟩ }
  index := g.indexOf?
  entries := g.entries
  methods := g.methods
  edges := g.edges
  pairs := (g.edges.map CallEdge.key).toFinset

variable {g : CallGraph}

/-- A method that is added at the end gets the next position, and the others keep theirs. -/
theorem idxOf?_concat {l : List MethodId} {m : MethodId} (hm : m ∉ l) :
    (l ++ [m]).idxOf? = Function.update l.idxOf? m (some l.length) := by
  funext x
  have happend : (l ++ [m]).idxOf? x =
      (l.idxOf? x).or (([m].idxOf? x).map fun i => i + l.length) := by
    simp [List.idxOf?, List.findIdx?_append]
  rw [happend]
  by_cases hx : x = m
  · subst hx
    rw [Function.update_self, List.idxOf?_eq_none_iff.2 hm]
    simp
  · rw [Function.update_of_ne hx]
    simp [Ne.symm hx]

/-- What is found depends on the members only. -/
theorem findIdx?_congr_of_mem {α : Type} {l : List α} {f f' : α → Bool} (h : ∀ a ∈ l, f a = f' a) :
    l.findIdx? f = l.findIdx? f' := by
  induction l with
  | nil => rfl
  | cons a rest ih =>
    rw [List.findIdx?_cons, List.findIdx?_cons, h a List.mem_cons_self,
      ih fun b hb => h b (List.mem_cons_of_mem a hb)]

theorem addEntry_ofGraph (g : CallGraph) (m : MethodId) :
    (ofGraph g).addEntry m = ofGraph (g.addEntry m) := by
  have hentries : (ofGraph g).entries.contains m = true ↔ m ∈ g.entries := List.contains_iff_mem
  unfold addEntry CallGraph.addEntry
  by_cases hm : m ∈ g.entries
  · rw [if_pos hm, if_pos (hentries.2 hm)]
  · rw [if_neg hm, if_neg (hentries.not.2 hm)]
    rfl

/-- Adding a reachable method keeps the tables together. -/
theorem addMethod_ofGraph (h : g.Sound) (m : MethodId) :
    (ofGraph g).addMethod m = (ofGraph (g.addMethod m).1, (g.addMethod m).2) := by
  have hindex : ((ofGraph g).index m).isSome = true ↔ m ∈ g.methods := List.isSome_idxOf?
  by_cases hm : m ∈ g.methods
  · rw [addMethod, if_pos (hindex.2 hm), CallGraph.addMethod, if_pos hm]
  · rw [addMethod, if_neg (mt hindex.1 hm), CallGraph.addMethod, if_neg hm]
    -- the methods of the arcs keep their positions
    have harcs : g.arcs.map (fun arc => (⟨(g.methods ++ [m]).idxOf arc.caller,
        (g.methods ++ [m]).idxOf arc.callee, arc.calls⟩ : Multigraph.Arc (List CallEdge))) =
        (ofGraph g).graph.arcs := by
      apply List.map_congr_left
      intro arc harc
      obtain ⟨hcaller, hcallee⟩ := h.ends_of_mem_arcs harc
      rw [List.idxOf_append_of_mem hcaller, List.idxOf_append_of_mem hcallee]
    have hpositions : ({ g with methods := g.methods ++ [m] } : CallGraph).indexOf? =
        Function.update g.indexOf? m (some g.methods.length) := idxOf?_concat hm
    simp only [ofGraph, hpositions, harcs]
    rfl

/-- The pairs of sites and methods play no part when a reachable method is added. -/
theorem addMethod_pairs (t : CallTables) (pairs : Finset (Location × MethodId)) (m : MethodId) :
    ({ t with pairs } : CallTables).addMethod m =
      ({ (t.addMethod m).1 with pairs }, (t.addMethod m).2) := by
  unfold addMethod
  split <;> rfl

theorem index_ofGraph {m : MethodId} (hm : m ∈ g.methods) :
    (ofGraph g).index m = some (g.methods.idxOf m) := by
  obtain ⟨i, hi⟩ := Option.isSome_iff_exists.1 (List.isSome_idxOf?.2 hm)
  rw [List.idxOf_eq_getD_idxOf?, hi]
  exact hi

/-- The arc between two methods has the same position in the multigraph as in the call graph. -/
theorem findArc?_ofGraph (h : g.Sound) (e : CallEdge) :
    (ofGraph g).graph.findArc? (g.methods.idxOf e.caller) (g.methods.idxOf e.callee) =
      g.arcs.findIdx? (·.ends = e.ends) := by
  rw [Multigraph.findArc?, ofGraph, List.findIdx?_map]
  -- the arcs have methods with positions, and positions tell methods apart
  apply findIdx?_congr_of_mem
  intro arc harc
  obtain ⟨hcaller', hcallee'⟩ := h.ends_of_mem_arcs harc
  simp only [Function.comp_apply, List.idxOf_inj hcaller', List.idxOf_inj hcallee', ends_eq_iff,
    Bool.decide_and]

/-- Recording a call in the multigraph and recording it among the arcs is the same. -/
theorem record_ofGraph (h : g.Sound) (e : CallEdge) :
    (match (ofGraph g).graph.findArc? (g.methods.idxOf e.caller) (g.methods.idxOf e.callee) with
      | some k => (ofGraph g).graph.updateArc k (· ++ [e])
      | none => (ofGraph g).graph.addArc (g.methods.idxOf e.caller) (g.methods.idxOf e.callee) [e]) =
      (ofGraph { g with arcs := CallGraph.recordCall e g.arcs }).graph := by
  rw [findArc?_ofGraph h e]
  simp only [ofGraph, recordCall_eq]
  cases g.arcs.findIdx? (·.ends = e.ends) with
  | none => simp [Multigraph.addArc]
  | some k =>
    simp only [Multigraph.updateArc]
    congr 1
    apply List.ext_getElem?
    intro j
    simp only [List.getElem?_map, List.getElem?_modify]
    split <;> simp [Function.comp_def]

/-- Adding a call edge keeps the tables together. -/
theorem addEdge?_ofGraph (h : g.Sound) (e : CallEdge) :
    (ofGraph g).addEdge? e = some (ofGraph (g.addEdge e).1, (g.addEdge e).2) := by
  have hpairs : e.key ∈ (ofGraph g).pairs ↔ e.key ∈ g.edges.map CallEdge.key := List.mem_toFinset
  by_cases hknown : e.key ∈ g.edges.map CallEdge.key
  · rw [addEdge?, if_pos (hpairs.2 hknown), CallGraph.addEdge_of_known hknown]
  · rw [addEdge?, if_neg (mt hpairs.1 hknown), CallGraph.addEdge_of_new hknown]
    simp only [addMethod_pairs, addMethod_ofGraph h, addMethod_ofGraph (h.addMethod e.caller)]
    -- both methods are reachable by now, so their positions are known
    have hsound := (h.addMethod e.caller).addMethod e.callee
    have hedges : ((g.addMethod e.caller).1.addMethod e.callee).1.edges = g.edges := by
      rw [CallGraph.edges_addMethod, CallGraph.edges_addMethod]
    have harcs : ((g.addMethod e.caller).1.addMethod e.callee).1.arcs = g.arcs := by
      rw [CallGraph.arcs_addMethod, CallGraph.arcs_addMethod]
    have hcaller : e.caller ∈ ((g.addMethod e.caller).1.addMethod e.callee).1.methods := by
      simp [CallGraph.mem_methods_addMethod]
    have hcallee : e.callee ∈ ((g.addMethod e.caller).1.addMethod e.callee).1.methods := by
      simp [CallGraph.mem_methods_addMethod]
    generalize ((g.addMethod e.caller).1.addMethod e.callee).1 = g' at *
    simp only [index_ofGraph hcaller, index_ofGraph hcallee, Option.bind_eq_bind, Option.bind_some,
      record_ofGraph hsound e]
    have hinsert : insert e.key (g.edges.map CallEdge.key).toFinset =
        ((g.edges ++ [e]).map CallEdge.key).toFinset := by
      ext key
      simp only [Finset.mem_insert, List.mem_toFinset, List.map_append, List.map_singleton,
        List.mem_append, List.mem_singleton]
      exact or_comm
    simp only [ofGraph, hedges, harcs, hinsert]
    rfl

/-- Every addition keeps the tables together. -/
theorem add?_ofGraph (h : g.Sound) (addition : CallGraph.Addition) :
    (ofGraph g).add? addition = some (ofGraph (g.add addition)) := by
  cases addition with
  | entry m => rw [add?, addEntry_ofGraph, CallGraph.add]
  | method m => rw [add?, addMethod_ofGraph h, CallGraph.add]
  | edge e => rw [add?, addEdge?_ofGraph h, Option.map_some, CallGraph.add]

theorem after?_eq (additions : List CallGraph.Addition) :
    after? additions = some (ofGraph (CallGraph.after additions)) := by
  have hfoldl : ∀ (l : List CallGraph.Addition) (g : CallGraph), g.Sound →
      l.foldlM add? (ofGraph g) = some (ofGraph (l.foldl CallGraph.add g)) := by
    intro l
    induction l with
    | nil => exact fun _ _ => rfl
    | cons addition rest ih =>
      intro g hg
      -- the graph stays sound, so the next addition finds the tables together again
      rw [List.foldlM_cons, add?_ofGraph hg, List.foldl_cons]
      exact ih (g.add addition) (hg.add addition)
  exact hfoldl additions {} CallGraph.sound_empty

/-! ## §4 Sorted lists of identifiers -/

theorem pairwise_sorted {table : Table} (l : List (Id table)) :
    (l.mergeSort fun a b => a.index ≤ b.index).Pairwise fun a b => a.index ≤ b.index := by
  have hsorted : (l.mergeSort fun a b => a.index ≤ b.index).Pairwise fun a b =>
      decide (a.index ≤ b.index) = true := by
    apply List.pairwise_mergeSort
    · intro a b c hab hbc
      simp only [decide_eq_true_eq] at *
      exact Nat.le_trans hab hbc
    · intro a b
      simpa using Nat.le_total a.index b.index
  simpa using hsorted

/-- A sorted list in which neighbours differ ascends strictly. -/
theorem pairwise_lt_of_isChain_ne {l : List MethodId}
    (hle : l.Pairwise fun a b => a.index ≤ b.index) (hne : l.IsChain (· ≠ ·)) :
    l.Pairwise fun a b => a.index < b.index := by
  induction l with
  | nil => exact List.Pairwise.nil
  | cons a rest ih =>
    obtain ⟨hfirst, hrest⟩ := List.pairwise_cons.1 hle
    refine List.pairwise_cons.2 ⟨?_, ih hrest hne.tail⟩
    intro c hc
    cases rest with
    | nil => simp at hc
    | cons b rest =>
      -- the step from the first to the second member is strict, and the rest is not below the second
      have hab : a.index < b.index := by
        refine Nat.lt_of_le_of_ne (hfirst b List.mem_cons_self) fun heq => ?_
        exact (List.isChain_cons_cons.1 hne).1 (congrArg Id.mk heq)
      rcases List.mem_cons.1 hc with rfl | hc
      · exact hab
      · exact Nat.lt_of_lt_of_le hab ((List.pairwise_cons.1 hrest).1 c hc)

/-- Removing repeated neighbours removes no member. -/
theorem mem_destutter {l : List MethodId} {m : MethodId} : m ∈ l.destutter (· ≠ ·) ↔ m ∈ l := by
  have hcons : ∀ (l : List MethodId) (a : MethodId), m ∈ l.destutter' (· ≠ ·) a ↔ m ∈ a :: l := by
    intro l
    induction l with
    | nil => exact fun _ => Iff.rfl
    | cons b rest ih =>
      intro a
      rw [List.destutter'_cons]
      by_cases hab : a = b
      · simp [hab, ih]
      · simp [hab, ih]
  cases l with
  | nil => rfl
  | cons a rest => exact hcons rest a

variable {t : CallTables}

/-- The callees of a site ascend strictly, if no method is called twice from there. -/
theorem pairwise_calleesOf (h : (t.edges.map CallEdge.key).Nodup) (site : Location) :
    (t.calleesOf site).Pairwise fun a b => a.index < b.index := by
  have hcallees : ((t.edgesFrom site).map CallEdge.callee).Nodup := by
    apply (h.of_map.filter _).map_on
    intro e he e' he' hcallee
    obtain ⟨hmem, hsite⟩ := List.mem_filter.1 he
    obtain ⟨hmem', hsite'⟩ := List.mem_filter.1 he'
    -- edges that leave the site can only differ in their callees
    have hsites : e.site = e'.site :=
      (of_decide_eq_true hsite).trans (of_decide_eq_true hsite').symm
    exact List.inj_on_of_nodup_map h hmem hmem' (Prod.ext hsites hcallee)
  apply pairwise_lt_of_isChain_ne (pairwise_sorted _)
  exact List.Pairwise.isChain ((List.mergeSort_perm _ _).nodup_iff.2 hcallees)

theorem pairwise_callersOf (t : CallTables) (m : MethodId) :
    (t.callersOf m).Pairwise fun a b => a.index < b.index := by
  apply pairwise_lt_of_isChain_ne
  · exact (pairwise_sorted _).sublist (List.destutter_sublist _ _)
  · exact List.isChain_destutter _ _

theorem mem_callersOf {m c : MethodId} :
    c ∈ t.callersOf m ↔ c ∈ (t.edgesInto m).map CallEdge.caller := by
  rw [callersOf, mem_destutter, List.mem_mergeSort]

/-- A strictly ascending list of identifiers is the listing of the set of its members. -/
theorem toList_eq_of_mem_iff {table : Table} {s : Ascending (Id table)} {l : List (Id table)}
    (hl : l.Pairwise fun a b => a.index < b.index) (h : ∀ m, m ∈ s ↔ m ∈ l) : s.toList = l := by
  have hsorted : l.Pairwise Ranked.Before := by
    apply hl.imp
    intro a b hab
    exact List.cons_lt_cons_iff.2 (Or.inl hab)
  have hsame : s = ⟨l, hsorted⟩ := Ascending.ext_mem h
  rw [hsame]

/-! ## §5 Coherence -/

/-- The tables agree with each other, and hold the accepted edges. -/
structure Coherent (t : CallTables) (accepted : List CallEdge) : Prop where
  /-- Every reachable method is listed once. -/
  nodup_methods : t.methods.Nodup
  /-- The nodes of the multigraph are the reachable methods, in the same order. -/
  nodes : t.graph.nodes = t.methods
  /-- A position is where the method stands among the reachable methods and among the nodes. -/
  index : ∀ {m i}, t.index m = some i ↔ t.methods[i]? = some m ∧ t.graph.nodes[i]? = some m
  /-- The edges are the accepted ones, in the order of their acceptance. -/
  edges : t.edges = accepted
  /-- No two edges lead from one site to one method. -/
  distinct : (t.edges.map fun e => (e.site, e.callee)).Nodup
  pairs : ∀ {site callee}, (site, callee) ∈ t.pairs ↔
    ∃ e ∈ t.edges, e.site = site ∧ e.callee = callee
  /-- Both methods of an edge are nodes. -/
  ends : ∀ {e}, e ∈ t.edges → e.caller ∈ t.graph.nodes ∧ e.callee ∈ t.graph.nodes
  /-- There is at most one arc between two nodes. -/
  arc_unique : (t.graph.arcs.map fun arc => (arc.source, arc.target)).Nodup
  /-- There is an arc between two methods precisely if there is a call. -/
  arc_iff : ∀ {caller callee}, (∃ arc ∈ t.graph.arcs,
      t.graph.nodes[arc.source]? = some caller ∧ t.graph.nodes[arc.target]? = some callee) ↔
    ∃ e ∈ t.edges, e.caller = caller ∧ e.callee = callee
  /-- An arc holds the calls between its methods, in their order among the edges. -/
  weight : ∀ {arc}, arc ∈ t.graph.arcs → ∃ caller callee,
    t.graph.nodes[arc.source]? = some caller ∧ t.graph.nodes[arc.target]? = some callee ∧
      arc.weight = t.edges.filter fun e => e.caller = caller && e.callee = callee
  /-- The callees of a site are strictly ascending, and they are those of the edges that leave it. -/
  callees_ascending : ∀ site, (t.calleesOf site).Pairwise fun a b => a.index < b.index
  callees_perm : ∀ site, (t.calleesOf site).Perm ((t.edgesFrom site).map CallEdge.callee)
  /-- The callers of a method are strictly ascending, and they are those of the edges that lead to it. -/
  callers_ascending : ∀ m, (t.callersOf m).Pairwise fun a b => a.index < b.index
  mem_callers : ∀ {m c}, c ∈ t.callersOf m ↔ ∃ e ∈ t.edgesInto m, e.caller = c

/-- The node at the position of a reachable method. -/
theorem node_ofGraph {m : MethodId} (hm : m ∈ g.methods) :
    (ofGraph g).graph.nodes[g.methods.idxOf m]? = some m :=
  List.getElem?_idxOf hm

/-- The arcs of the multigraph, and where they lead. -/
theorem mem_arcs_ofGraph (h : g.Sound) {arc : Multigraph.Arc (List CallEdge)}
    (harc : arc ∈ (ofGraph g).graph.arcs) : ∃ old ∈ g.arcs, arc.weight = old.calls ∧
      (ofGraph g).graph.nodes[arc.source]? = some old.caller ∧
      (ofGraph g).graph.nodes[arc.target]? = some old.callee := by
  obtain ⟨old, hold, rfl⟩ := List.mem_map.1 harc
  obtain ⟨hcaller, hcallee⟩ := h.ends_of_mem_arcs hold
  exact ⟨old, hold, rfl, node_ofGraph hcaller, node_ofGraph hcallee⟩

/-- The tables of a sound call graph are coherent. -/
theorem coherent_ofGraph (h : g.Sound) : (ofGraph g).Coherent g.edges where
  nodup_methods := h.nodup
  nodes := rfl
  index {m i} := by
    constructor
    · intro hi
      exact ⟨getElem?_of_idxOf? hi, getElem?_of_idxOf? hi⟩
    · rintro ⟨hi, _⟩
      exact idxOf?_of_getElem? h.nodup hi
  edges := rfl
  distinct := h.distinct
  pairs := by simp [ofGraph, CallEdge.key]
  ends he := h.ends _ he
  arc_unique := by
    have hends : (g.arcs.map Arc.ends).Nodup := h.arcs ▸ nodup_ends_arcsOf g.edges
    simp only [ofGraph, List.map_map, Function.comp_def]
    -- arcs between the same positions join the same methods
    apply hends.of_map.map_on
    intro arc harc arc' harc' heq
    obtain ⟨hcaller, hcallee⟩ := h.ends_of_mem_arcs harc
    simp only [Prod.mk.injEq, List.idxOf_inj hcaller, List.idxOf_inj hcallee] at heq
    exact List.inj_on_of_nodup_map hends harc harc' (Prod.ext heq.1 heq.2)
  arc_iff {caller callee} := by
    have hcalls : (caller, callee) ∈ g.arcs.map Arc.ends ↔
        (caller, callee) ∈ g.edges.map CallEdge.ends := h.arcs ▸ mem_ends_arcsOf
    have hedges : (∃ e ∈ g.edges, e.caller = caller ∧ e.callee = callee) ↔
        (caller, callee) ∈ g.edges.map CallEdge.ends := by
      simp [CallEdge.ends]
    refine Iff.trans ?_ (hcalls.trans hedges.symm)
    constructor
    · rintro ⟨arc, harc, hsource, htarget⟩
      obtain ⟨old, hold, _, hcaller, hcallee⟩ := mem_arcs_ofGraph h harc
      refine List.mem_map.2 ⟨old, hold, Prod.ext ?_ ?_⟩
      · exact Option.some.inj (hcaller.symm.trans hsource)
      · exact Option.some.inj (hcallee.symm.trans htarget)
    · intro hmem
      obtain ⟨arc, harc, heq⟩ := List.mem_map.1 hmem
      obtain ⟨hcaller, hcallee⟩ := h.ends_of_mem_arcs harc
      cases heq
      exact ⟨_, List.mem_map_of_mem harc, node_ofGraph hcaller, node_ofGraph hcallee⟩
  weight {arc} harc := by
    obtain ⟨old, hold, hweight, hcaller, hcallee⟩ := mem_arcs_ofGraph h harc
    refine ⟨old.caller, old.callee, hcaller, hcallee, ?_⟩
    rw [h.arcs] at hold
    rw [hweight, calls_of_mem_arcsOf hold]
    apply List.filter_congr
    intro e _
    simp [CallEdge.ends, Arc.ends]
  callees_ascending site := pairwise_calleesOf h.distinct site
  callees_perm site := List.mergeSort_perm _ _
  callers_ascending m := pairwise_callersOf _ m
  mem_callers {m c} := by rw [mem_callersOf, List.mem_map]

end CallTables

/-! ## §6 After any sequence of additions -/

namespace CallGraph

/-- An edge is accepted precisely if none was accepted before from the same site to the same method. -/
theorem addEdge_snd_iff {g : CallGraph} {e : CallEdge} :
    (g.addEdge e).2 = true ↔ ∀ x ∈ g.edges, ¬(x.site = e.site ∧ x.callee = e.callee) := by
  have hkeys : (∀ x ∈ g.edges, ¬(x.site = e.site ∧ x.callee = e.callee)) ↔
      e.key ∉ g.edges.map CallEdge.key := by
    simp [CallEdge.key]
  rw [hkeys]
  by_cases hknown : e.key ∈ g.edges.map CallEdge.key
  · simp [addEdge_of_known hknown, hknown]
  · simp [addEdge_of_new hknown, hknown]

/-- **The tables of a call graph are coherent.** After every sequence of additions, the six tables that
    can be kept for a call graph agree with each other and with the graph, and they hold precisely the
    edges that were accepted. Adding one more edge has an answer, which tells whether none was accepted
    from the same site to the same method; if one was, nothing changes. -/
theorem tables_exact (additions : List Addition) :
    ∃ t, CallTables.after? additions = some t ∧ t = .ofGraph (after additions) ∧
      t.Coherent (accepted additions) ∧
      (∀ site, ((after additions).calleesOf site).toList = t.calleesOf site) ∧
      (∀ m, ((after additions).callersOf m).toList = t.callersOf m) ∧
      ∀ e, ∃ t' isNew, t.addEdge? e = some (t', isNew) ∧ isNew = ((after additions).addEdge e).2 ∧
        (isNew = true ↔
          ∀ x ∈ accepted additions, ¬(x.site = e.site ∧ x.callee = e.callee)) ∧
        (isNew = false → t' = t) := by
  have hsound := sound_after additions
  have hcoherent := CallTables.coherent_ofGraph hsound
  rw [edges_after] at hcoherent
  refine ⟨_, CallTables.after?_eq additions, rfl, hcoherent, ?_, ?_, ?_⟩
  · intro site
    apply CallTables.toList_eq_of_mem_iff (hcoherent.callees_ascending site)
    intro m
    rw [(hcoherent.callees_perm site).mem_iff]
    exact Ascending.mem_ofList
  · intro m
    apply CallTables.toList_eq_of_mem_iff (hcoherent.callers_ascending m)
    intro c
    rw [CallTables.mem_callersOf]
    exact Ascending.mem_ofList
  · intro e
    refine ⟨_, _, CallTables.addEdge?_ofGraph hsound e, rfl, ?_, ?_⟩
    · rw [addEdge_snd_iff, edges_after]
    · intro hold
      by_cases hknown : e.key ∈ (after additions).edges.map CallEdge.key
      · rw [addEdge_of_known hknown]
      · rw [addEdge_of_new hknown] at hold
        simp at hold

/-- Two calls from one site to two methods, the first of them once more under another kind, and a call
    from another site to the second method. -/
def retagged : List Addition :=
  [.entry ⟨0⟩, .method ⟨0⟩, .edge ⟨.virtual, ⟨⟨0⟩, 1⟩, ⟨2⟩⟩, .edge ⟨.special, ⟨⟨0⟩, 1⟩, ⟨2⟩⟩,
   .edge ⟨.virtual, ⟨⟨0⟩, 1⟩, ⟨1⟩⟩, .edge ⟨.static, ⟨⟨2⟩, 0⟩, ⟨1⟩⟩]

/-- The edge with another kind is left out, and it would be left out again. -/
theorem tables_exact_retagged :
    ∃ t, CallTables.after? retagged = some t ∧
      t.Coherent [⟨.virtual, ⟨⟨0⟩, 1⟩, ⟨2⟩⟩, ⟨.virtual, ⟨⟨0⟩, 1⟩, ⟨1⟩⟩, ⟨.static, ⟨⟨2⟩, 0⟩, ⟨1⟩⟩] ∧
      t.addEdge? ⟨.special, ⟨⟨0⟩, 1⟩, ⟨2⟩⟩ = some (t, false) := by
  obtain ⟨t, hafter, _, hcoherent, _, _, hedge⟩ := tables_exact retagged
  obtain ⟨t', isNew, hadd, hnew, _, hsame⟩ := hedge ⟨.special, ⟨⟨0⟩, 1⟩, ⟨2⟩⟩
  have haccepted : accepted retagged =
      [⟨.virtual, ⟨⟨0⟩, 1⟩, ⟨2⟩⟩, ⟨.virtual, ⟨⟨0⟩, 1⟩, ⟨1⟩⟩, ⟨.static, ⟨⟨2⟩, 0⟩, ⟨1⟩⟩] := by
    decide
  have hrejected : isNew = false := hnew.trans (by decide)
  rw [haccepted] at hcoherent
  rw [hsame hrejected, hrejected] at hadd
  exact ⟨t, hafter, hcoherent, hadd⟩

end CallGraph

end PointsTo
