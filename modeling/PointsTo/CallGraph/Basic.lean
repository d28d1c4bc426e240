import PointsTo.BreadthFirst
import PointsTo.Program.Stmt

/-!
# Call graphs

The nodes are methods, in the order in which they become reachable. A call edge says that a call
site calls a method; a site may call several methods, but no method twice. All call edges between
the same two methods make up one arc of the graph. Methods, edges and arcs are only ever added.
-/

namespace PointsTo

/-- A call site together with a method that it calls. -/
structure CallEdge where
  /-- How the method is found. -/
  kind : CallKind
  /-- The calling statement. -/
  site : Location
  /-- The method called. -/
  callee : MethodId
deriving DecidableEq

namespace CallEdge

/-- The method that holds the call site. -/
def caller (e : CallEdge) : MethodId := e.site.method

/-- Listings order call edges by kind, then site, then callee. -/
instance : Ranked CallEdge where
  rank e := [e.kind.toNat, e.site.method.index, e.site.index, e.callee.index]
  rank_injective {a b} h := by
    obtain ⟨k, ⟨⟨_⟩, _⟩, ⟨_⟩⟩ := a
    obtain ⟨k', ⟨⟨_⟩, _⟩, ⟨_⟩⟩ := b
    simp only [List.cons.injEq] at h
    have hk : k = k' := Ranked.rank_injective (congrArg ([·]) h.1)
    simp_all

end CallEdge

/-- The call edges from one method to another. -/
structure Arc where
  /-- The calling method. -/
  caller : MethodId
  /-- The method called. -/
  callee : MethodId
  /-- The call edges, in the order of their discovery. -/
  calls : List CallEdge
deriving DecidableEq

/-- Reachable methods and the calls between them. -/
structure CallGraph where
  /-- The methods where execution may start. -/
  entries : List MethodId := []
  /-- The nodes: the reachable methods, in the order of their discovery. -/
  methods : List MethodId := []
  /-- The call edges, in the order of their discovery. -/
  edges : List CallEdge := []
  /-- The arcs, in the order of their discovery. -/
  arcs : List Arc := []

namespace CallGraph

/-! ## §1 Growth -/

/-- Adds an entry method, unless it is one already. -/
def addEntry (g : CallGraph) (m : MethodId) : CallGraph :=
  if m ∈ g.entries then g else { g with entries := g.entries ++ [m] }

/-- Adds a reachable method, and tells whether it is new. -/
def addMethod (g : CallGraph) (m : MethodId) : CallGraph × Bool :=
  if m ∈ g.methods then (g, false) else ({ g with methods := g.methods ++ [m] }, true)

/-- Adds a call edge to the arc between its methods, which is created when it is missing. -/
def recordCall (e : CallEdge) : List Arc → List Arc
  | [] => [⟨e.caller, e.callee, [e]⟩]
  | arc :: rest =>
    if arc.caller = e.caller ∧ arc.callee = e.callee then
      { arc with calls := arc.calls ++ [e] } :: rest
    else arc :: recordCall e rest

/-- Whether a site is known to call a method, however the method was found. -/
def hasCall (g : CallGraph) (site : Location) (callee : MethodId) : Bool :=
  g.edges.any fun e => e.site = site && e.callee = callee

/-- Adds a call edge, makes both of its methods reachable, and tells whether it is new. Only the
    site and the callee count: a second edge between them is not new, whatever its kind. -/
def addEdge (g : CallGraph) (e : CallEdge) : CallGraph × Bool :=
  if g.hasCall e.site e.callee then (g, false)
  else
    let g := (g.addMethod e.caller).1
    let g := (g.addMethod e.callee).1
    ({ g with edges := g.edges ++ [e], arcs := recordCall e g.arcs }, true)

theorem mem_methods_addMethod {g : CallGraph} {m x : MethodId} :
    x ∈ (g.addMethod m).1.methods ↔ x = m ∨ x ∈ g.methods := by
  unfold addMethod
  split
  · rename_i hm
    exact ⟨Or.inr, fun h => h.elim (fun hx => hx ▸ hm) fun hx => hx⟩
  · simp [or_comm]

theorem edges_addMethod (g : CallGraph) (m : MethodId) : (g.addMethod m).1.edges = g.edges := by
  unfold addMethod
  split <;> rfl

theorem hasCall_iff {g : CallGraph} {site : Location} {callee : MethodId} :
    g.hasCall site callee = true ↔ ∃ e ∈ g.edges, e.site = site ∧ e.callee = callee := by
  simp [hasCall]

/-- Adding an edge makes known the call from its site to its callee and no other. -/
theorem hasCall_addEdge {g : CallGraph} {e : CallEdge} {site : Location} {callee : MethodId} :
    (g.addEdge e).1.hasCall site callee = true ↔
      (e.site = site ∧ e.callee = callee) ∨ g.hasCall site callee = true := by
  unfold addEdge
  split
  · rename_i hknown
    refine ⟨Or.inr, ?_⟩
    rintro (⟨rfl, rfl⟩ | h)
    · exact hknown
    · exact h
  · simp only [hasCall_iff, edges_addMethod, List.mem_append, List.mem_singleton]
    constructor
    · rintro ⟨x, hx | rfl, hsite⟩
      · exact Or.inr ⟨x, hx, hsite⟩
      · exact Or.inl hsite
    · rintro (h | ⟨x, hx, hsite⟩)
      · exact ⟨e, Or.inr rfl, h⟩
      · exact ⟨x, Or.inl hx, hsite⟩

/-! ## §2 Queries -/

/-- Whether a method is reachable. -/
def contains (g : CallGraph) (m : MethodId) : Bool := m ∈ g.methods

/-- The position of a reachable method. -/
def indexOf? (g : CallGraph) (m : MethodId) : Option Nat := g.methods.idxOf? m

/-- The call edges that leave a call site. -/
def edgesFrom (g : CallGraph) (site : Location) : List CallEdge :=
  g.edges.filter (·.site = site)

/-- The call edges that lead to a method. -/
def edgesInto (g : CallGraph) (m : MethodId) : List CallEdge :=
  g.edges.filter (·.callee = m)

/-- The methods that a call site calls. -/
def calleesOf (g : CallGraph) (site : Location) : Ascending MethodId :=
  Ascending.ofList ((g.edgesFrom site).map CallEdge.callee)

/-- The methods that call a method. -/
def callersOf (g : CallGraph) (m : MethodId) : Ascending MethodId :=
  Ascending.ofList ((g.edgesInto m).map CallEdge.caller)

/-- The call edges from one method to another, if there are any. -/
def callsBetween? (g : CallGraph) (caller callee : MethodId) : Option (List CallEdge) :=
  (g.arcs.find? fun arc => arc.caller = caller && arc.callee = callee).map Arc.calls

/-- The call edges in listing order. -/
def sortedEdges (g : CallGraph) : Ascending CallEdge := Ascending.ofList g.edges

/-! ## §3 Traversal -/

/-- The methods that a method calls, the most recently discovered first. -/
def successors (g : CallGraph) (m : MethodId) : List MethodId :=
  (g.arcs.filter (·.caller = m)).reverse.map Arc.callee

/-- The methods that execution from one method can reach, nearest first. -/
def reachableFrom (g : CallGraph) (m : MethodId) : List MethodId :=
  breadthFirst g.methods.length g.successors [m]

/-- The methods that execution from the entry methods can reach: for each entry in turn, those that
    no earlier entry reaches, nearest first. -/
def traversal (g : CallGraph) : List MethodId :=
  (g.entries.filter g.contains).foldl
    (fun order entry => order ++ (g.reachableFrom entry).filter (· ∉ order)) []

end CallGraph

end PointsTo
