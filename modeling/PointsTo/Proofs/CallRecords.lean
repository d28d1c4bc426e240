import Mathlib.Data.List.Induction
import PointsTo.Proofs.Growth

/-!
# What a call graph records

A call graph is put together by additions in any order: entry methods, reachable methods and call edges.
It keeps more than it needs to, since the arcs can be told from the edges. They are what one gets by
recording the edges one after the other, so that there is one arc for each pair of methods with a call
between them, and it holds precisely those calls.

- `CallGraph.after`, `CallGraph.accepted`: the graph after a sequence of additions, and the edges among
  them that were new.
- `arcsOf`: the arcs that edges make up.
- `CallGraph.Sound`, `CallGraph.sound_after`: what holds after every sequence of additions.
-/

namespace PointsTo

/-! ## §1 Additions -/

/-- Something that is added to a call graph. -/
inductive CallGraph.Addition
  | entry (m : MethodId)
  | method (m : MethodId)
  | edge (e : CallEdge)

namespace CallGraph

/-- The graph that an addition leaves behind. -/
def add (g : CallGraph) : Addition → CallGraph
  | .entry m => g.addEntry m
  | .method m => (g.addMethod m).1
  | .edge e => (g.addEdge e).1

/-- The graph that a sequence of additions leaves behind. -/
def after (additions : List Addition) : CallGraph := additions.foldl add {}

/-- The edges among the additions to a graph that are accepted as new. -/
def acceptedBy (g : CallGraph) : List Addition → List CallEdge
  | [] => []
  | .entry m :: rest => acceptedBy (g.addEntry m) rest
  | .method m :: rest => acceptedBy (g.addMethod m).1 rest
  | .edge e :: rest =>
    let (g, isNew) := g.addEdge e
    if isNew then e :: acceptedBy g rest else acceptedBy g rest

/-- The edges among a sequence of additions that are accepted as new. -/
def accepted (additions : List Addition) : List CallEdge := acceptedBy {} additions

end CallGraph

/-! ## §2 Arcs -/

/-- The methods that a call edge joins. -/
def CallEdge.ends (e : CallEdge) : MethodId × MethodId := (e.caller, e.callee)

/-- The methods that an arc joins. -/
def Arc.ends (arc : Arc) : MethodId × MethodId := (arc.caller, arc.callee)

/-- The site and the method called, which tell call edges apart. -/
def CallEdge.key (e : CallEdge) : Location × MethodId := (e.site, e.callee)

open CallGraph (recordCall)

theorem ends_eq_iff {arc : Arc} {e : CallEdge} :
    arc.ends = e.ends ↔ arc.caller = e.caller ∧ arc.callee = e.callee :=
  Prod.mk.injEq .. ▸ Iff.rfl

/-- Recording a call extends the first arc between its methods, or else adds an arc. -/
theorem recordCall_eq (e : CallEdge) (arcs : List Arc) :
    recordCall e arcs =
      match arcs.findIdx? (·.ends = e.ends) with
      | some k => arcs.modify k fun arc => { arc with calls := arc.calls ++ [e] }
      | none => arcs ++ [⟨e.caller, e.callee, [e]⟩] := by
  induction arcs with
  | nil => rfl
  | cons arc rest ih =>
    simp only [recordCall, ← ends_eq_iff, ih, List.findIdx?_cons]
    by_cases hends : arc.ends = e.ends
    · simp [hends]
    · cases rest.findIdx? (·.ends = e.ends) <;> simp [hends]

/-- Recording a call adds at most one pair of methods. -/
theorem ends_recordCall (e : CallEdge) (arcs : List Arc) :
    (recordCall e arcs).map Arc.ends =
      if e.ends ∈ arcs.map Arc.ends then arcs.map Arc.ends else arcs.map Arc.ends ++ [e.ends] := by
  induction arcs with
  | nil => rfl
  | cons arc rest ih =>
    simp only [recordCall, ← ends_eq_iff]
    by_cases hends : arc.ends = e.ends
    · have hkept : ({ arc with calls := arc.calls ++ [e] } : Arc).ends = arc.ends := rfl
      simp [hends, hkept]
    · rw [if_neg hends, List.map_cons, ih]
      by_cases hrest : e.ends ∈ rest.map Arc.ends
      · simp [hrest]
      · simp [hrest, Ne.symm hends]

/-- Recording a call adds it to the calls between its methods, and to no others. -/
theorem find?_recordCall (e : CallEdge) (arcs : List Arc) (ends : MethodId × MethodId) :
    ((recordCall e arcs).find? (·.ends = ends)).map Arc.calls =
      if e.ends = ends then some (((arcs.find? (·.ends = ends)).map Arc.calls).getD [] ++ [e])
      else (arcs.find? (·.ends = ends)).map Arc.calls := by
  induction arcs with
  | nil =>
    have hnew : (⟨e.caller, e.callee, [e]⟩ : Arc).ends = e.ends := rfl
    by_cases he : e.ends = ends <;> simp [recordCall, hnew, he]
  | cons arc rest ih =>
    simp only [recordCall, ← ends_eq_iff]
    have hkept : ({ arc with calls := arc.calls ++ [e] } : Arc).ends = arc.ends := rfl
    by_cases hends : arc.ends = e.ends
    · -- this arc takes the call, and all later ones are left alone
      by_cases he : e.ends = ends <;> simp [hkept, hends, he]
    · rw [if_neg hends]
      by_cases harc : arc.ends = ends
      · have he : e.ends ≠ ends := fun he => hends (harc.trans he.symm)
        simp [harc, he]
      · simp only [List.find?_cons, harc, decide_false]
        exact ih

/-- The arcs that call edges make up. -/
def arcsOf (edges : List CallEdge) : List Arc := edges.foldl (fun arcs e => recordCall e arcs) []

theorem arcsOf_concat (edges : List CallEdge) (e : CallEdge) :
    arcsOf (edges ++ [e]) = recordCall e (arcsOf edges) := by
  simp [arcsOf]

theorem mem_ends_arcsOf {edges : List CallEdge} {ends : MethodId × MethodId} :
    ends ∈ (arcsOf edges).map Arc.ends ↔ ends ∈ edges.map CallEdge.ends := by
  induction edges using List.reverseRecOn with
  | nil => rfl
  | append_singleton edges e ih =>
    rw [arcsOf_concat, ends_recordCall, List.map_append, List.mem_append, ← ih]
    split
    · -- the last edge joins methods that an earlier one has joined already
      rename_i hold
      constructor
      · exact Or.inl
      · rintro (h | h)
        · exact h
        · rw [List.mem_singleton.1 h]
          exact hold
    · exact List.mem_append

/-- There is at most one arc between two methods. -/
theorem nodup_ends_arcsOf (edges : List CallEdge) : ((arcsOf edges).map Arc.ends).Nodup := by
  induction edges using List.reverseRecOn with
  | nil => exact List.nodup_nil
  | append_singleton edges e ih =>
    rw [arcsOf_concat, ends_recordCall]
    split
    · exact ih
    · rename_i hnew
      rw [← List.concat_eq_append]
      exact ih.concat hnew

/-- The arc between two methods, if there is one, holds the calls between them in order. -/
theorem find?_arcsOf (edges : List CallEdge) (ends : MethodId × MethodId) :
    ((arcsOf edges).find? (·.ends = ends)).map Arc.calls =
      if ends ∈ edges.map CallEdge.ends then some (edges.filter (·.ends = ends)) else none := by
  induction edges using List.reverseRecOn with
  | nil => rfl
  | append_singleton edges e ih =>
    rw [arcsOf_concat, find?_recordCall, ih]
    by_cases he : e.ends = ends
    · by_cases hold : ends ∈ edges.map CallEdge.ends
      · simp [he, hold]
      · -- the first call between the two methods
        have hnone : edges.filter (·.ends = ends) = [] := by
          apply List.filter_eq_nil_iff.2
          intro x hx hends
          exact hold (List.mem_map.2 ⟨x, hx, of_decide_eq_true hends⟩)
        simp [he, hold, hnone]
    · simp [he, Ne.symm he]

theorem calls_of_mem_arcsOf {edges : List CallEdge} {arc : Arc} (h : arc ∈ arcsOf edges) :
    arc.calls = edges.filter (·.ends = arc.ends) := by
  have hcalls := find?_arcsOf edges arc.ends
  rw [if_pos (mem_ends_arcsOf.1 (List.mem_map_of_mem h))] at hcalls
  obtain ⟨found, hfound, hfilter⟩ := Option.map_eq_some_iff.1 hcalls
  -- the arc that is found is the only one
  have hends : found.ends = arc.ends := by simpa using List.find?_some hfound
  have hsame : found = arc :=
    List.inj_on_of_nodup_map (nodup_ends_arcsOf edges) (List.mem_of_find?_eq_some hfound) h hends
  rw [← hsame, hfilter, hends]

/-! ## §3 What holds after every sequence of additions -/

namespace CallGraph

/-- Methods are listed once, edges differ in site or callee and join methods that are listed, and the arcs
    are those that the edges make up. -/
structure Sound (g : CallGraph) : Prop where
  nodup : g.methods.Nodup
  distinct : (g.edges.map CallEdge.key).Nodup
  ends : ∀ e ∈ g.edges, e.caller ∈ g.methods ∧ e.callee ∈ g.methods
  arcs : g.arcs = arcsOf g.edges

variable {g : CallGraph}

/-- Every arc holds a call, so it joins methods that are listed. -/
theorem Sound.ends_of_mem_arcs (h : g.Sound) {arc : Arc} (harc : arc ∈ g.arcs) :
    arc.caller ∈ g.methods ∧ arc.callee ∈ g.methods := by
  rw [h.arcs] at harc
  have hends := mem_ends_arcsOf.1 (List.mem_map_of_mem harc)
  obtain ⟨e, he, heq⟩ := List.mem_map.1 hends
  obtain ⟨hcaller, hcallee⟩ := ends_eq_iff.1 heq.symm
  rw [hcaller, hcallee]
  exact h.ends e he

theorem sound_empty : ({} : CallGraph).Sound := by
  constructor <;> simp [arcsOf]

theorem Sound.addEntry (h : g.Sound) (m : MethodId) : (g.addEntry m).Sound := by
  unfold CallGraph.addEntry
  split
  · exact h
  · exact ⟨h.nodup, h.distinct, h.ends, h.arcs⟩

theorem Sound.addMethod (h : g.Sound) (m : MethodId) : (g.addMethod m).1.Sound := by
  unfold CallGraph.addMethod
  split
  · exact h
  · rename_i hnew
    refine ⟨?_, h.distinct, ?_, h.arcs⟩
    · rw [← List.concat_eq_append]
      exact h.nodup.concat hnew
    · intro e he
      exact ⟨List.mem_append_left _ (h.ends e he).1, List.mem_append_left _ (h.ends e he).2⟩

/-- The call from a site to a method is known if an edge has this key. -/
theorem hasCall_iff_mem_key {e : CallEdge} :
    g.hasCall e.site e.callee = true ↔ e.key ∈ g.edges.map CallEdge.key := by
  rw [hasCall_iff, List.mem_map]
  simp only [CallEdge.key, Prod.mk.injEq]

theorem arcs_addMethod (g : CallGraph) (m : MethodId) : (g.addMethod m).1.arcs = g.arcs := by
  unfold addMethod
  split <;> rfl

/-- A second edge from a site to a method changes nothing. -/
theorem addEdge_of_known {e : CallEdge} (h : e.key ∈ g.edges.map CallEdge.key) :
    g.addEdge e = (g, false) := by
  rw [addEdge, if_pos (hasCall_iff_mem_key.2 h)]

/-- The first edge from a site to a method is recorded. -/
theorem addEdge_of_new {e : CallEdge} (h : e.key ∉ g.edges.map CallEdge.key) :
    g.addEdge e =
      ({ ((g.addMethod e.caller).1.addMethod e.callee).1 with
          edges := g.edges ++ [e]
          arcs := recordCall e g.arcs }, true) := by
  rw [addEdge, if_neg (mt hasCall_iff_mem_key.1 h)]
  simp only [edges_addMethod, arcs_addMethod]

theorem Sound.addEdge (h : g.Sound) (e : CallEdge) : (g.addEdge e).1.Sound := by
  by_cases hknown : e.key ∈ g.edges.map CallEdge.key
  · rw [addEdge_of_known hknown]
    exact h
  · rw [addEdge_of_new hknown]
    refine ⟨((h.addMethod e.caller).addMethod e.callee).nodup, ?_, ?_, ?_⟩
    · rw [List.map_append, List.map_singleton, ← List.concat_eq_append]
      exact h.distinct.concat hknown
    · -- the ends of the new edge have just been made reachable
      intro x hx
      simp only [mem_methods_addMethod]
      rcases List.mem_append.1 hx with hx | hx
      · exact ⟨Or.inr (Or.inr (h.ends x hx).1), Or.inr (Or.inr (h.ends x hx).2)⟩
      · rw [List.mem_singleton.1 hx]
        exact ⟨Or.inr (Or.inl rfl), Or.inl rfl⟩
    · rw [arcsOf_concat, ← h.arcs]

theorem Sound.add (h : g.Sound) (addition : Addition) : (g.add addition).Sound := by
  cases addition with
  | entry m => exact h.addEntry m
  | method m => exact h.addMethod m
  | edge e => exact h.addEdge e

/-- **Call graphs are sound** after every sequence of additions. -/
theorem sound_after (additions : List Addition) : (after additions).Sound := by
  have hfoldl : ∀ (l : List Addition) (g : CallGraph), g.Sound → (l.foldl CallGraph.add g).Sound := by
    intro l
    induction l with
    | nil => exact fun _ h => h
    | cons addition rest ih => exact fun g h => ih (g.add addition) (h.add addition)
  exact hfoldl additions {} sound_empty

/-- The edges of a graph are those that it was given and that were new. -/
theorem edges_foldl_add (additions : List Addition) (g : CallGraph) :
    (additions.foldl CallGraph.add g).edges = g.edges ++ g.acceptedBy additions := by
  induction additions generalizing g with
  | nil => simp [acceptedBy]
  | cons addition rest ih =>
    rw [List.foldl_cons, ih]
    cases addition with
    | entry m =>
      have hedges : (g.addEntry m).edges = g.edges := by
        unfold addEntry
        split <;> rfl
      rw [add, hedges, acceptedBy]
    | method m => rw [add, edges_addMethod, acceptedBy]
    | edge e =>
      by_cases hknown : e.key ∈ g.edges.map CallEdge.key
      · simp [add, acceptedBy, addEdge_of_known hknown]
      · simp [add, acceptedBy, addEdge_of_new hknown]

theorem edges_after (additions : List Addition) : (after additions).edges = accepted additions :=
  edges_foldl_add additions {}

end CallGraph

end PointsTo
