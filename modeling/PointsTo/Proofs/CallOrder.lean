import Mathlib.Order.Lattice.Nat
import PointsTo.Proofs.CallTables
import PointsTo.Proofs.Distances

/-!
# The order of a call traversal

The methods that execution can reach are listed entry by entry. From each entry that is a node, a walk with
a queue follows the arcs, and a method is listed the first time that one of the walks arrives at it. A walk
marks a position when it puts it into the queue, so no position waits there twice. It starts afresh from every
entry, with nothing marked, and may pass through methods that an earlier walk has listed.

Seen from outside, the list falls into groups, one for each entry. The group of an entry holds what the entry
reaches and no earlier entry does, nearest first. It is ordered by the distance from the entry in the whole
graph: passing through listed methods is what keeps the distances right.

- `BreadthFirst.sweep`: walks with a queue and with marks.
- `BreadthFirst.sweep_eq`: a walk enumerates level by level.
- `BreadthFirst.levels_map`: enumerations do not depend on names.
- `CallGraph.listed`: what is listed after some of the entries.
- `CallTables.traversal`, `CallTables.traversal_eq`: walks along the positions of a multigraph.
- `CallGraph.Group`, `CallGraph.ListsReachable`: what is listed, and in which order.
- `CallGraph.traversal_enumerates`: traversals after every sequence of additions.
-/

namespace PointsTo

/-! ## §1 Walks with marks -/

namespace BreadthFirst

section Sweeps

variable {α : Type} [DecidableEq α] {next : α → List α} {seeds seen frontier U : List α} {size : Nat} {a : α}

/-- Puts a value behind others and marks it, unless it has a mark. -/
def enqueue (s : List α × Finset α) (a : α) : List α × Finset α :=
  if a ∈ s.2 then s else (s.1 ++ [a], insert a s.2)

/-- Visits the first value of the queue. What it leads to waits behind the rest, as far as it has no mark. -/
def sweepRound (next : α → List α) :
    List α × List α × Finset α → Option ((List α × List α × Finset α) ⊕ List α)
  | (visited, [], _) => some (.inr visited)
  | (visited, a :: queue, marked) => some (.inl (visited ++ [a], (next a).foldl enqueue (queue, marked)))

/-- The values that a walk visits, in order, from a start until the queue is empty. -/
noncomputable def sweep (next : α → List α) (start : α) : Option (List α) :=
  Strict.loop (sweepRound next) ([], [start], {start})

theorem fresh_append (seen x y : List α) :
    fresh seen (x ++ y) = fresh seen x ++ fresh (seen ++ fresh seen x) y := by
  induction x generalizing seen with
  | nil => simp [fresh]
  | cons a x ih =>
    by_cases ha : a ∈ seen
    · rw [List.cons_append, fresh_cons_of_mem ha, fresh_cons_of_mem ha, ih]
    · rw [List.cons_append, fresh_cons_of_not_mem ha, fresh_cons_of_not_mem ha, ih]
      simp [List.append_assoc]

/-- Of values that are not repeated, those that have been seen are left out. -/
theorem fresh_eq_filter (h : frontier.Nodup) : fresh seen frontier = frontier.filter (· ∉ seen) := by
  induction frontier generalizing seen with
  | nil => rfl
  | cons a frontier ih =>
    obtain ⟨ha, hrest⟩ := List.nodup_cons.1 h
    by_cases hmem : a ∈ seen
    · rw [fresh_cons_of_mem hmem, ih hrest]
      simp [hmem]
    · have hsame : frontier.filter (· ∉ seen ++ [a]) = frontier.filter (· ∉ seen) := by
        apply List.filter_congr
        intro b hb
        have hne : b ≠ a := fun heq => ha (heq ▸ hb)
        simp [hne]
      rw [fresh_cons_of_not_mem hmem, ih hrest, hsame]
      simp [hmem]

/-- Of values that are put behind others one by one, the new ones stay. -/
theorem foldl_enqueue (l queue marked : List α) :
    l.foldl enqueue (queue, marked.toFinset) =
      (queue ++ fresh marked l, (marked ++ fresh marked l).toFinset) := by
  induction l generalizing queue marked with
  | nil => simp [fresh]
  | cons a l ih =>
    rw [List.foldl_cons]
    by_cases ha : a ∈ marked
    · have hkept : enqueue (queue, marked.toFinset) a = (queue, marked.toFinset) := by
        simp [enqueue, ha]
      rw [hkept, ih, fresh_cons_of_mem ha]
    · have hinsert : insert a marked.toFinset = (marked ++ [a]).toFinset := by
        ext b
        simp
      have hadded : enqueue (queue, marked.toFinset) a = (queue ++ [a], (marked ++ [a]).toFinset) := by
        rw [enqueue, if_neg (mt List.mem_toFinset.1 ha), hinsert]
      rw [hadded, ih, fresh_cons_of_not_mem ha]
      simp only [List.append_assoc, List.singleton_append]

/-- The rest of a walk that has visited some values and marked them together with those in the queue. -/
noncomputable def sweepFrom (next : α → List α) (visited queue : List α) : Option (List α) :=
  Strict.loop (sweepRound next) (visited, queue, (visited ++ queue).toFinset)

theorem sweepFrom_nil (visited : List α) : sweepFrom next visited [] = some visited :=
  Strict.loop_of_stop rfl

theorem sweepFrom_cons (visited queue : List α) (a : α) :
    sweepFrom next visited (a :: queue) =
      sweepFrom next (visited ++ [a]) (queue ++ fresh (visited ++ a :: queue) (next a)) := by
  have hround : sweepRound next (visited, a :: queue, (visited ++ a :: queue).toFinset) =
      some (.inl (visited ++ [a], queue ++ fresh (visited ++ a :: queue) (next a),
        (visited ++ a :: queue ++ fresh (visited ++ a :: queue) (next a)).toFinset)) := by
    rw [sweepRound, foldl_enqueue]
  rw [sweepFrom, Strict.loop_of_go hround, sweepFrom]
  simp [List.append_assoc]

/-- Visiting the values at the front of the queue one by one visits all that they lead to afterwards. -/
theorem sweepFrom_level (next : α → List α) (visited level rest : List α) :
    sweepFrom next visited (level ++ rest) =
      sweepFrom next (visited ++ level)
        (rest ++ fresh (visited ++ level ++ rest) (level.flatMap next)) := by
  induction level generalizing visited rest with
  | nil => simp [fresh]
  | cons a level ih =>
    rw [List.cons_append, sweepFrom_cons, List.append_assoc, ih, List.flatMap_cons, fresh_append]
    simp [List.append_assoc]

/-- **Marks and levels**: with enough levels for the values that there are, a walk visits what the levels
    list, in the same order. -/
theorem Frontier.sweepFrom_eq (h : Frontier next seeds seen frontier)
    (hU : ∀ a, Reaches next seeds a → a ∈ U) (n : Nat) (hn : U.length < n + seen.length) :
    sweepFrom next seen (fresh seen frontier) = some (BreadthFirst.levels next n seen frontier) := by
  induction n generalizing seen frontier with
  | zero =>
    -- more values than there are cannot have been visited
    have hsub : ∀ a ∈ seen, a ∈ U := fun a ha => hU a (h.reached a (Or.inl ha))
    have hle := (List.subperm_of_subset h.nodup hsub).length_le
    omega
  | succ n ih =>
    unfold BreadthFirst.levels
    split
    · rename_i hfresh
      rw [hfresh, sweepFrom_nil]
    · rename_i hne
      have hpos : 0 < (fresh seen frontier).length := List.length_pos_iff.2 hne
      -- the level is all that waits in the queue
      have hlevel := sweepFrom_level next seen (fresh seen frontier) []
      rw [List.append_nil, List.append_nil, List.nil_append] at hlevel
      rw [hlevel]
      apply ih h.advance
      rw [List.length_append]
      omega

/-- A walk from a value visits what a breadth-first enumeration lists. -/
theorem sweep_eq (hU : ∀ b, Reaches next [a] b → b ∈ U) (hsize : U.length ≤ size) :
    sweep next a = some (breadthFirst size next [a]) := by
  have hstart : sweep next a = sweepFrom next [] (fresh [] [a]) := by
    simp [sweep, sweepFrom, fresh, List.eraseDups_cons]
  have hn : U.length < size + 1 + ([] : List α).length := Nat.lt_succ_of_le hsize
  rw [hstart, (Frontier.first next [a]).sweepFrom_eq hU _ hn]
  rfl

omit [DecidableEq α] in
/-- What seeds lead to stays within a list that holds the seeds and all successors of its members. -/
theorem Reaches.mem_of_closed (h : Reaches next seeds a) (hseeds : ∀ b ∈ seeds, b ∈ U)
    (hclosed : ∀ b ∈ U, ∀ c ∈ next b, c ∈ U) : a ∈ U := by
  obtain ⟨seed, hseed, hpath⟩ := h
  induction hpath with
  | refl => exact hseeds seed hseed
  | tail _ hstep ih => exact hclosed _ ih _ hstep

end Sweeps

/-! ## §2 Other names for the same values -/

section Renaming

variable {α β : Type} [DecidableEq α] [DecidableEq β] {f : α → β} {next : α → List α} {next' : β → List β}
  {seen frontier U : List α}

theorem fresh_map (hf : ∀ a ∈ U, ∀ b ∈ U, f a = f b → a = b) (hseen : ∀ a ∈ seen, a ∈ U)
    (hfrontier : ∀ a ∈ frontier, a ∈ U) :
    fresh (seen.map f) (frontier.map f) = (fresh seen frontier).map f := by
  induction frontier generalizing seen with
  | nil => rfl
  | cons a frontier ih =>
    have ha : a ∈ U := hfrontier a List.mem_cons_self
    have hrest : ∀ b ∈ frontier, b ∈ U := fun b hb => hfrontier b (List.mem_cons_of_mem a hb)
    rw [List.map_cons]
    by_cases hmem : a ∈ seen
    · rw [fresh_cons_of_mem (List.mem_map_of_mem hmem), fresh_cons_of_mem hmem, ih hseen hrest]
    · -- a value with the same name would be the same value
      have hname : f a ∉ seen.map f := by
        intro hname
        obtain ⟨b, hb, heq⟩ := List.mem_map.1 hname
        exact hmem (hf b (hseen b hb) a ha heq ▸ hb)
      have hseen' : ∀ b ∈ seen ++ [a], b ∈ U := by
        intro b hb
        rcases List.mem_append.1 hb with hb | hb
        · exact hseen b hb
        · rw [List.mem_singleton.1 hb]
          exact ha
      rw [fresh_cons_of_not_mem hname, fresh_cons_of_not_mem hmem, List.map_cons, ← ih hseen' hrest,
        List.map_append, List.map_singleton]

/-- **Renaming**: values that go by other names are enumerated in the same order. -/
theorem levels_map (hf : ∀ a ∈ U, ∀ b ∈ U, f a = f b → a = b)
    (hnext : ∀ a ∈ U, next' (f a) = (next a).map f) (hclosed : ∀ a ∈ U, ∀ b ∈ next a, b ∈ U) (n : Nat)
    (seen frontier : List α) (hseen : ∀ a ∈ seen, a ∈ U) (hfrontier : ∀ a ∈ frontier, a ∈ U) :
    levels next' n (seen.map f) (frontier.map f) = (levels next n seen frontier).map f := by
  induction n generalizing seen frontier with
  | zero => rfl
  | succ n ih =>
    have hlevel : ∀ a ∈ fresh seen frontier, a ∈ U := fun a ha => hfrontier a (mem_fresh.1 ha).1
    unfold levels
    rw [fresh_map hf hseen hfrontier]
    cases hfresh : fresh seen frontier with
    | nil => rfl
    | cons a level =>
      rw [hfresh] at hlevel
      -- the next level starts from what the values of this one lead to
      have hstep : ((a :: level).map f).flatMap next' = ((a :: level).flatMap next).map f := by
        rw [List.flatMap_map, List.map_flatMap]
        exact List.flatMap_congr fun b hb => hnext b (hlevel b hb)
      have hseen' : ∀ b ∈ seen ++ a :: level, b ∈ U := fun b hb =>
        (List.mem_append.1 hb).elim (hseen b) (hlevel b)
      have hfrontier' : ∀ b ∈ (a :: level).flatMap next, b ∈ U := by
        intro b hb
        obtain ⟨c, hc, hb⟩ := List.mem_flatMap.1 hb
        exact hclosed c (hlevel c hc) b hb
      have hrest := ih _ _ hseen' hfrontier'
      rw [List.map_append, ← hstep] at hrest
      exact hrest

end Renaming

end BreadthFirst

/-! ## §3 Entries one by one -/

namespace CallGraph

variable {g : CallGraph} {e m : MethodId}

/-- The methods that an entry adds to those that have been listed. An entry that is no node adds nothing. -/
def added (g : CallGraph) (order : List MethodId) (e : MethodId) : List MethodId :=
  if g.contains e then (g.reachableFrom e).filter (!order.contains ·) else []

theorem added_of_mem (he : e ∈ g.methods) (order : List MethodId) :
    g.added order e = (g.reachableFrom e).filter (· ∉ order) := by
  simp [added, contains, he]

theorem added_of_not_mem (he : e ∉ g.methods) (order : List MethodId) : g.added order e = [] := by
  simp [added, contains, he]

/-- The methods that have been listed after some entries. -/
def listed (g : CallGraph) (entries : List MethodId) : List MethodId :=
  entries.foldl (fun order e => order ++ g.added order e) []

theorem listed_concat (g : CallGraph) (entries : List MethodId) (e : MethodId) :
    g.listed (entries ++ [e]) = g.listed entries ++ g.added (g.listed entries) e := by
  simp [listed]

theorem traversal_eq_listed (g : CallGraph) : g.traversal = g.listed g.entries := by
  rw [traversal, List.foldl_filter, listed]
  congr 1
  funext order e
  by_cases he : e ∈ g.methods
  · simp [contains, he, added_of_mem he]
  · simp [contains, he, added_of_not_mem he]

/-- An entry adds what it reaches, if that has not been listed. -/
theorem Sound.mem_added (h : g.Sound) {order : List MethodId} :
    m ∈ g.added order e ↔ e ∈ g.methods ∧ Relation.ReflTransGen g.Calls e m ∧ m ∉ order := by
  by_cases he : e ∈ g.methods
  · simp [added_of_mem he, he, h.mem_reachableFrom he]
  · simp [added_of_not_mem he, he]

/-- The walk from an entry starts there, so an entry that has not been listed comes first. -/
theorem head?_added {order : List MethodId} (he : e ∈ g.methods) (hnew : e ∉ order) :
    (g.added order e).head? = some e := by
  have hstart : (g.reachableFrom e).head? = some e := head?_breadthFirst e
  obtain ⟨rest, hrest⟩ := List.head?_eq_some_iff.1 hstart
  simp [added_of_mem he, hrest, hnew]

/-- After some entries, what they reach has been listed. -/
theorem Sound.mem_listed (h : g.Sound) (entries : List MethodId) (m : MethodId) :
    m ∈ g.listed entries ↔ ∃ e ∈ entries, e ∈ g.methods ∧ Relation.ReflTransGen g.Calls e m := by
  induction entries using List.reverseRecOn with
  | nil => simp [listed]
  | append_singleton entries e ih =>
    rw [listed_concat, List.mem_append, h.mem_added, ih]
    simp only [List.mem_append, List.mem_singleton, or_and_right, exists_or, exists_eq_left]
    -- what the last entry reaches has been listed before or is added
    by_cases hold : ∃ e ∈ entries, e ∈ g.methods ∧ Relation.ReflTransGen g.Calls e m <;> simp [hold]

theorem Sound.nodup_listed (h : g.Sound) (entries : List MethodId) : (g.listed entries).Nodup := by
  induction entries using List.reverseRecOn with
  | nil => exact List.nodup_nil
  | append_singleton entries e ih =>
    rw [listed_concat]
    have hadded : (g.added (g.listed entries) e).Nodup := by
      by_cases he : e ∈ g.methods
      · rw [added_of_mem he]
        exact (h.nodup_reachableFrom he).filter _
      · rw [added_of_not_mem he]
        exact List.nodup_nil
    exact ih.append hadded fun m hold hnew => (h.mem_added.1 hnew).2.2 hold

end CallGraph

/-! ## §4 Walks along positions -/

/-- The positions that arcs lead to from a position, the newest arc first. -/
def Multigraph.neighbors {ν ε : Type} (g : Multigraph ν ε) (i : Nat) : List Nat :=
  (g.arcs.filter (·.source = i)).reverse.map Multigraph.Arc.target

namespace CallTables

/-- Lists the method at a position, unless it has been listed. -/
def list (t : CallTables) (s : List MethodId × Finset MethodId) (i : Nat) :
    Option (List MethodId × Finset MethodId) := do
  let m ← t.graph.nodes[i]?
  return BreadthFirst.enqueue s m

/-- Lists what a walk from an entry visits. An entry that is no node is passed over. -/
noncomputable def listFrom (t : CallTables) (s : List MethodId × Finset MethodId) (entry : MethodId) :
    Option (List MethodId × Finset MethodId) :=
  match t.index entry with
  | none => some s
  | some root => do
    let visited ← BreadthFirst.sweep t.graph.neighbors root
    visited.foldlM t.list s

/-- The methods that walks from the entries visit, one entry after the other. There is no answer if a walk
    does not end or arrives at a position without a node. -/
noncomputable def traversal (t : CallTables) : Option (List MethodId) :=
  (t.entries.foldlM t.listFrom ([], ∅)).map Prod.fst

variable {g : CallGraph} {m : MethodId}

/-- Arcs lead from the position of a method to the positions of its successors, in the same order. -/
theorem neighbors_ofGraph (h : g.Sound) (m : MethodId) :
    (ofGraph g).graph.neighbors (g.methods.idxOf m) = (g.successors m).map fun x => g.methods.idxOf x := by
  have hfilter : g.arcs.filter (fun arc => g.methods.idxOf arc.caller = g.methods.idxOf m) =
      g.arcs.filter (·.caller = m) := by
    apply List.filter_congr
    intro arc harc
    simp only [List.idxOf_inj (h.ends_of_mem_arcs harc).1]
  simp only [Multigraph.neighbors, ofGraph, CallGraph.successors, List.filter_map, Function.comp_def, hfilter,
    ← List.map_reverse, List.map_map]

/-- The positions that a walk from a method visits are those of the methods that it reaches. -/
theorem sweep_ofGraph (h : g.Sound) (hm : m ∈ g.methods) :
    BreadthFirst.sweep (ofGraph g).graph.neighbors (g.methods.idxOf m) =
      some ((g.reachableFrom m).map fun x => g.methods.idxOf x) := by
  have hclosed : ∀ a ∈ g.methods, ∀ b ∈ g.successors a, b ∈ g.methods := by
    intro a _ b hb
    obtain ⟨e, he, _, rfl⟩ := h.mem_successors.1 hb
    exact (h.ends e he).2
  have hmap : ∀ i ∈ g.methods.map fun x => g.methods.idxOf x,
      ∀ j ∈ (ofGraph g).graph.neighbors i, j ∈ g.methods.map fun x => g.methods.idxOf x := by
    intro i hi j hj
    obtain ⟨a, ha, rfl⟩ := List.mem_map.1 hi
    rw [neighbors_ofGraph h a] at hj
    obtain ⟨b, hb, rfl⟩ := List.mem_map.1 hj
    exact List.mem_map_of_mem (hclosed a ha b hb)
  have hsweep : BreadthFirst.sweep (ofGraph g).graph.neighbors (g.methods.idxOf m) =
      some (breadthFirst g.methods.length (ofGraph g).graph.neighbors [g.methods.idxOf m]) := by
    refine BreadthFirst.sweep_eq (U := g.methods.map fun x => g.methods.idxOf x) ?_ (by simp)
    exact fun j hj => hj.mem_of_closed (by simpa using ⟨m, hm, rfl⟩) hmap
  have hlevels := BreadthFirst.levels_map (U := g.methods)
    (fun a ha b _ heq => (List.idxOf_inj ha).1 heq) (fun a _ => neighbors_ofGraph h a) hclosed
    (g.methods.length + 1) [] [m] (by simp) (by simpa using hm)
  exact hsweep.trans (congrArg some hlevels)

/-- Listing the methods at positions leaves out those that have been listed. -/
theorem foldlM_list (order : List MethodId) {l : List MethodId} (hl : ∀ x ∈ l, x ∈ g.methods)
    (hnodup : l.Nodup) :
    (l.map fun x => g.methods.idxOf x).foldlM (ofGraph g).list (order, order.toFinset) =
      some (order ++ l.filter (· ∉ order), (order ++ l.filter (· ∉ order)).toFinset) := by
  have hlist : ∀ s, ∀ x ∈ l, (ofGraph g).list s (g.methods.idxOf x) = some (BreadthFirst.enqueue s x) := by
    intro s x hx
    simp [list, node_ofGraph (hl x hx)]
  have hfold : (l.map fun x => g.methods.idxOf x).foldlM (ofGraph g).list (order, order.toFinset) =
      some (l.foldl BreadthFirst.enqueue (order, order.toFinset)) := by
    rw [List.foldlM_map]
    exact Strict.foldlM_eq (P := fun _ => True) (fun s _ x hx => ⟨hlist s x hx, trivial⟩) trivial
  rw [hfold, BreadthFirst.foldl_enqueue, BreadthFirst.fresh_eq_filter hnodup]

/-- An entry adds the methods that it reaches and that have not been listed, if it is a node. -/
theorem listFrom_ofGraph (h : g.Sound) (order : List MethodId) (entry : MethodId) :
    (ofGraph g).listFrom (order, order.toFinset) entry =
      some (order ++ g.added order entry, (order ++ g.added order entry).toFinset) := by
  by_cases hmem : entry ∈ g.methods
  · have hvisited : ∀ x ∈ g.reachableFrom entry, x ∈ g.methods := fun x hx =>
      h.mem_of_calls hmem ((h.mem_reachableFrom hmem).1 hx)
    have hlist := foldlM_list order hvisited (h.nodup_reachableFrom hmem)
    simpa [listFrom, index_ofGraph hmem, sweep_ofGraph h hmem, CallGraph.added_of_mem hmem] using hlist
  · have hindex : (ofGraph g).index entry = none := List.idxOf?_eq_none_iff.2 hmem
    simp [listFrom, hindex, CallGraph.added_of_not_mem hmem]

/-- **Walks along positions**: they have an answer, which is the traversal of the call graph. -/
theorem traversal_eq (h : g.Sound) : (ofGraph g).traversal = some g.traversal := by
  have hlisted : ∀ entries : List MethodId, entries.foldlM (ofGraph g).listFrom ([], ∅) =
      some (g.listed entries, (g.listed entries).toFinset) := by
    intro entries
    induction entries using List.reverseRecOn with
    | nil => rfl
    | append_singleton entries e ih =>
      rw [List.foldlM_append, ih, CallGraph.listed_concat]
      simpa using listFrom_ofGraph h (g.listed entries) e
  have hall : (ofGraph g).entries.foldlM (ofGraph g).listFrom ([], ∅) = _ := hlisted g.entries
  rw [traversal, hall, CallGraph.traversal_eq_listed]
  rfl

end CallTables

/-! ## §5 Distances along calls -/

namespace CallGraph

variable {g : CallGraph} {e m : MethodId} {n : Nat}

/-- A number of call edges lead from one method to another. There may be several such numbers. -/
inductive CallsIn (g : CallGraph) (e : MethodId) : Nat → MethodId → Prop
  | refl : CallsIn g e 0 e
  | step {n : Nat} {a b : MethodId} : CallsIn g e n a → g.Calls a b → CallsIn g e (n + 1) b

/-- The least number of call edges that lead from one method to another. -/
noncomputable def callDistance (g : CallGraph) (e m : MethodId) : Nat := sInf {n | g.CallsIn e n m}

/-- Call edges are counted by the steps along arcs. -/
theorem Sound.callsIn_iff (h : g.Sound) :
    g.CallsIn e n m ↔ BreadthFirst.ReachesIn g.successors [e] n m := by
  constructor
  · intro hcalls
    induction hcalls with
    | refl => exact .seed List.mem_cons_self
    | step _ hcall ih => exact ih.step (h.mem_successors.2 hcall)
  · intro hreach
    induction hreach with
    | seed hseed =>
      rw [List.mem_singleton.1 hseed]
      exact .refl
    | step _ hstep ih => exact ih.step (h.mem_successors.1 hstep)

theorem exists_callsIn (h : Relation.ReflTransGen g.Calls e m) : ∃ n, g.CallsIn e n m := by
  induction h with
  | refl => exact ⟨0, .refl⟩
  | tail _ hcall ih =>
    obtain ⟨n, hn⟩ := ih
    exact ⟨n + 1, hn.step hcall⟩

/-- What a method reaches is listed nearest first. -/
theorem Sound.pairwise_reachableFrom (h : g.Sound) (he : e ∈ g.methods) :
    (g.reachableFrom e).Pairwise fun a b => g.callDistance e a ≤ g.callDistance e b := by
  have hordered := pairwise_breadthFirst g.methods.length g.successors [e]
  apply hordered.imp_of_mem
  intro a b _ hb hfar
  -- the distance of the second method is a number of calls, and the first one takes no more
  have hattained : g.CallsIn e (g.callDistance e b) b :=
    Nat.sInf_mem (s := {n | g.CallsIn e n b}) (exists_callsIn ((h.mem_reachableFrom he).1 hb))
  obtain ⟨k, hk, hreach⟩ := hfar _ (h.callsIn_iff.1 hattained)
  exact (Nat.sInf_le (h.callsIn_iff.2 hreach)).trans hk

/-! ## §6 Groups -/

/-- An entry is the first one to reach a method: it is a node and calls lead from there to the method, but
    from no entry before it that is a node. -/
def FirstReaches (g : CallGraph) (e m : MethodId) : Prop :=
  e ∈ g.methods ∧ Relation.ReflTransGen g.Calls e m ∧
    ∀ e' ∈ g.entries.takeWhile (· ≠ e), e' ∈ g.methods → ¬ Relation.ReflTransGen g.Calls e' m

/-- A list holds what an entry is the first one to reach, nearest first. The entry itself comes first, unless
    it is reached by an entry before it. -/
structure Group (g : CallGraph) (e : MethodId) (l : List MethodId) : Prop where
  mem_iff : ∀ m, m ∈ l ↔ g.FirstReaches e m
  nearestFirst : l.Pairwise fun a b => g.callDistance e a ≤ g.callDistance e b
  head : g.FirstReaches e e → l.head? = some e

/-- A list holds what the entries reach, once each and in groups: the group of the first entry, then the
    group of the second entry, and so on. -/
structure ListsReachable (g : CallGraph) (l : List MethodId) : Prop where
  nodup : l.Nodup
  mem_iff : ∀ m, m ∈ l ↔ ∃ e ∈ g.entries, e ∈ g.methods ∧ Relation.ReflTransGen g.Calls e m
  grouped : ∃ group : MethodId → List MethodId,
    l = g.entries.flatMap group ∧ ∀ e ∈ g.entries, g.Group e (group e)

/-- What an entry adds when the entries before it have been listed. -/
def groupOf (g : CallGraph) (e : MethodId) : List MethodId :=
  g.added (g.listed (g.entries.takeWhile (· ≠ e))) e

theorem Sound.group_groupOf (h : g.Sound) (e : MethodId) : g.Group e (g.groupOf e) := by
  have hmem : ∀ m, m ∈ g.groupOf e ↔ g.FirstReaches e m := by
    intro m
    rw [groupOf, h.mem_added, h.mem_listed, FirstReaches]
    simp only [not_exists, not_and]
  refine ⟨hmem, ?_, ?_⟩
  · unfold groupOf
    by_cases he : e ∈ g.methods
    · rw [added_of_mem he]
      exact (h.pairwise_reachableFrom he).filter _
    · rw [added_of_not_mem he]
      exact List.Pairwise.nil
  · intro hfirst
    obtain ⟨he, _, hnew⟩ := h.mem_added.1 ((hmem e).2 hfirst)
    exact head?_added he hnew

/-- The groups of entries that do not repeat make up what is listed. -/
theorem listed_eq_flatMap (hnodup : g.entries.Nodup) (entries rest : List MethodId)
    (hentries : g.entries = entries ++ rest) : g.listed entries = entries.flatMap g.groupOf := by
  induction entries using List.reverseRecOn generalizing rest with
  | nil => rfl
  | append_singleton entries e ih =>
    have hsplit : g.entries = entries ++ e :: rest := by simpa using hentries
    have hnew : ∀ e' ∈ entries, e' ≠ e := by
      rw [hsplit] at hnodup
      intro e' he' heq
      exact List.disjoint_of_nodup_append hnodup he' (heq ▸ List.mem_cons_self)
    -- the entries before this one are those that come before it in the list
    have hbefore : g.entries.takeWhile (· ≠ e) = entries := by
      rw [hsplit, List.takeWhile_append_of_pos (by simpa using hnew)]
      simp
    rw [listed_concat, ih (e :: rest) hsplit, List.flatMap_append, List.flatMap_singleton, groupOf, hbefore,
      ih (e :: rest) hsplit]

theorem Sound.listsReachable (h : g.Sound) (hnodup : g.entries.Nodup) : g.ListsReachable g.traversal where
  nodup := traversal_eq_listed g ▸ h.nodup_listed g.entries
  mem_iff m := by rw [traversal_eq_listed, h.mem_listed]
  grouped := by
    refine ⟨g.groupOf, ?_, fun e _ => h.group_groupOf e⟩
    rw [traversal_eq_listed, listed_eq_flatMap hnodup g.entries [] (List.append_nil _).symm]

/-! ## §7 After any sequence of additions -/

/-- No entry is listed twice. -/
theorem nodup_entries_after (additions : List Addition) : (after additions).entries.Nodup := by
  induction additions using List.reverseRecOn with
  | nil => exact List.nodup_nil
  | append_singleton additions addition ih =>
    rw [after, List.foldl_append, List.foldl_cons, List.foldl_nil]
    cases addition with
    | entry m =>
      rw [add, addEntry]
      split
      · exact ih
      · rename_i hnew
        rw [← List.concat_eq_append]
        exact ih.concat hnew
    | method m =>
      rw [add, entries_addMethod]
      exact ih
    | edge e =>
      rw [add, entries_addEdge]
      exact ih

/-- **Traversals enumerate what the entries reach.** After every sequence of additions, walking along the
    multigraph from one entry after the other comes to an end, and no position is met that has no node. The
    methods that are listed are those that calls lead to from an entry that is a node, once each. They are
    grouped by the first entry that reaches them, and within a group they come in the order of their distance
    from the entry. -/
theorem traversal_enumerates (additions : List Addition) :
    ∃ t, CallTables.after? additions = some t ∧
      t.traversal = some (after additions).traversal ∧
      (after additions).ListsReachable (after additions).traversal := by
  have hsound := sound_after additions
  exact ⟨_, CallTables.after?_eq additions, CallTables.traversal_eq hsound,
    hsound.listsReachable (nodup_entries_after additions)⟩

-- the second entry never becomes a node, and the third one reaches a method that the first one has reached
example : (after [.entry ⟨0⟩, .entry ⟨9⟩, .entry ⟨3⟩, .edge ⟨.static, ⟨⟨0⟩, 0⟩, ⟨1⟩⟩,
    .edge ⟨.static, ⟨⟨0⟩, 1⟩, ⟨2⟩⟩, .edge ⟨.static, ⟨⟨2⟩, 0⟩, ⟨0⟩⟩, .edge ⟨.static, ⟨⟨3⟩, 0⟩, ⟨2⟩⟩,
    .edge ⟨.static, ⟨⟨3⟩, 1⟩, ⟨4⟩⟩]).traversal = [⟨0⟩, ⟨2⟩, ⟨1⟩, ⟨3⟩, ⟨4⟩] := by
  decide

end CallGraph

end PointsTo
