import Mathlib.Logic.Relation
import PointsTo.Proofs.CallRecords
import PointsTo.Proofs.Supertypes

/-!
# Traversals

A breadth-first enumeration goes level by level and never looks back: a value that has been seen is not
listed again, and what it leads to has been seen as well or stands in the next level. When a level brings
nothing new, everything that the seeds lead to has been listed, each value once. Enough levels are there,
since each of them but the last uses up one of the values that there are.

The traversal of a call graph is such an enumeration along its arcs. The arcs can be told from the call
edges, so it lists the methods that the entry method reaches through recorded calls.

- `BreadthFirst.Frontier`: the invariant between two levels.
- `BreadthFirst.Frontier.advance`, `BreadthFirst.Frontier.levels`: what a level and what all levels do.
- `mem_breadthFirst`, `nodup_breadthFirst`: what is enumerated.
- `CallGraph.mem_reachableFrom`, `CallGraph.traversal_of_entries`: traversals of call graphs.
-/

namespace PointsTo

/-! ## §1 Breadth-first enumeration -/

namespace BreadthFirst

variable {α : Type} {next : α → List α} {seeds seen frontier U : List α} {a : α}

/-- One of the seeds leads to the value. -/
def Reaches (next : α → List α) (seeds : List α) (a : α) : Prop :=
  ∃ seed ∈ seeds, Relation.ReflTransGen (fun x y => y ∈ next x) seed a

/-- Between two levels, what has been seen is reached by the seeds and leads only to what has been seen
    or comes next. -/
structure Frontier (next : α → List α) (seeds seen frontier : List α) : Prop where
  nodup : seen.Nodup
  reached : ∀ a, a ∈ seen ∨ a ∈ frontier → Reaches next seeds a
  covers : ∀ a ∈ seeds, a ∈ seen ∨ a ∈ frontier
  closed : ∀ a ∈ seen, ∀ b ∈ next a, b ∈ seen ∨ b ∈ frontier

theorem Frontier.first (next : α → List α) (seeds : List α) : Frontier next seeds [] seeds where
  nodup := List.nodup_nil
  reached a ha := ⟨a, ha.resolve_left List.not_mem_nil, Relation.ReflTransGen.refl⟩
  covers _ ha := Or.inr ha
  closed _ ha := absurd ha List.not_mem_nil

variable [DecidableEq α]

theorem nodup_append_fresh (h : seen.Nodup) : (seen ++ fresh seen frontier).Nodup :=
  h.append (nodup_fresh frontier) fun _ ha hnew => (mem_fresh.1 hnew).2 ha

/-- What has been seen or comes next has been seen after the next level. -/
theorem mem_append_fresh (h : a ∈ seen ∨ a ∈ frontier) : a ∈ seen ++ fresh seen frontier := by
  by_cases ha : a ∈ seen
  · exact List.mem_append_left _ ha
  · exact List.mem_append_right _ (mem_fresh.2 ⟨h.resolve_left ha, ha⟩)

/-- **Levels**: a level keeps the invariant. -/
theorem Frontier.advance (h : Frontier next seeds seen frontier) :
    Frontier next seeds (seen ++ fresh seen frontier) ((fresh seen frontier).flatMap next) where
  nodup := nodup_append_fresh h.nodup
  reached := by
    have hseen : ∀ a ∈ seen ++ fresh seen frontier, Reaches next seeds a := by
      intro a ha
      apply h.reached
      exact (List.mem_append.1 ha).imp_right fun hnew => (mem_fresh.1 hnew).1
    rintro b (hb | hb)
    · exact hseen b hb
    · -- the value is one step away from a value of the level
      obtain ⟨a, ha, hb⟩ := List.mem_flatMap.1 hb
      obtain ⟨seed, hseed, hpath⟩ := hseen a (List.mem_append_right _ ha)
      exact ⟨seed, hseed, hpath.tail hb⟩
  covers a ha := Or.inl (mem_append_fresh (h.covers a ha))
  closed := by
    intro a ha b hb
    rcases List.mem_append.1 ha with hold | hnew
    · exact Or.inl (mem_append_fresh (h.closed a hold b hb))
    · exact Or.inr (List.mem_flatMap.2 ⟨a, hnew, hb⟩)

/-- Without anything new in the next level, everything that is reached has been seen. -/
theorem Frontier.mem_iff (h : Frontier next seeds seen frontier) (hfresh : fresh seen frontier = []) :
    a ∈ seen ↔ Reaches next seeds a := by
  have hseen : ∀ a, a ∈ seen ∨ a ∈ frontier → a ∈ seen := by
    intro a ha
    simpa [hfresh] using mem_append_fresh ha
  constructor
  · intro ha
    exact h.reached a (Or.inl ha)
  · rintro ⟨seed, hseed, hpath⟩
    induction hpath with
    | refl => exact hseen seed (h.covers seed hseed)
    | tail _ hstep ih => exact hseen _ (h.closed _ ih _ hstep)

/-- **Enumerations**: with enough levels for the values that there are, everything that the seeds lead to
    is listed, and is listed once. -/
theorem Frontier.levels (h : Frontier next seeds seen frontier)
    (hU : ∀ a, Reaches next seeds a → a ∈ U) (n : Nat) (hn : U.length < n + seen.length) :
    (levels next n seen frontier).Nodup ∧
      ∀ a, a ∈ BreadthFirst.levels next n seen frontier ↔ Reaches next seeds a := by
  -- the number of levels that are left goes down, and what has been seen goes up
  induction n generalizing seen frontier with
  | zero =>
    have hsub : ∀ a ∈ seen, a ∈ U := fun a ha => hU a (h.reached a (Or.inl ha))
    have hle := (List.subperm_of_subset h.nodup hsub).length_le
    omega
  | succ n ih =>
    unfold BreadthFirst.levels
    split
    · rename_i hfresh
      exact ⟨h.nodup, fun a => h.mem_iff hfresh⟩
    · rename_i hne
      have hpos : 0 < (fresh seen frontier).length := List.length_pos_iff.2 hne
      apply ih h.advance
      rw [List.length_append]
      omega

/-- What has been seen stays in front. -/
theorem isPrefix_levels (n : Nat) : seen <+: levels next n seen frontier := by
  induction n generalizing seen frontier with
  | zero => exact List.prefix_rfl
  | succ n ih =>
    unfold levels
    split
    · exact List.prefix_rfl
    · exact (List.prefix_append seen _).trans ih

end BreadthFirst

section BreadthFirst

variable {α : Type} [DecidableEq α] {next : α → List α} {seeds U : List α} {size : Nat}

theorem nodup_breadthFirst (hU : ∀ a, BreadthFirst.Reaches next seeds a → a ∈ U)
    (hsize : U.length ≤ size) : (breadthFirst size next seeds).Nodup := by
  have hn : U.length < size + 1 + ([] : List α).length := Nat.lt_succ_of_le hsize
  exact ((BreadthFirst.Frontier.first next seeds).levels hU _ hn).1

theorem mem_breadthFirst (hU : ∀ a, BreadthFirst.Reaches next seeds a → a ∈ U)
    (hsize : U.length ≤ size) (a : α) :
    a ∈ breadthFirst size next seeds ↔ BreadthFirst.Reaches next seeds a := by
  have hn : U.length < size + 1 + ([] : List α).length := Nat.lt_succ_of_le hsize
  exact ((BreadthFirst.Frontier.first next seeds).levels hU _ hn).2 a

/-- An only seed is listed first. -/
theorem head?_breadthFirst (a : α) : (breadthFirst size next [a]).head? = some a := by
  have hfresh : BreadthFirst.fresh [] [a] = [a] := by
    simp [BreadthFirst.fresh, List.eraseDups_cons]
  -- the first level is the seed, and all later ones are put behind it
  have hlevels : breadthFirst size next [a] = BreadthFirst.levels next size [a] ([a].flatMap next) := by
    rw [breadthFirst, BreadthFirst.levels, hfresh]
    rfl
  have hfirst : [a] <+: breadthFirst size next [a] := by
    rw [hlevels]
    exact BreadthFirst.isPrefix_levels size
  obtain ⟨rest, hrest⟩ := hfirst
  rw [← hrest]
  rfl

end BreadthFirst

/-! ## §2 Call graphs -/

namespace CallGraph

variable {g : CallGraph} {m x : MethodId}

/-- Some call edge leads from one method to another. -/
def Calls (g : CallGraph) (caller callee : MethodId) : Prop :=
  ∃ e ∈ g.edges, e.caller = caller ∧ e.callee = callee

/-- The successors of a method are the methods that it calls. -/
theorem Sound.mem_successors (h : g.Sound) : x ∈ g.successors m ↔ g.Calls m x := by
  have harcs : x ∈ g.successors m ↔ (m, x) ∈ g.arcs.map Arc.ends := by
    simp [successors, Arc.ends, and_assoc]
  rw [harcs, h.arcs, mem_ends_arcsOf]
  simp [Calls, CallEdge.ends]

/-- A method leads to those that chains of calls lead to. -/
theorem Sound.reaches_iff (h : g.Sound) :
    BreadthFirst.Reaches g.successors [m] x ↔ Relation.ReflTransGen g.Calls m x := by
  have hnext : (fun a b => b ∈ g.successors a) = g.Calls := by
    funext a b
    exact propext h.mem_successors
  simp [BreadthFirst.Reaches, hnext]

/-- Calls lead from methods of the graph to methods of the graph. -/
theorem Sound.mem_of_calls (h : g.Sound) (hm : m ∈ g.methods)
    (hpath : Relation.ReflTransGen g.Calls m x) : x ∈ g.methods := by
  induction hpath with
  | refl => exact hm
  | tail _ hcall _ =>
    obtain ⟨e, he, _, rfl⟩ := hcall
    exact (h.ends e he).2

/-- **Traversals**: from a method of the graph, the methods that chains of calls lead to are listed. -/
theorem Sound.mem_reachableFrom (h : g.Sound) (hm : m ∈ g.methods) :
    x ∈ g.reachableFrom m ↔ Relation.ReflTransGen g.Calls m x := by
  rw [← h.reaches_iff]
  refine mem_breadthFirst (U := g.methods) ?_ (Nat.le_refl _) x
  intro a ha
  exact h.mem_of_calls hm (h.reaches_iff.1 ha)

theorem Sound.nodup_reachableFrom (h : g.Sound) (hm : m ∈ g.methods) : (g.reachableFrom m).Nodup := by
  refine nodup_breadthFirst (U := g.methods) ?_ (Nat.le_refl _)
  intro a ha
  exact h.mem_of_calls hm (h.reaches_iff.1 ha)

/-- With a single entry method, the traversal is the one from there. -/
theorem traversal_of_entries (hentries : g.entries = [m]) (hm : m ∈ g.methods) :
    g.traversal = g.reachableFrom m := by
  simp [traversal, hentries, contains, hm]

end CallGraph

end PointsTo
