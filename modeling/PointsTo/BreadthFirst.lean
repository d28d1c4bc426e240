/-!
# Breadth-first enumeration

Enumerates what can be reached from a list of seeds, nearest first. The enumeration goes level by
level: a level holds what the level before it leads to and no earlier level holds, each value at its
first occurrence.
-/

namespace PointsTo

namespace BreadthFirst

variable {α : Type} [DecidableEq α]

/-- The values of a level that have not been seen, without repetitions. -/
def fresh (seen frontier : List α) : List α :=
  (frontier.filter (· ∉ seen)).eraseDups

/-- Extends what has been seen by at most the given number of further levels. -/
def levels (next : α → List α) : Nat → List α → List α → List α
  | 0, seen, _ => seen
  | n + 1, seen, frontier =>
    match fresh seen frontier with
    | [] => seen
    | level => levels next n (seen ++ level) (level.flatMap next)

end BreadthFirst

/-- Everything reachable from the seeds, nearest first. At most `size` values may lead anywhere:
    every level but the last holds one of them, so one more level than that is enough. -/
def breadthFirst {α : Type} [DecidableEq α] (size : Nat) (next : α → List α) (seeds : List α) :
    List α :=
  BreadthFirst.levels next (size + 1) [] seeds

end PointsTo
