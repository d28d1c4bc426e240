/-!
# Ranked types

Every listing the library prints in a fixed order is sorted by a *rank*: a list of numbers that
determines the value it belongs to. Ranks are compared lexicographically, so the order of a compound
value is spelled out by listing the ranks of its parts.
-/

namespace PointsTo

/-- Types whose values are ordered by a list of numbers that determines them. -/
class Ranked (α : Type) where
  /-- The numbers a value is ordered by, most significant first. -/
  rank : α → List Nat
  /-- A value is determined by its rank. -/
  rank_injective : ∀ {a b : α}, rank a = rank b → a = b

export Ranked (rank)

namespace Ranked

variable {α : Type} [Ranked α]

/-- `a` is listed before `b`. -/
def Before (a b : α) : Prop := rank a < rank b

instance (a b : α) : Decidable (Before a b) :=
  inferInstanceAs (Decidable (rank a < rank b))

theorem Before.irrefl (a : α) : ¬ Before a a :=
  List.lt_irrefl (rank a)

theorem Before.trans {a b c : α} (hab : Before a b) (hbc : Before b c) : Before a c :=
  List.lt_trans hab hbc

theorem Before.asymm {a b : α} (hab : Before a b) : ¬ Before b a :=
  fun hba => Before.irrefl a (hab.trans hba)

/-- Two values that neither precedes the other are the same value. -/
theorem eq_of_not_before {a b : α} (hab : ¬ Before a b) (hba : ¬ Before b a) : a = b :=
  rank_injective (List.le_antisymm (List.not_lt.1 hba) (List.not_lt.1 hab))

end Ranked

end PointsTo
