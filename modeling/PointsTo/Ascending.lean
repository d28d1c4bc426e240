import PointsTo.Ranked

/-!
# Ascending lists

A finite set of ranked values, kept as the list of its members in strictly ascending order. Listing
such a set is therefore reproducible, and two sets with the same members are equal.

## Main statements

- `Ascending.ext_mem`: a set is determined by its members.
- `Ascending.mem_insert`, `mem_union`, `mem_sdiff`, `mem_ofList`: what each operation does to
  membership.
-/

namespace PointsTo

open Ranked (Before)

/-- A finite set of ranked values, listed in strictly ascending order. -/
structure Ascending (α : Type) [Ranked α] where
  /-- The members, in ascending order. -/
  toList : List α
  /-- Every member is listed before those that follow it. -/
  sorted : toList.Pairwise Before

namespace Ascending

variable {α : Type} [Ranked α]

/-! ## §1 Insertion into a sorted list -/

/-- Inserts a value at its place in a sorted list; a value already listed is not listed again. -/
def place (a : α) : List α → List α
  | [] => [a]
  | b :: rest =>
    if Before a b then a :: b :: rest
    else if Before b a then b :: place a rest
    else b :: rest

theorem mem_place {a x : α} {l : List α} : x ∈ place a l ↔ x = a ∨ x ∈ l := by
  induction l with
  | nil => simp [place]
  | cons b rest ih =>
    simp only [place]
    split
    · simp
    · split
      · simp only [List.mem_cons, ih]
        exact or_left_comm
      · rename_i hab hba
        have := Ranked.eq_of_not_before hab hba
        simp [this]

theorem sorted_place (a : α) {l : List α} (h : l.Pairwise Before) :
    (place a l).Pairwise Before := by
  induction l with
  | nil => simp [place]
  | cons b rest ih =>
    rw [List.pairwise_cons] at h
    simp only [place]
    split
    · rename_i hab
      refine List.pairwise_cons.2 ⟨fun x hx => ?_, List.pairwise_cons.2 h⟩
      rcases List.mem_cons.1 hx with rfl | hx
      · exact hab
      · exact hab.trans (h.1 x hx)
    · split
      · rename_i hba
        refine List.pairwise_cons.2 ⟨fun x hx => ?_, ih h.2⟩
        rcases mem_place.1 hx with rfl | hx
        · exact hba
        · exact h.1 x hx
      · exact List.pairwise_cons.2 h

/-! ## §2 Operations -/

instance : Membership α (Ascending α) where
  mem s a := a ∈ s.toList

theorem mem_iff {a : α} {s : Ascending α} : a ∈ s ↔ a ∈ s.toList := Iff.rfl

instance [DecidableEq α] (a : α) (s : Ascending α) : Decidable (a ∈ s) :=
  inferInstanceAs (Decidable (a ∈ s.toList))

instance [DecidableEq α] : DecidableEq (Ascending α) := fun s t =>
  decidable_of_iff (s.toList = t.toList)
    ⟨fun h => by cases s; cases t; cases h; rfl, fun h => h ▸ rfl⟩

instance : EmptyCollection (Ascending α) := ⟨⟨[], List.Pairwise.nil⟩⟩

instance : Inhabited (Ascending α) := ⟨∅⟩

/-- The set with one more member. -/
def insert (s : Ascending α) (a : α) : Ascending α :=
  ⟨place a s.toList, sorted_place a s.sorted⟩

/-- The set of one member. -/
def singleton (a : α) : Ascending α := insert ∅ a

/-- The set with all members of a list added. -/
def insertAll (s : Ascending α) (l : List α) : Ascending α :=
  l.foldl insert s

/-- The set of the members of a list. -/
def ofList (l : List α) : Ascending α := insertAll ∅ l

/-- The members of either set. -/
def union (s t : Ascending α) : Ascending α := s.insertAll t.toList

/-- The members of the first set that are not in the second. -/
def sdiff [DecidableEq α] (s t : Ascending α) : Ascending α :=
  ⟨s.toList.filter (· ∉ t), s.sorted.filter _⟩

/-- Whether every member of the first set is in the second. -/
def isSubset [DecidableEq α] (s t : Ascending α) : Bool := s.toList.all (· ∈ t)

/-- Whether the two sets have a member in common. -/
def intersects [DecidableEq α] (s t : Ascending α) : Bool := s.toList.any (· ∈ t)

/-- The number of members. -/
def size (s : Ascending α) : Nat := s.toList.length

/-- Whether the set has no members. -/
def isEmpty (s : Ascending α) : Bool := s.toList.isEmpty

/-! ## §3 Membership -/

@[simp]
theorem not_mem_empty (a : α) : a ∉ (∅ : Ascending α) := List.not_mem_nil

@[simp]
theorem mem_insert {a x : α} {s : Ascending α} : x ∈ s.insert a ↔ x = a ∨ x ∈ s := mem_place

@[simp]
theorem mem_singleton {a x : α} : x ∈ singleton a ↔ x = a := by
  simp [singleton]

@[simp]
theorem mem_insertAll {x : α} {s : Ascending α} {l : List α} :
    x ∈ s.insertAll l ↔ x ∈ s ∨ x ∈ l := by
  induction l generalizing s with
  | nil => simp [insertAll]
  | cons a rest ih =>
    have : s.insertAll (a :: rest) = (s.insert a).insertAll rest := rfl
    rw [this, ih, mem_insert, List.mem_cons]
    exact ⟨by rintro ((h | h) | h) <;> simp [h], by rintro (h | h | h) <;> simp [h]⟩

@[simp]
theorem mem_ofList {x : α} {l : List α} : x ∈ ofList l ↔ x ∈ l := by
  simp [ofList]

@[simp]
theorem mem_union {x : α} {s t : Ascending α} : x ∈ s.union t ↔ x ∈ s ∨ x ∈ t := mem_insertAll

@[simp]
theorem mem_sdiff [DecidableEq α] {x : α} {s t : Ascending α} : x ∈ s.sdiff t ↔ x ∈ s ∧ x ∉ t := by
  simp [sdiff, mem_iff]

theorem isSubset_iff [DecidableEq α] {s t : Ascending α} :
    s.isSubset t = true ↔ ∀ x ∈ s, x ∈ t := by
  simp [isSubset, mem_iff]

theorem intersects_iff [DecidableEq α] {s t : Ascending α} :
    s.intersects t = true ↔ ∃ x ∈ s, x ∈ t := by
  simp [intersects, mem_iff]

theorem isEmpty_iff {s : Ascending α} : s.isEmpty = true ↔ s = ∅ := by
  cases s with
  | mk l h =>
    cases l with
    | nil => exact ⟨fun _ => rfl, fun _ => rfl⟩
    | cons a rest =>
      refine ⟨fun he => by simp [isEmpty] at he, fun he => ?_⟩
      exact absurd (congrArg toList he) (List.cons_ne_nil a rest)

/-! ## §4 Extensionality -/

/-- A sorted list is determined by its members. -/
private theorem eq_of_mem_iff {l m : List α} (hl : l.Pairwise Before) (hm : m.Pairwise Before)
    (h : ∀ x, x ∈ l ↔ x ∈ m) : l = m := by
  induction l generalizing m with
  | nil =>
    cases m with
    | nil => rfl
    | cons b _ => exact absurd ((h b).2 List.mem_cons_self) List.not_mem_nil
  | cons a rest ih =>
    cases m with
    | nil => exact absurd ((h a).1 List.mem_cons_self) List.not_mem_nil
    | cons b tail =>
      rw [List.pairwise_cons] at hl hm
      -- the least members agree, because each occurs in the other list
      have hab : a = b := by
        rcases List.mem_cons.1 ((h a).1 List.mem_cons_self) with hab | ha
        · exact hab
        · rcases List.mem_cons.1 ((h b).2 List.mem_cons_self) with hba | hb
          · exact hba.symm
          · exact absurd (hl.1 b hb) (hm.1 a ha).asymm
      subst hab
      refine congrArg (a :: ·) (ih hl.2 hm.2 fun x => ⟨fun hx => ?_, fun hx => ?_⟩)
      · rcases List.mem_cons.1 ((h x).1 (List.mem_cons_of_mem a hx)) with rfl | hx'
        · exact absurd (hl.1 x hx) (Ranked.Before.irrefl x)
        · exact hx'
      · rcases List.mem_cons.1 ((h x).2 (List.mem_cons_of_mem a hx)) with rfl | hx'
        · exact absurd (hm.1 x hx) (Ranked.Before.irrefl x)
        · exact hx'

/-- **Extensionality**: a set is determined by its members. -/
theorem ext_mem {s t : Ascending α} (h : ∀ x, x ∈ s ↔ x ∈ t) : s = t := by
  cases s with
  | mk l hl =>
    cases t with
    | mk m hm =>
      have : l = m := eq_of_mem_iff hl hm h
      subst this
      rfl

end Ascending

end PointsTo
