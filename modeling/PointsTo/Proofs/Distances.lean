import PointsTo.Proofs.Traversal

/-!
# Distances

A breadth-first enumeration lists what is near before what is far. The distance of a value is the least
number of steps that lead to it from one of the seeds. The enumeration never computes it, so the order has
to be read off the levels: when a level begins, everything at a smaller distance has been seen, and the
level holds whatever has just this distance.

Values of the first level are at the same distance. They come in the order in which the seeds name them
first.

- `BreadthFirst.ReachesIn`: a value is a number of steps away from a seed.
- `BreadthFirst.NoFarther`: a value is at most as far away as another one.
- `BreadthFirst.Layered.advance`, `BreadthFirst.Layered.pairwise_levels`: what a level and what all levels
  do.
- `pairwise_breadthFirst`: enumerations are ordered by distance.
- `idxOf_breadthFirst_lt_iff`: the order of the seeds.
-/

namespace PointsTo

namespace BreadthFirst

variable {α : Type} {next : α → List α} {seeds seen frontier : List α} {a b : α} {k n : Nat}

/-! ## §1 Steps -/

/-- A value is a number of steps away from one of the seeds. There may be several such numbers. -/
inductive ReachesIn (next : α → List α) (seeds : List α) : Nat → α → Prop
  /-- The seeds themselves are no step away. -/
  | seed {a : α} : a ∈ seeds → ReachesIn next seeds 0 a
  | step {n : Nat} {a b : α} : ReachesIn next seeds n a → b ∈ next a → ReachesIn next seeds (n + 1) b

/-- What is reached is some number of steps away. -/
theorem reaches_iff_exists : Reaches next seeds a ↔ ∃ n, ReachesIn next seeds n a := by
  constructor
  · rintro ⟨seed, hseed, hpath⟩
    induction hpath with
    | refl => exact ⟨0, .seed hseed⟩
    | tail _ hstep ih =>
      obtain ⟨n, hn⟩ := ih
      exact ⟨n + 1, hn.step hstep⟩
  · rintro ⟨n, hn⟩
    induction hn with
    | seed hseed => exact ⟨_, hseed, .refl⟩
    | step _ hstep ih =>
      obtain ⟨seed, hseed, hpath⟩ := ih
      exact ⟨seed, hseed, hpath.tail hstep⟩

/-- What the seeds lead to at once may take their place: everything else is one step nearer to it. -/
theorem reachesIn_flatMap : ReachesIn next (seeds.flatMap next) n a ↔ ReachesIn next seeds (n + 1) a := by
  constructor
  · intro h
    induction h with
    | seed hmem =>
      obtain ⟨seed, hseed, hstep⟩ := List.mem_flatMap.1 hmem
      exact (ReachesIn.seed hseed).step hstep
    | step _ hstep ih => exact ih.step hstep
  · intro h
    -- the last step is taken off until only the one from a seed is left
    induction n generalizing a with
    | zero =>
      cases h with
      | step hseed hstep =>
        cases hseed with
        | seed hseed => exact .seed (List.mem_flatMap.2 ⟨_, hseed, hstep⟩)
    | succ n ih =>
      cases h with
      | step hprevious hstep => exact (ih hprevious).step hstep

/-- A value is at most as far away as another one: however the other one is reached, the value is reached in
    no more steps. -/
def NoFarther (next : α → List α) (seeds : List α) (a b : α) : Prop :=
  ∀ n, ReachesIn next seeds n b → ∃ m ≤ n, ReachesIn next seeds m a

/-! ## §2 Levels -/

/-- Before the level with a number, precisely what takes fewer steps has been seen. The frontier holds what
    takes this number of steps, as far as it has not been seen, and nothing else. -/
structure Layered (next : α → List α) (seeds : List α) (k : Nat) (seen frontier : List α) : Prop where
  seen_iff : ∀ a, a ∈ seen ↔ ∃ n < k, ReachesIn next seeds n a
  reached : ∀ a ∈ frontier, ReachesIn next seeds k a
  complete : ∀ a, ReachesIn next seeds k a → a ∈ seen ∨ a ∈ frontier
  ordered : seen.Pairwise (NoFarther next seeds)

theorem Layered.first (next : α → List α) (seeds : List α) : Layered next seeds 0 [] seeds where
  seen_iff := by simp
  reached _ ha := .seed ha
  complete := by
    intro a ha
    cases ha with
    | seed ha => exact Or.inr ha
  ordered := .nil

/-- Nothing that is new in a level can be reached before. -/
theorem Layered.le_of_not_mem (h : Layered next seeds k seen frontier) (ha : a ∉ seen)
    (hn : ReachesIn next seeds n a) : k ≤ n := by
  by_contra hlt
  exact ha ((h.seen_iff a).2 ⟨n, Nat.lt_of_not_le hlt, hn⟩)

variable [DecidableEq α]

/-- After a level, what has been seen takes at most as many steps as the level says. -/
theorem Layered.exists_le (h : Layered next seeds k seen frontier) (ha : a ∈ seen ++ fresh seen frontier) :
    ∃ n ≤ k, ReachesIn next seeds n a := by
  rcases List.mem_append.1 ha with hold | hnew
  · obtain ⟨n, hn, hreach⟩ := (h.seen_iff a).1 hold
    exact ⟨n, Nat.le_of_lt hn, hreach⟩
  · exact ⟨k, Nat.le_refl k, h.reached a (mem_fresh.1 hnew).1⟩

/-- **Levels by distance**: a level keeps the invariant, with the next number. -/
theorem Layered.advance (h : Layered next seeds k seen frontier) :
    Layered next seeds (k + 1) (seen ++ fresh seen frontier) ((fresh seen frontier).flatMap next) where
  seen_iff := by
    intro a
    constructor
    · intro ha
      obtain ⟨n, hn, hreach⟩ := h.exists_le ha
      exact ⟨n, Nat.lt_succ_of_le hn, hreach⟩
    · rintro ⟨n, hn, hreach⟩
      apply mem_append_fresh
      rcases Nat.lt_succ_iff_lt_or_eq.1 hn with hlt | rfl
      · exact Or.inl ((h.seen_iff a).2 ⟨n, hlt, hreach⟩)
      · exact h.complete a hreach
  reached := by
    intro b hb
    obtain ⟨a, ha, hstep⟩ := List.mem_flatMap.1 hb
    exact (h.reached a (mem_fresh.1 ha).1).step hstep
  complete := by
    intro b hb
    cases hb with
    | @step _ a _ hreach hstep =>
      by_cases hseen : a ∈ seen
      · -- the value before was seen in an earlier level, so this one is no later than the present level
        obtain ⟨n, hn, hearlier⟩ := (h.seen_iff a).1 hseen
        left
        apply mem_append_fresh
        rcases Nat.lt_or_eq_of_le (Nat.succ_le_of_lt hn) with hlt | heq
        · exact Or.inl ((h.seen_iff b).2 ⟨n + 1, hlt, hearlier.step hstep⟩)
        · exact h.complete b (heq ▸ hearlier.step hstep)
      · -- it is new in the present level, whose successors come next
        have hfresh : a ∈ fresh seen frontier :=
          mem_fresh.2 ⟨(h.complete a hreach).resolve_left hseen, hseen⟩
        exact Or.inr (List.mem_flatMap.2 ⟨a, hfresh, hstep⟩)
  ordered := by
    -- what is new is at the distance of the level, and all that is listed up to here is no farther
    have hlast : ∀ a ∈ seen ++ fresh seen frontier, ∀ b ∈ fresh seen frontier,
        NoFarther next seeds a b := by
      intro a ha b hb n hn
      obtain ⟨m, hm, hreach⟩ := h.exists_le ha
      exact ⟨m, Nat.le_trans hm (h.le_of_not_mem (mem_fresh.1 hb).2 hn), hreach⟩
    apply List.pairwise_append.2
    refine ⟨h.ordered, ?_, ?_⟩
    · apply List.pairwise_of_forall_mem_list
      intro a ha b hb
      exact hlast a (List.mem_append_right _ ha) b hb
    · intro a ha b hb
      exact hlast a (List.mem_append_left _ ha) b hb

/-- However many levels there are, what they list is ordered. -/
theorem Layered.pairwise_levels (h : Layered next seeds k seen frontier) (n : Nat) :
    (levels next n seen frontier).Pairwise (NoFarther next seeds) := by
  induction n generalizing k seen frontier with
  | zero => exact h.ordered
  | succ n ih =>
    unfold levels
    split
    · exact h.ordered
    · exact ih h.advance

/-! ## §3 The first level -/

/-- The values of a level come in the order in which the frontier names them first. -/
theorem idxOf_fresh_lt_iff (ha : a ∈ frontier) (ha' : a ∉ seen) (hb : b ∈ frontier) (hb' : b ∉ seen) :
    (fresh seen frontier).idxOf a < (fresh seen frontier).idxOf b ↔
      frontier.idxOf a < frontier.idxOf b := by
  induction frontier generalizing seen with
  | nil => exact absurd ha List.not_mem_nil
  | cons x frontier ih =>
    by_cases hx : x ∈ seen
    · -- the head is passed over, and it is neither of the two
      have hxa : x ≠ a := fun h => ha' (h ▸ hx)
      have hxb : x ≠ b := fun h => hb' (h ▸ hx)
      have hrest := ih ((List.mem_cons.1 ha).resolve_left hxa.symm) ha'
        ((List.mem_cons.1 hb).resolve_left hxb.symm) hb'
      rw [fresh_cons_of_mem hx, hrest, List.idxOf_cons_ne _ hxa, List.idxOf_cons_ne _ hxb]
      exact Nat.succ_lt_succ_iff.symm
    · rw [fresh_cons_of_not_mem hx]
      by_cases hxa : x = a
      · subst hxa
        by_cases hxb : x = b
        · simp [hxb]
        · simp [List.idxOf_cons_ne _ hxb]
      · by_cases hxb : x = b
        · simp [hxb]
        · -- the head is counted on both sides
          have hnota : a ∉ seen ++ [x] := by simp [ha', Ne.symm hxa]
          have hnotb : b ∉ seen ++ [x] := by simp [hb', Ne.symm hxb]
          have hrest := ih ((List.mem_cons.1 ha).resolve_left (Ne.symm hxa)) hnota
            ((List.mem_cons.1 hb).resolve_left (Ne.symm hxb)) hnotb
          simpa [List.idxOf_cons_ne _ hxa, List.idxOf_cons_ne _ hxb] using hrest

end BreadthFirst

/-! ## §4 Enumerations -/

section BreadthFirst

variable {α : Type} [DecidableEq α] {next : α → List α} {seeds : List α} {size : Nat} {a b : α}

/-- **Enumerations by distance**: what is listed earlier is no farther from the seeds. -/
theorem pairwise_breadthFirst (size : Nat) (next : α → List α) (seeds : List α) :
    (breadthFirst size next seeds).Pairwise (BreadthFirst.NoFarther next seeds) :=
  (BreadthFirst.Layered.first next seeds).pairwise_levels (size + 1)

/-- The first level is listed first. -/
theorem fresh_isPrefix_breadthFirst (size : Nat) (next : α → List α) (seeds : List α) :
    BreadthFirst.fresh [] seeds <+: breadthFirst size next seeds := by
  unfold breadthFirst BreadthFirst.levels
  split
  · rename_i hfresh
    simp [hfresh]
  · rw [List.nil_append]
    exact BreadthFirst.isPrefix_levels size

/-- **Seeds**: they are listed in the order of their first occurrences. -/
theorem idxOf_breadthFirst_lt_iff (ha : a ∈ seeds) (hb : b ∈ seeds) :
    (breadthFirst size next seeds).idxOf a < (breadthFirst size next seeds).idxOf b ↔
      seeds.idxOf a < seeds.idxOf b := by
  obtain ⟨rest, hrest⟩ := fresh_isPrefix_breadthFirst size next seeds
  have hmem : ∀ x ∈ seeds, x ∈ BreadthFirst.fresh [] seeds := fun x hx =>
    BreadthFirst.mem_fresh.2 ⟨hx, List.not_mem_nil⟩
  rw [← hrest, List.idxOf_append_of_mem (hmem a ha), List.idxOf_append_of_mem (hmem b hb)]
  exact BreadthFirst.idxOf_fresh_lt_iff ha List.not_mem_nil hb List.not_mem_nil

end BreadthFirst

end PointsTo
