import Mathlib.Data.List.Nodup
import Mathlib.Data.List.Perm.Subperm
import Mathlib.Logic.Relation
import PointsTo.Proofs.WellFormed

/-!
# Walks along supertypes

The library cuts walks along supertypes off after as many rounds as there are classes. Here the walks are
described without a bound: a superclass chain is followed until it ends, interfaces are explored through
a queue until the queue is empty, and every class that is met on the way must have an entry. A walk that
meets a missing class or never ends has no answer.

In a program with a sound hierarchy the walks have the answers that the library computes, so the bounds
of the library are never reached.

- `Program.SoundHierarchy`: supertypes have entries, and no class is its own ancestor.
- `Program.length_ancestry_le_iff`: a cut-off chain shows whether there is a cycle.
- `Strict.loop`: loops without a bound on their rounds.
- `Strict.superclasses`, `Strict.superinterfaces`, `Strict.lookup`: the walks.
- `Strict.superclasses_eq`, `Strict.superinterfaces_eq`, `Strict.lookup_eq`: their answers.
-/

namespace PointsTo

/-! ## §1 Superclass chains -/

namespace Program

variable {p : Program} {c d : ClassId} {n : Nat}

/-- One class extends another. -/
def Inherits (p : Program) (c d : ClassId) : Prop := p.superclassOf c = some d

/-- Supertypes have entries, and no class is its own ancestor. -/
structure SoundHierarchy (p : Program) : Prop where
  superclasses : ∀ cls ∈ p.classes, ∀ parent, cls.superclass = some parent →
    parent.index < p.classes.size
  interfaces : ∀ cls ∈ p.classes, ∀ iface ∈ cls.interfaces, iface.index < p.classes.size
  acyclic : ∀ c, ¬ Relation.TransGen p.Inherits c c

theorem exists_class?_of_lt (h : c.index < p.classes.size) :
    ∃ cls, p.class? c = some cls ∧ cls ∈ p.classes :=
  ⟨_, Array.getElem?_eq_getElem h, Array.getElem_mem h⟩

theorem mem_classes_of_class? {cls : Class} (h : p.class? c = some cls) : cls ∈ p.classes :=
  Array.mem_of_getElem? h

theorem inherits_iff : p.Inherits c d ↔ ∃ cls, p.class? c = some cls ∧ cls.superclass = some d :=
  Option.bind_eq_some_iff

theorem mem_ancestry (h : d ∈ p.ancestry n c) : Relation.ReflTransGen p.Inherits c d := by
  induction n generalizing c with
  | zero => exact absurd h List.not_mem_nil
  | succ n ih =>
    unfold ancestry at h
    split at h
    · rw [List.mem_singleton.1 h]
    · rename_i parent hparent
      rcases List.mem_cons.1 h with rfl | h
      · exact .refl
      · exact .head hparent (ih h)

/-- Without cycles no class occurs twice in a chain. -/
theorem nodup_ancestry (h : ∀ c, ¬ Relation.TransGen p.Inherits c c) : (p.ancestry n c).Nodup := by
  induction n generalizing c with
  | zero => exact List.nodup_nil
  | succ n ih =>
    unfold ancestry
    split
    · exact List.nodup_singleton c
    · rename_i parent hparent
      refine List.nodup_cons.2 ⟨fun hmem => h c ?_, ih⟩
      -- a second occurrence would be an ancestor of the parent
      exact .head' hparent (mem_ancestry hmem)

theorem index_lt_of_mem_ancestry
    (hlinks : ∀ cls ∈ p.classes, ∀ parent, cls.superclass = some parent →
      parent.index < p.classes.size)
    (hc : c.index < p.classes.size) (h : d ∈ p.ancestry n c) : d.index < p.classes.size := by
  have hreach := mem_ancestry h
  induction hreach with
  | refl => exact hc
  | tail _ hlink _ =>
    obtain ⟨cls, hcls, hparent⟩ := inherits_iff.1 hlink
    exact hlinks cls (mem_classes_of_class? hcls) _ hparent

theorem length_classIds : p.classIds.length = p.classes.size := by
  simp [classIds, Id.below]

/-- Different identifiers with entries in the class table are at most as many as there are classes. -/
theorem length_le_size_classes {l : List ClassId} (hnodup : l.Nodup)
    (hlt : ∀ c ∈ l, c.index < p.classes.size) : l.length ≤ p.classes.size := by
  have hsub : l ⊆ p.classIds := fun c hc => Id.mem_below.2 (hlt c hc)
  have hlength := (List.subperm_of_subset hnodup hsub).length_le
  rwa [length_classIds] at hlength

/-- The chain of a class on a cycle goes on for ever. -/
theorem length_ancestry_of_cycle (h : Relation.TransGen p.Inherits c c) (n : Nat) :
    (p.ancestry n c).length = n := by
  induction n generalizing c with
  | zero => rfl
  | succ n ih =>
    obtain ⟨parent, hparent, hback⟩ := Relation.TransGen.head'_iff.1 h
    -- the parent is on the same cycle
    have hcycle : Relation.TransGen p.Inherits parent parent := .tail' hback hparent
    have hlink : p.superclassOf c = some parent := hparent
    simp only [ancestry, hlink, List.length_cons, ih hcycle]

/-- **Cycles**: if superclasses have entries, then the chains of all classes, cut off one class too late,
    are short exactly if there is no cycle. -/
theorem length_ancestry_le_iff
    (hlinks : ∀ cls ∈ p.classes, ∀ parent, cls.superclass = some parent →
      parent.index < p.classes.size) :
    (∀ c, c.index < p.classes.size →
        (p.ancestry (p.classes.size + 1) c).length ≤ p.classes.size) ↔
      ∀ c, ¬ Relation.TransGen p.Inherits c c := by
  constructor
  · intro hshort c hcycle
    -- a class on a cycle extends another, so it has an entry
    obtain ⟨parent, hparent, _⟩ := Relation.TransGen.head'_iff.1 hcycle
    obtain ⟨cls, hcls, _⟩ := inherits_iff.1 hparent
    have hle := hshort c (Array.getElem?_eq_some_iff.1 hcls).1
    rw [length_ancestry_of_cycle hcycle] at hle
    exact absurd hle (Nat.not_succ_le_self _)
  · intro hacyclic c hc
    apply length_le_size_classes (nodup_ancestry hacyclic)
    intro d hd
    exact index_lt_of_mem_ancestry hlinks hc hd

/-- A chain that ends before it is cut off is the same when it is cut off later. -/
theorem ancestry_succ_eq (h : (p.ancestry (n + 1) c).length ≤ n) :
    p.ancestry (n + 1) c = p.ancestry n c := by
  induction n generalizing c with
  | zero =>
    have hnil := List.length_eq_zero_iff.1 (Nat.le_zero.1 h)
    rw [hnil]
    rfl
  | succ n ih =>
    cases hparent : p.superclassOf c with
    | none => simp [ancestry, hparent]
    | some parent =>
      have htail : (p.ancestry (n + 1) parent).length ≤ n := by
        rw [ancestry, hparent] at h
        exact Nat.le_of_succ_le_succ h
      have hsame := ih htail
      rw [ancestry, hparent]
      conv => rhs; rw [ancestry, hparent]
      exact congrArg (c :: ·) hsame

end Program

/-! ## §2 Loops -/

/- In this namespace a function has an answer only if every identifier that is followed has an entry and
   every loop ends. -/
namespace Strict

section Loops

variable {σ τ : Type} {body : σ → Option (σ ⊕ τ)} {s t : σ} {result : τ} {n : Nat}

/-- What a loop arrives at within a number of rounds. A round either goes on, on the left, or stops, on
    the right. -/
def within (body : σ → Option (σ ⊕ τ)) : Nat → σ → Option τ
  | 0, _ => none
  | n + 1, s => (body s).bind (Sum.elim (within body n) some)

open Classical in
/-- What a loop arrives at, however many rounds it takes. There is no answer if a round has none, or if
    the loop goes on for ever. -/
noncomputable def loop (body : σ → Option (σ ⊕ τ)) (s : σ) : Option τ :=
  if h : ∃ result n, within body n s = some result then some h.choose else none

theorem within_succ (h : within body n s = some result) : within body (n + 1) s = some result := by
  induction n generalizing s with
  | zero => exact absurd h.symm (Option.some_ne_none result)
  | succ n ih =>
    unfold within at h ⊢
    obtain ⟨next, hround, hrest⟩ := Option.bind_eq_some_iff.1 h
    rw [hround, Option.bind_some]
    cases next with
    | inl t => exact ih hrest
    | inr _ => exact hrest

theorem within_of_le {m : Nat} (hle : m ≤ n) (h : within body m s = some result) :
    within body n s = some result := by
  induction hle with
  | refl => exact h
  | step _ ih => exact within_succ ih

/-- A loop arrives at one result at most, whatever the number of rounds. -/
theorem loop_eq_some_iff : loop body s = some result ↔ ∃ n, within body n s = some result := by
  unfold loop
  split
  · rename_i h
    obtain ⟨n, hn⟩ := h.choose_spec
    rw [Option.some.injEq]
    refine ⟨fun heq => ⟨n, heq ▸ hn⟩, fun ⟨m, hm⟩ => ?_⟩
    -- both results are reached within the larger number of rounds
    have hchosen := within_of_le (Nat.le_max_left n m) hn
    rw [within_of_le (Nat.le_max_right n m) hm] at hchosen
    exact (Option.some.inj hchosen).symm
  · rename_i h
    exact ⟨fun heq => absurd heq.symm (Option.some_ne_none _), fun hn => absurd ⟨result, hn⟩ h⟩

theorem loop_of_stop (h : body s = some (.inr result)) : loop body s = some result :=
  loop_eq_some_iff.2 ⟨1, by simp [within, h]⟩

theorem loop_of_go (h : body s = some (.inl t)) : loop body s = loop body t := by
  have hround : ∀ n, within body (n + 1) s = within body n t := fun n => by simp [within, h]
  apply Option.ext
  intro result
  rw [loop_eq_some_iff, loop_eq_some_iff]
  constructor
  · rintro ⟨n, hn⟩
    exact ⟨n, hround n ▸ within_succ hn⟩
  · rintro ⟨n, hn⟩
    exact ⟨n + 1, (hround n).trans hn⟩

end Loops

/-! Loops over lists are bounded; they have an answer if all of their rounds have one. -/

section Lists

variable {α β : Type} {l : List α}

theorem mapM_eq {f : α → Option β} {g : α → β} (h : ∀ a ∈ l, f a = some (g a)) :
    l.mapM f = some (l.map g) := by
  induction l with
  | nil => rfl
  | cons a rest ih =>
    have hrest := ih fun b hb => h b (List.mem_cons_of_mem a hb)
    simp [List.mapM_cons, h a List.mem_cons_self, hrest]

theorem forM_eq {f : α → Option Unit} (h : ∀ a ∈ l, f a = some ()) : l.forM f = some () := by
  induction l with
  | nil => rfl
  | cons a rest ih =>
    have hrest := ih fun b hb => h b (List.mem_cons_of_mem a hb)
    rw [List.forM, h a List.mem_cons_self]
    exact hrest

/-- A fold has an answer if its rounds have answers under a condition that they keep. -/
theorem foldlM_eq {f : β → α → Option β} {g : β → α → β} {P : β → Prop}
    (h : ∀ b, P b → ∀ a ∈ l, f b a = some (g b a) ∧ P (g b a)) {b : β} (hb : P b) :
    l.foldlM f b = some (l.foldl g b) := by
  induction l generalizing b with
  | nil => rfl
  | cons a rest ih =>
    obtain ⟨hround, hkept⟩ := h b hb a List.mem_cons_self
    rw [List.foldlM_cons, hround, List.foldl_cons]
    exact ih (fun b hb a ha => h b hb a (List.mem_cons_of_mem _ ha)) hkept

end Lists

end Strict

/-! ## §3 Exploration with a queue -/

namespace BreadthFirst

variable {α : Type} [DecidableEq α]

/-- Takes a value from a queue. If it is new, its successors wait behind the rest. -/
def exploreRound (next? : α → Option (List α)) :
    List α × List α → Option ((List α × List α) ⊕ List α)
  | (seen, []) => return .inr seen
  | (seen, a :: queue) => do
    if a ∈ seen then return .inl (seen, queue)
    else
      let found ← next? a
      return .inl (seen ++ [a], queue ++ found)

/-- Explores what a queue leads to, nearest first, until the queue is empty. There is no answer if a
    value that is met has no successors to tell, or if the queue never gets empty. -/
noncomputable def explore (next? : α → Option (List α)) (seen queue : List α) : Option (List α) :=
  Strict.loop (exploreRound next?) (seen, queue)

variable {next? : α → Option (List α)} {next : α → List α} {seen : List α}

theorem fresh_cons_of_mem {a : α} {frontier : List α} (h : a ∈ seen) :
    fresh seen (a :: frontier) = fresh seen frontier := by
  simp [fresh, h]

theorem fresh_cons_of_not_mem {a : α} {frontier : List α} (h : a ∉ seen) :
    fresh seen (a :: frontier) = a :: fresh (seen ++ [a]) frontier := by
  have hfilter : (frontier.filter (· ∉ seen)).filter (fun b => !b == a) =
      frontier.filter (· ∉ seen ++ [a]) := by
    rw [List.filter_filter]
    apply List.filter_congr
    intro b _
    by_cases hb : b = a <;> simp [hb]
  have hkept : (a :: frontier).filter (· ∉ seen) = a :: frontier.filter (· ∉ seen) := by
    simp [h]
  unfold fresh
  rw [hkept, List.eraseDups_cons, hfilter]

theorem mem_fresh {a : α} {frontier : List α} : a ∈ fresh seen frontier ↔ a ∈ frontier ∧ a ∉ seen := by
  simp [fresh]

theorem nodup_fresh (frontier : List α) : (fresh seen frontier).Nodup := by
  induction frontier generalizing seen with
  | nil => exact List.nodup_nil
  | cons a frontier ih =>
    by_cases ha : a ∈ seen
    · rw [fresh_cons_of_mem ha]
      exact ih
    · rw [fresh_cons_of_not_mem ha, List.nodup_cons]
      refine ⟨fun hmem => (mem_fresh.1 hmem).2 ?_, ih⟩
      simp

/-- Taking a whole level off the queue has the effect of taking its values one by one. -/
theorem explore_level {U : α → Prop} (hnext : ∀ a, U a → next? a = some (next a))
    {frontier : List α} (hfrontier : ∀ a ∈ frontier, U a) (rest : List α) :
    explore next? seen (frontier ++ rest) =
      explore next? (seen ++ fresh seen frontier) (rest ++ (fresh seen frontier).flatMap next) := by
  induction frontier generalizing seen rest with
  | nil => simp [fresh]
  | cons a frontier ih =>
    have htail : ∀ b ∈ frontier, U b := fun b hb => hfrontier b (List.mem_cons_of_mem a hb)
    rw [List.cons_append]
    by_cases ha : a ∈ seen
    · rw [fresh_cons_of_mem ha]
      exact (Strict.loop_of_go (by simp [exploreRound, ha])).trans (ih htail rest)
    · -- the successors of the value wait behind the rest of its level
      have hround : exploreRound next? (seen, a :: (frontier ++ rest)) =
          some (.inl (seen ++ [a], frontier ++ rest ++ next a)) := by
        simp [exploreRound, ha, hnext a (hfrontier a List.mem_cons_self)]
      have hgo : explore next? seen (a :: (frontier ++ rest)) =
          explore next? (seen ++ [a]) (frontier ++ (rest ++ next a)) := by
        rw [← List.append_assoc]
        exact Strict.loop_of_go hround
      rw [hgo, ih htail (rest ++ next a), fresh_cons_of_not_mem ha]
      simp [List.append_assoc]

/-- **Queues and levels**: if `size` values cover all that is ever met, and each of them has successors
    to tell, then exploring with a queue gives what exploring level by level gives, with enough levels. -/
theorem explore_eq_levels {U : List α}
    (hnext : ∀ a ∈ U, next? a = some (next a))
    (hclosed : ∀ a ∈ U, ∀ b ∈ next a, b ∈ U) {frontier : List α} (n : Nat)
    (hseen : ∀ a ∈ seen, a ∈ U) (hnodup : seen.Nodup)
    (hfrontier : ∀ a ∈ frontier, a ∈ U) (hn : U.length < n + seen.length) :
    explore next? seen frontier = some (levels next n seen frontier) := by
  induction n generalizing seen frontier with
  | zero =>
    -- more values than there are cannot have been seen
    have hle := (List.subperm_of_subset hnodup hseen).length_le
    omega
  | succ n ih =>
    have hlevel : explore next? seen (frontier ++ []) = _ := explore_level hnext hfrontier []
    rw [List.append_nil, List.nil_append] at hlevel
    rw [hlevel]
    unfold levels
    split
    · rename_i hfresh
      rw [hfresh, List.append_nil, List.flatMap_nil]
      exact Strict.loop_of_stop rfl
    · rename_i hne
      have hfresh : ∀ a ∈ fresh seen frontier, a ∈ U := fun a ha =>
        hfrontier a (mem_fresh.1 ha).1
      apply ih
      · intro a ha
        exact (List.mem_append.1 ha).elim (hseen a) (hfresh a)
      · refine hnodup.append (nodup_fresh frontier) fun a ha hnew => ?_
        exact (mem_fresh.1 hnew).2 ha
      · intro b hb
        obtain ⟨a, ha, hb⟩ := List.mem_flatMap.1 hb
        exact hclosed a (hfresh a ha) b hb
      · -- every level but the last brings something new
        have hpos : 0 < (fresh seen frontier).length := List.length_pos_iff.2 hne
        rw [List.length_append]
        omega

theorem mem_of_mem_levels {U : List α} (hclosed : ∀ a ∈ U, ∀ b ∈ next a, b ∈ U) (n : Nat)
    {frontier : List α} (hseen : ∀ a ∈ seen, a ∈ U) (hfrontier : ∀ a ∈ frontier, a ∈ U) :
    ∀ a ∈ levels next n seen frontier, a ∈ U := by
  induction n generalizing seen frontier with
  | zero => exact hseen
  | succ n ih =>
    have hfresh : ∀ a ∈ fresh seen frontier, a ∈ U := fun a ha => hfrontier a (mem_fresh.1 ha).1
    unfold levels
    split
    · exact hseen
    · apply ih
      · intro a ha
        exact (List.mem_append.1 ha).elim (hseen a) (hfresh a)
      · intro b hb
        obtain ⟨a, ha, hb⟩ := List.mem_flatMap.1 hb
        exact hclosed a (hfresh a ha) b hb

end BreadthFirst

/-! ## §4 Strict lookup -/

namespace Strict

open Program

/-- Puts a class behind those below it and goes on to its superclass. -/
def superclassRound (p : Program) :
    List ClassId × ClassId → Option ((List ClassId × ClassId) ⊕ List ClassId)
  | (below, c) => do
    let cls ← p.class? c
    match cls.superclass with
    | none => return .inr (below ++ [c])
    | some parent => return .inl (below ++ [c], parent)

/-- The superclass chain of a class, followed until it ends. -/
noncomputable def superclasses (p : Program) (c : ClassId) : Option (List ClassId) :=
  loop (superclassRound p) ([], c)

/-- The interfaces that a class lists. -/
def interfacesOf (p : Program) (c : ClassId) : Option (List ClassId) :=
  (p.class? c).map Class.interfaces

/-- The interfaces of a class and of its superclasses and all that those extend, explored until
    nothing is left. -/
noncomputable def superinterfaces (p : Program) (c : ClassId) : Option (List ClassId) := do
  let chain ← superclasses p c
  let direct ← chain.mapM (interfacesOf p)
  BreadthFirst.explore (interfacesOf p) [] direct.flatten

/-- The first acceptable method that classes declare under a subsignature. -/
def firstDeclared (p : Program) (accept : Method → Bool) (s : Subsignature) :
    List ClassId → Option (Option MethodId)
  | [] => return none
  | c :: rest => do
    let cls ← p.class? c
    match cls.methods.lookup s with
    | none => firstDeclared p accept s rest
    | some m =>
      let method ← p.method? m
      if accept method then return some m else firstDeclared p accept s rest

/-- The acceptable method that a class sees under a subsignature. Interfaces are explored only if no
    superclass has one. -/
noncomputable def lookup (p : Program) (accept : Method → Bool) (c : ClassId) (s : Subsignature) :
    Option (Option MethodId) := do
  let chain ← superclasses p c
  match ← firstDeclared p accept s chain with
  | some m => return some m
  | none =>
    let ifaces ← superinterfaces p c
    firstDeclared p accept s ifaces

/-- The method that runs when an instance of a class is called. -/
noncomputable def dispatch (p : Program) (c : ClassId) (s : Subsignature) : Option (Option MethodId) :=
  lookup p (!·.isAbstract) c s

/-- The method that runs when an object of a type is called. -/
noncomputable def dispatchOnType (p : Program) (ty : Ty) (s : Subsignature) : Option (Option MethodId) :=
  match ty, p.objectClass with
  | .ofClass c, _ => dispatch p c s
  | .array _, some root => dispatch p root s
  | .array _, none => return none

/-- The declaration that a reference means. -/
noncomputable def resolve (p : Program) (ref : MethodRef) : Option (Option MethodId) :=
  lookup p (fun _ => true) ref.start ref.subsignature

/-! ## §5 The answers -/

section Answers

variable {p : Program} {c : ClassId}

theorem loop_superclassRound (h : p.SoundHierarchy) (n : Nat) (below : List ClassId)
    (hc : c.index < p.classes.size) (hlength : (p.ancestry n c).length < n) :
    loop (superclassRound p) (below, c) = some (below ++ p.ancestry n c) := by
  induction n generalizing below c with
  | zero => exact absurd hlength (Nat.not_lt_zero _)
  | succ n ih =>
    obtain ⟨cls, hcls, hmem⟩ := exists_class?_of_lt hc
    cases hparent : cls.superclass with
    | none =>
      have hend : p.superclassOf c = none := by simp [superclassOf, hcls, hparent]
      rw [ancestry, hend]
      exact loop_of_stop (by simp [superclassRound, hcls, hparent])
    | some parent =>
      have hlink : p.superclassOf c = some parent := by simp [superclassOf, hcls, hparent]
      have hgo : superclassRound p (below, c) = some (.inl (below ++ [c], parent)) := by
        simp [superclassRound, hcls, hparent]
      rw [ancestry, hlink] at hlength ⊢
      have htail := ih (below ++ [c]) (h.superclasses cls hmem parent hparent)
        (Nat.lt_of_succ_lt_succ hlength)
      rw [loop_of_go hgo, htail, List.append_assoc]
      rfl

/-- The chain of superclasses ends, and all of it is there. -/
theorem superclasses_eq (h : p.SoundHierarchy) (hc : c.index < p.classes.size) :
    superclasses p c = some (p.superclasses c) := by
  have hlength := (length_ancestry_le_iff h.superclasses).2 h.acyclic c hc
  have hchain := loop_superclassRound h _ [] hc (Nat.lt_succ_of_le hlength)
  rw [ancestry_succ_eq hlength] at hchain
  exact hchain

theorem index_lt_of_mem_superclasses (h : p.SoundHierarchy) (hc : c.index < p.classes.size)
    {d : ClassId} (hd : d ∈ p.superclasses c) : d.index < p.classes.size :=
  index_lt_of_mem_ancestry h.superclasses hc hd

theorem interfacesOf_eq (hc : c.index < p.classes.size) :
    interfacesOf p c = some (p.interfacesOf c) := by
  obtain ⟨cls, hcls, _⟩ := exists_class?_of_lt hc
  simp [interfacesOf, Program.interfacesOf, hcls]

theorem index_lt_of_mem_interfacesOf (h : p.SoundHierarchy) {iface : ClassId}
    (hiface : iface ∈ p.interfacesOf c) : iface.index < p.classes.size := by
  unfold Program.interfacesOf at hiface
  split at hiface
  · exact absurd hiface List.not_mem_nil
  · rename_i cls hcls
    exact h.interfaces cls (mem_classes_of_class? hcls) iface hiface

/-- The exploration of the superinterfaces ends, and all of them are there. -/
theorem superinterfaces_eq (h : p.SoundHierarchy) (hc : c.index < p.classes.size) :
    superinterfaces p c = some (p.superinterfaces c) := by
  have hchain : ∀ d ∈ p.superclasses c, d.index < p.classes.size := fun d hd =>
    index_lt_of_mem_superclasses h hc hd
  have hexplore : BreadthFirst.explore (interfacesOf p) []
      ((p.superclasses c).flatMap p.interfacesOf) = some (p.superinterfaces c) := by
    apply BreadthFirst.explore_eq_levels (U := p.classIds)
    · exact fun d hd => interfacesOf_eq (Id.mem_below.1 hd)
    · exact fun _ _ iface hiface => Id.mem_below.2 (index_lt_of_mem_interfacesOf h hiface)
    · exact fun _ hd => absurd hd List.not_mem_nil
    · exact List.nodup_nil
    · intro iface hiface
      obtain ⟨d, _, hd⟩ := List.mem_flatMap.1 hiface
      exact Id.mem_below.2 (index_lt_of_mem_interfacesOf h hd)
    · simp [length_classIds]
  unfold superinterfaces
  rw [superclasses_eq h hc, Option.bind_eq_bind, Option.bind_some, mapM_eq fun d hd => interfacesOf_eq (hchain d hd),
    Option.bind_eq_bind, Option.bind_some, ← List.flatMap_def]
  exact hexplore

theorem index_lt_of_mem_superinterfaces (h : p.SoundHierarchy) {iface : ClassId}
    (hiface : iface ∈ p.superinterfaces c) : iface.index < p.classes.size := by
  refine Id.mem_below.1 (BreadthFirst.mem_of_mem_levels (U := p.classIds) ?_ _ ?_ ?_ iface hiface)
  · exact fun _ _ iface hiface => Id.mem_below.2 (index_lt_of_mem_interfacesOf h hiface)
  · exact fun _ hd => absurd hd List.not_mem_nil
  · intro iface hiface
    obtain ⟨d, _, hd⟩ := List.mem_flatMap.1 hiface
    exact Id.mem_below.2 (index_lt_of_mem_interfacesOf h hd)

variable (hdeclared : ∀ {c s m}, p.declaredMethod? c s = some m → m.index < p.methods.size)

include hdeclared

theorem firstDeclared_eq (accept : Method → Bool) (s : Subsignature) {l : List ClassId}
    (hl : ∀ c ∈ l, c.index < p.classes.size) :
    firstDeclared p accept s l =
      some ((l.filterMap (p.declaredMethod? · s)).find? fun m => (p.method? m).any accept) := by
  induction l with
  | nil => rfl
  | cons c rest ih =>
    have hrest := ih fun d hd => hl d (List.mem_cons_of_mem c hd)
    obtain ⟨cls, hcls, _⟩ := exists_class?_of_lt (hl c List.mem_cons_self)
    have hlookup : p.declaredMethod? c s = cls.methods.lookup s := by simp [declaredMethod?, hcls]
    rw [firstDeclared, hcls, Option.bind_eq_bind, Option.bind_some, List.filterMap_cons, hlookup]
    cases hm : cls.methods.lookup s with
    | none => exact hrest
    | some m =>
      -- a declared method has an entry, so it can be examined
      obtain ⟨method, hmethod⟩ : ∃ method, p.method? m = some method :=
        ⟨_, Array.getElem?_eq_getElem (hdeclared (hlookup.trans hm))⟩
      cases haccept : accept method <;> simp [hmethod, haccept, hrest]

/-- **Lookup**: the methods that a class sees, in the order of preference, up to the first acceptable
    one. -/
theorem lookup_eq (h : p.SoundHierarchy) (accept : Method → Bool) (hc : c.index < p.classes.size)
    (s : Subsignature) :
    lookup p accept c s = some ((p.visibleMethods c s).find? fun m => (p.method? m).any accept) := by
  have hchain : ∀ d ∈ p.superclasses c, d.index < p.classes.size := fun d hd =>
    index_lt_of_mem_superclasses h hc hd
  have hifaces : ∀ d ∈ p.superinterfaces c, d.index < p.classes.size := fun d hd =>
    index_lt_of_mem_superinterfaces h hd
  unfold lookup visibleMethods
  rw [superclasses_eq h hc, superinterfaces_eq h hc, List.filterMap_append, List.find?_append]
  simp only [Option.bind_eq_bind, Option.bind_some, firstDeclared_eq hdeclared accept s hchain,
    firstDeclared_eq hdeclared accept s hifaces]
  split
  · rename_i hsome
    simp [hsome]
  · rename_i hnone
    simp [hnone]

theorem dispatch_eq (h : p.SoundHierarchy) (hc : c.index < p.classes.size) (s : Subsignature) :
    dispatch p c s = some (p.dispatch c s) :=
  lookup_eq hdeclared h _ hc s

theorem dispatchOnType_eq (h : p.SoundHierarchy) {ty : Ty} (hty : ty.baseClass.index < p.classes.size)
    (hroot : ∀ root, p.objectClass = some root → root.index < p.classes.size) (s : Subsignature) :
    dispatchOnType p ty s = some (p.dispatchOnType ty s) := by
  cases ty with
  | ofClass c => exact dispatch_eq hdeclared h hty s
  | array elem =>
    cases hobject : p.objectClass with
    | none => simp [dispatchOnType, Program.dispatchOnType, hobject]
    | some root =>
      simp [dispatchOnType, Program.dispatchOnType, hobject, dispatch_eq hdeclared h (hroot root hobject)]

theorem resolve_eq (h : p.SoundHierarchy) {ref : MethodRef} (hc : ref.start.index < p.classes.size) :
    resolve p ref = some (p.resolve ref) := by
  unfold resolve Program.resolve
  rw [lookup_eq hdeclared h _ hc, Option.some.injEq]
  -- every method in question has an entry, so the first one is accepted
  cases hvisible : p.visibleMethods ref.start ref.subsignature with
  | nil => rfl
  | cons m rest =>
    have hmem : m ∈ p.visibleMethods ref.start ref.subsignature := by simp [hvisible]
    obtain ⟨d, hd⟩ := mem_visibleMethods hmem
    have hmethod : p.method? m = some _ := Array.getElem?_eq_getElem (hdeclared hd)
    simp [hmethod]

end Answers

end Strict

end PointsTo
