import Mathlib.Order.Lattice.Nat
import PointsTo.Proofs.CallTargets
import PointsTo.Proofs.Distances

/-!
# Ancestors

A class has two kinds of links to its supertypes: to the class that it extends, and to the interfaces that
it lists. A search for ancestors follows the links of the first kind to their end before it looks at those of
the second kind. Nothing is lost that way. Only interfaces are listed as interfaces, and they extend no class,
so no chain of links comes back from interfaces to superclasses.

Validation looks for cycles in superclass chains. Interfaces may still extend each other in a circle, and
only they: a cycle of supertypes consists of interface links.

- `Program.Supertype`: one link.
- `SoundHierarchy.mem_superclasses`, `SoundHierarchy.mem_superinterfaces`: what the two searches find.
- `Coherent.transGen_supertype_iff`: chains of links follow superclasses first.
- `Program.isSubclass_closure`: subclasses are those that links lead from.
- `Program.supertypes_acyclic_iff`: which cycles there are.
- `Program.superinterfaces_enumerate`: the interfaces of a class are listed by distance.
- `Program.tangle`, `Program.tiers`: a program whose interfaces extend each other in a circle, and one with
  interfaces above interfaces and no circle.
-/

namespace PointsTo

namespace Program

variable {p : Program} {a b c d i : ClassId}

/-! ## §1 Superclass chains -/

/-- A class that extends another one has an entry. -/
theorem Inherits.index_lt (hlink : p.Inherits c d) : c.index < p.classes.size := by
  obtain ⟨cls, hcls, _⟩ := inherits_iff.1 hlink
  exact (Array.getElem?_eq_some_iff.1 hcls).1

/-- In a sound hierarchy, so has the class that is extended. -/
theorem SoundHierarchy.index_lt_of_inherits (h : p.SoundHierarchy) (hlink : p.Inherits c d) :
    d.index < p.classes.size := by
  obtain ⟨cls, hcls, hparent⟩ := inherits_iff.1 hlink
  exact h.superclasses cls (mem_classes_of_class? hcls) d hparent

/-- The chain of a class goes on with the chain of its superclass. -/
theorem SoundHierarchy.superclasses_cons (h : p.SoundHierarchy) (hlink : p.Inherits c d) :
    p.superclasses c = c :: p.superclasses d := by
  have hlength := (length_ancestry_le_iff h.superclasses).2 h.acyclic c hlink.index_lt
  have hparent : p.superclassOf c = some d := hlink
  -- the chain is not cut off, so it may as well be cut off one class later
  rw [Program.superclasses, ← ancestry_succ_eq hlength, ancestry, hparent]
  rfl

/-- The chain of a class that extends nothing ends with that class. -/
theorem superclasses_of_root (hc : c.index < p.classes.size) (hroot : ∀ d, ¬ p.Inherits c d) :
    p.superclasses c = [c] := by
  have hnone : p.superclassOf c = none := Option.eq_none_iff_forall_ne_some.2 hroot
  obtain ⟨n, hn⟩ := Nat.exists_eq_succ_of_ne_zero (Nat.ne_zero_of_lt hc)
  rw [superclasses, hn, ancestry, hnone]

theorem SoundHierarchy.self_mem_superclasses (h : p.SoundHierarchy) (hc : c.index < p.classes.size) :
    c ∈ p.superclasses c := by
  by_cases hlink : ∃ d, p.Inherits c d
  · obtain ⟨d, hd⟩ := hlink
    simp [h.superclasses_cons hd]
  · simp [superclasses_of_root hc (not_exists.1 hlink)]

/-- The chain of an ancestor is the end of the chain of a class. What comes before it is strictly below the
    ancestor. -/
theorem SoundHierarchy.exists_below (h : p.SoundHierarchy) (hpath : Relation.ReflTransGen p.Inherits c d) :
    ∃ below, p.superclasses c = below ++ p.superclasses d ∧
      ∀ b ∈ below, Relation.TransGen p.Inherits b d := by
  induction hpath using Relation.ReflTransGen.head_induction_on with
  | refl => exact ⟨[], rfl, by simp⟩
  | @head c parent hlink hrest ih =>
    obtain ⟨below, hchain, hbelow⟩ := ih
    refine ⟨c :: below, by rw [h.superclasses_cons hlink, hchain, List.cons_append], ?_⟩
    intro b hb
    rcases List.mem_cons.1 hb with rfl | hb
    · exact .head' hlink hrest
    · exact hbelow b hb

/-- **Superclasses**: the chain of a class holds the class and its ancestors along superclass links. -/
theorem SoundHierarchy.mem_superclasses (h : p.SoundHierarchy) (hc : c.index < p.classes.size) :
    d ∈ p.superclasses c ↔ Relation.ReflTransGen p.Inherits c d := by
  refine ⟨mem_ancestry, ?_⟩
  intro hpath
  have hd : d.index < p.classes.size := by
    rcases hpath.cases_tail with rfl | ⟨parent, _, hlink⟩
    · exact hc
    · exact h.index_lt_of_inherits hlink
  obtain ⟨below, hchain, _⟩ := h.exists_below hpath
  rw [hchain]
  exact List.mem_append_right below (h.self_mem_superclasses hd)

/-! ## §2 Interfaces -/

/-- One class lists another one as an interface. -/
def Implements (p : Program) (c i : ClassId) : Prop := i ∈ p.interfacesOf c

/-- The program has the class, and it is an interface. -/
def IsInterface (p : Program) (c : ClassId) : Prop :=
  ∃ cls, p.class? c = some cls ∧ cls.isInterface = true

theorem IsInterface.index_lt (hc : p.IsInterface c) : c.index < p.classes.size := by
  obtain ⟨cls, hcls, _⟩ := hc
  exact (Array.getElem?_eq_some_iff.1 hcls).1

theorem implements_iff : p.Implements c i ↔ ∃ cls, p.class? c = some cls ∧ i ∈ cls.interfaces := by
  unfold Implements interfacesOf
  cases p.class? c <;> simp

theorem Coherent.isInterface_of_implements (hp : p.Coherent) (hlink : p.Implements c i) :
    p.IsInterface i := by
  obtain ⟨cls, hcls, hi⟩ := implements_iff.1 hlink
  exact hp.interfaces hcls hi

/-- Interfaces extend no class. -/
theorem Coherent.not_inherits (hp : p.Coherent) (hc : p.IsInterface c) : ¬ p.Inherits c d := by
  intro hlink
  obtain ⟨cls, hcls, hinterface⟩ := hc
  obtain ⟨cls', hcls', hparent⟩ := inherits_iff.1 hlink
  obtain rfl : cls = cls' := Option.some.inj (hcls.symm.trans hcls')
  simp [hp.roots hcls hinterface] at hparent

/-- A chain of interface links ends in an interface. -/
theorem Coherent.isInterface_of_transGen (hp : p.Coherent) (hpath : Relation.TransGen p.Implements c i) :
    p.IsInterface i := by
  obtain ⟨_, _, hlast⟩ := Relation.TransGen.tail'_iff.1 hpath
  exact hp.isInterface_of_implements hlast

/-- The interfaces that the classes of a superclass chain list, one class after the other. -/
def directInterfaces (p : Program) (c : ClassId) : List ClassId :=
  (p.superclasses c).flatMap p.interfacesOf

/-- What the direct interfaces lead to, one or more interface links lead to from a class of the chain. -/
theorem reaches_interfaces_iff :
    BreadthFirst.Reaches p.interfacesOf (p.directInterfaces c) i ↔
      ∃ d ∈ p.superclasses c, Relation.TransGen p.Implements d i := by
  constructor
  · rintro ⟨seed, hseed, hpath⟩
    obtain ⟨d, hd, hlink⟩ := List.mem_flatMap.1 hseed
    exact ⟨d, hd, Relation.TransGen.head' hlink hpath⟩
  · rintro ⟨d, hd, hpath⟩
    obtain ⟨seed, hlink, hrest⟩ := Relation.TransGen.head'_iff.1 hpath
    exact ⟨seed, List.mem_flatMap.2 ⟨d, hd, hlink⟩, hrest⟩

/-- There are no more interfaces to enumerate than there are classes. -/
theorem SoundHierarchy.mem_classIds_of_reaches (h : p.SoundHierarchy)
    (hreach : BreadthFirst.Reaches p.interfacesOf (p.directInterfaces c) i) : i ∈ p.classIds := by
  obtain ⟨d, _, hpath⟩ := reaches_interfaces_iff.1 hreach
  obtain ⟨_, _, hlast⟩ := Relation.TransGen.tail'_iff.1 hpath
  exact Id.mem_below.2 (Strict.index_lt_of_mem_interfacesOf h hlast)

/-- **Superinterfaces**: what one or more interface links lead to from the superclass chain. -/
theorem SoundHierarchy.mem_superinterfaces (h : p.SoundHierarchy) :
    i ∈ p.superinterfaces c ↔ ∃ d ∈ p.superclasses c, Relation.TransGen p.Implements d i := by
  rw [← reaches_interfaces_iff]
  apply mem_breadthFirst (U := p.classIds)
  · exact fun _ => h.mem_classIds_of_reaches
  · exact Nat.le_of_eq length_classIds

theorem SoundHierarchy.nodup_superinterfaces (h : p.SoundHierarchy) : (p.superinterfaces c).Nodup := by
  apply nodup_breadthFirst (U := p.classIds)
  · exact fun _ => h.mem_classIds_of_reaches
  · exact Nat.le_of_eq length_classIds

/-! ## §3 Subclasses -/

/-- One class extends another one or lists it as an interface. -/
def Supertype (p : Program) (c d : ClassId) : Prop := p.Inherits c d ∨ p.Implements c d

/-- **Links in order**: a chain of links follows superclasses, and from some class on interfaces. -/
theorem Coherent.transGen_supertype_iff (hp : p.Coherent) :
    Relation.TransGen p.Supertype a b ↔ Relation.TransGen p.Inherits a b ∨
      ∃ d, Relation.ReflTransGen p.Inherits a d ∧ Relation.TransGen p.Implements d b := by
  constructor
  · intro hpath
    induction hpath with
    | single hlink =>
      rcases hlink with hextends | hlists
      · exact Or.inl (.single hextends)
      · exact Or.inr ⟨a, .refl, .single hlists⟩
    | tail _ hlink ih =>
      rcases ih with hclasses | ⟨d, hclasses, hinterfaces⟩
      · rcases hlink with hextends | hlists
        · exact Or.inl (hclasses.tail hextends)
        · exact Or.inr ⟨_, hclasses.to_reflTransGen, .single hlists⟩
      · rcases hlink with hextends | hlists
        · -- there is no way back: the chain has arrived at an interface
          exact absurd hextends (hp.not_inherits (hp.isInterface_of_transGen hinterfaces))
        · exact Or.inr ⟨d, hclasses, hinterfaces.tail hlists⟩
  · have hextends : ∀ x y, p.Inherits x y → p.Supertype x y := fun _ _ => Or.inl
    have hlists : ∀ x y, p.Implements x y → p.Supertype x y := fun _ _ => Or.inr
    rintro (hclasses | ⟨d, hclasses, hinterfaces⟩)
    · exact Relation.TransGen.mono hextends _ _ hclasses
    · have hbefore := Relation.ReflTransGen.mono hextends _ _ hclasses
      exact Relation.TransGen.trans_right hbefore (Relation.TransGen.mono hlists _ _ hinterfaces)

/-- A class is a subclass of what the two searches find. -/
theorem isSubclass_iff_mem :
    p.isSubclass a b = true ↔ b ∈ p.superclasses a ∨ b ∈ p.superinterfaces a := by
  simp [isSubclass]

/-- A class is a subclass of what links lead to from there. -/
theorem SoundHierarchy.isSubclass_iff (h : p.SoundHierarchy) (hp : p.Coherent)
    (ha : a.index < p.classes.size) :
    p.isSubclass a b = true ↔ Relation.ReflTransGen p.Supertype a b := by
  have hchain : ∀ {d}, d ∈ p.superclasses a ↔ Relation.ReflTransGen p.Inherits a d :=
    h.mem_superclasses ha
  rw [isSubclass_iff_mem, h.mem_superinterfaces, Relation.reflTransGen_iff_eq_or_transGen,
    hp.transGen_supertype_iff]
  simp only [hchain]
  rw [Relation.reflTransGen_iff_eq_or_transGen, or_assoc]

/-- The ancestors of a class have entries. -/
theorem SoundHierarchy.index_lt_of_isSubclass (h : p.SoundHierarchy) (ha : a.index < p.classes.size)
    (hab : p.isSubclass a b = true) : b.index < p.classes.size := by
  rcases isSubclass_iff_mem.1 hab with hchain | hinterfaces
  · exact Strict.index_lt_of_mem_superclasses h ha hchain
  · exact Strict.index_lt_of_mem_superinterfaces h hinterfaces

theorem SoundHierarchy.isSubclass_trans (h : p.SoundHierarchy) (hp : p.Coherent)
    (ha : a.index < p.classes.size) (hab : p.isSubclass a b = true) (hbc : p.isSubclass b c = true) :
    p.isSubclass a c = true := by
  have hb := h.index_lt_of_isSubclass ha hab
  rw [h.isSubclass_iff hp ha] at hab ⊢
  rw [h.isSubclass_iff hp hb] at hbc
  exact hab.trans hbc

/-! ## §4 Cycles -/

/-- **Cycles of supertypes** consist of interface links. -/
theorem SoundHierarchy.cycle_interfaces (h : p.SoundHierarchy) (hp : p.Coherent)
    (hcycle : Relation.TransGen p.Supertype a a) :
    p.IsInterface a ∧ Relation.TransGen p.Implements a a := by
  rcases hp.transGen_supertype_iff.1 hcycle with hclasses | ⟨d, hclasses, hinterfaces⟩
  · -- superclass chains come back to no class
    exact absurd hclasses (h.acyclic a)
  · have ha := hp.isInterface_of_transGen hinterfaces
    rcases hclasses.cases_head with rfl | ⟨parent, hlink, _⟩
    · exact ⟨ha, hinterfaces⟩
    · exact absurd hlink (hp.not_inherits ha)

/-- Two classes that are subclasses of each other are on a cycle. -/
theorem SoundHierarchy.cycle_of_isSubclass (h : p.SoundHierarchy) (hp : p.Coherent)
    (ha : a.index < p.classes.size) (hb : b.index < p.classes.size) (hne : a ≠ b)
    (hab : p.isSubclass a b = true) (hba : p.isSubclass b a = true) :
    Relation.TransGen p.Supertype a a := by
  rw [h.isSubclass_iff hp ha, Relation.reflTransGen_iff_eq_or_transGen] at hab
  rw [h.isSubclass_iff hp hb] at hba
  -- the classes differ, so the first of the two chains has a link
  exact Relation.TransGen.trans_left (hab.resolve_left hne.symm) hba

/-! ## §5 Distances -/

/-- The least number of interface links that lead to an interface from the superclass chain of a class. At
    least one link is counted, also for an interface that is on the chain itself. -/
noncomputable def interfaceDistance (p : Program) (c i : ClassId) : Nat :=
  sInf {n | 0 < n ∧ BreadthFirst.ReachesIn p.interfacesOf (p.superclasses c) n i}

/-- A list holds the interfaces of a class and of its superclasses, and all that those extend, once each and
    the nearest first. -/
structure ListsInterfaces (p : Program) (c : ClassId) (l : List ClassId) : Prop where
  nodup : l.Nodup
  mem_iff : ∀ i, i ∈ l ↔ ∃ d, Relation.ReflTransGen p.Inherits c d ∧ Relation.TransGen p.Implements d i
  nearestFirst : l.Pairwise fun i j => p.interfaceDistance c i ≤ p.interfaceDistance c j
  /-- Interfaces that are listed directly come in the order of their first occurrences. -/
  direct : ∀ i ∈ p.directInterfaces c, ∀ j ∈ p.directInterfaces c,
    (l.idxOf i < l.idxOf j ↔ (p.directInterfaces c).idxOf i < (p.directInterfaces c).idxOf j)

/-- If an interface can be reached, then its distance is a number of links that lead to it. -/
theorem exists_interfaceDistance_eq
    (hreach : BreadthFirst.Reaches p.interfacesOf (p.directInterfaces c) i) :
    ∃ n, p.interfaceDistance c i = n + 1 ∧
      BreadthFirst.ReachesIn p.interfacesOf (p.directInterfaces c) n i := by
  obtain ⟨n, hn⟩ := BreadthFirst.reaches_iff_exists.1 hreach
  have hattained := Nat.sInf_mem (s := {n | 0 < n ∧
      BreadthFirst.ReachesIn p.interfacesOf (p.superclasses c) n i})
    ⟨n + 1, Nat.succ_pos n, BreadthFirst.reachesIn_flatMap.1 hn⟩
  obtain ⟨k, hk⟩ := Nat.exists_eq_succ_of_ne_zero (Nat.ne_zero_of_lt hattained.1)
  refine ⟨k, hk, BreadthFirst.reachesIn_flatMap.2 ?_⟩
  rw [hk] at hattained
  exact hattained.2

/-- What is no farther than an interface that can be reached has at most its distance. -/
theorem interfaceDistance_le
    (hreach : BreadthFirst.Reaches p.interfacesOf (p.directInterfaces c) b)
    (hfar : BreadthFirst.NoFarther p.interfacesOf (p.directInterfaces c) a b) :
    p.interfaceDistance c a ≤ p.interfaceDistance c b := by
  obtain ⟨n, hdistance, hn⟩ := exists_interfaceDistance_eq hreach
  obtain ⟨m, hm, hreach'⟩ := hfar n hn
  rw [hdistance]
  calc p.interfaceDistance c a
      ≤ m + 1 := Nat.sInf_le ⟨Nat.succ_pos m, BreadthFirst.reachesIn_flatMap.1 hreach'⟩
    _ ≤ n + 1 := Nat.succ_le_succ hm

theorem SoundHierarchy.listsInterfaces (h : p.SoundHierarchy) (hc : c.index < p.classes.size) :
    p.ListsInterfaces c (p.superinterfaces c) where
  nodup := h.nodup_superinterfaces
  mem_iff i := by
    rw [h.mem_superinterfaces]
    simp only [h.mem_superclasses hc]
  nearestFirst := by
    have hordered := pairwise_breadthFirst p.classes.size p.interfacesOf (p.directInterfaces c)
    apply hordered.imp_of_mem
    intro i j _ hj hfar
    -- only what can be reached is listed
    exact interfaceDistance_le (reaches_interfaces_iff.2 (h.mem_superinterfaces.1 hj)) hfar
  direct _ hi _ hj := idxOf_breadthFirst_lt_iff hi hj

end Program

/-! ## §6 Programs -/

/-- Calls that declare interfaces `I` and `J` that extend each other, an interface `K` that names `J` twice, a
    class `A` that implements `K` and `I`, and a class `B` below it that implements `K` once more. A method of
    `I` has a body, and `A` declares the same method without one. -/
def Builder.tangleCalls : List Builder.Call :=
  [.addClass "Object" none, .addInterface "I" [], .addInterface "J" [⟨1⟩], .addImplementation ⟨1⟩ ⟨2⟩,
   .addInterface "K" [⟨2⟩, ⟨2⟩], .addClass "A" (some ⟨0⟩), .addImplementation ⟨4⟩ ⟨3⟩,
   .addImplementation ⟨4⟩ ⟨1⟩, .addClass "B" (some ⟨4⟩), .addImplementation ⟨5⟩ ⟨3⟩,
   .addMethod ⟨1⟩ "int size()" false, .addAbstractMethod ⟨4⟩ "int size()",
   .addMethod ⟨0⟩ "int hash()" false]

/-- Calls that declare an interface `I`, an interface `J` that extends it, an interface `K` that extends both,
    and a class `A` that implements `K` and `I`. -/
def Builder.tiersCalls : List Builder.Call :=
  [.addClass "Object" none, .addInterface "I" [], .addInterface "J" [⟨1⟩], .addInterface "K" [⟨2⟩, ⟨1⟩],
   .addClass "A" (some ⟨0⟩), .addImplementation ⟨4⟩ ⟨3⟩, .addImplementation ⟨4⟩ ⟨1⟩]

namespace Program

/-- The interface links of this program go round in a circle. -/
def tangle : Program := (Builder.after Builder.tangleCalls).program.indexed

theorem tangle_built : tangle.Built := built_indexed (by decide +kernel)

/-- The interface links of this program lead to classes that were declared before. -/
def tiers : Program := (Builder.after Builder.tiersCalls).program.indexed

/-! ## §7 Built programs -/

variable {p : Program} {c : ClassId}

/-- **Subclasses**: in a built program, a class is a subclass of precisely those classes that superclass and
    interface links lead to from there, in any mixture. In particular it is a subclass of itself and of what
    its supertypes are subclasses of. -/
theorem isSubclass_closure (hp : p.Built) :
    (∀ a b, a.index < p.classes.size →
      (p.isSubclass a b = true ↔ Relation.ReflTransGen p.Supertype a b)) ∧
    (∀ a, a.index < p.classes.size → p.isSubclass a a = true) ∧
    ∀ a b c, a.index < p.classes.size → p.isSubclass a b = true → p.isSubclass b c = true →
      p.isSubclass a c = true := by
  have hsound := hp.complete.soundHierarchy
  have hcoherent := hp.coherent
  refine ⟨?_, ?_, ?_⟩
  · intro a b ha
    exact hsound.isSubclass_iff hcoherent ha
  · intro a ha
    exact (hsound.isSubclass_iff hcoherent ha).2 .refl
  · intro a b c ha
    exact hsound.isSubclass_trans hcoherent ha

theorem isSubclass_closure_tangle :
    tangle.Built ∧ tangle.isSubclass ⟨5⟩ ⟨2⟩ = true ∧ tangle.isSubclass ⟨2⟩ ⟨0⟩ = false ∧
      Relation.ReflTransGen tangle.Supertype ⟨5⟩ ⟨2⟩ ∧
      ¬ Relation.ReflTransGen tangle.Supertype ⟨2⟩ ⟨0⟩ := by
  have hup : tangle.isSubclass ⟨5⟩ ⟨2⟩ = true := by decide +kernel
  have hnot : tangle.isSubclass ⟨2⟩ ⟨0⟩ = false := by decide +kernel
  obtain ⟨hiff, _⟩ := isSubclass_closure tangle_built
  refine ⟨tangle_built, hup, hnot, (hiff _ _ (by decide +kernel)).1 hup, ?_⟩
  intro hpath
  have htrue := (hiff ⟨2⟩ ⟨0⟩ (by decide +kernel)).2 hpath
  exact absurd (hnot.symm.trans htrue) Bool.false_ne_true

/-- **Cycles**: in a built program, a class that is its own ancestor is an interface, on a cycle of interface
    links. So no class is its own ancestor, and no two classes are subclasses of each other, precisely if there
    is no such cycle. -/
theorem supertypes_acyclic_iff (hp : p.Built) :
    (∀ a, Relation.TransGen p.Supertype a a →
      p.IsInterface a ∧ Relation.TransGen p.Implements a a) ∧
    (((∀ a b, a.index < p.classes.size → b.index < p.classes.size → a ≠ b →
        ¬ (p.isSubclass a b = true ∧ p.isSubclass b a = true)) ∧
      ∀ a, ¬ Relation.TransGen p.Supertype a a) ↔
        ∀ i, ¬ Relation.TransGen p.Implements i i) := by
  have hsound := hp.complete.soundHierarchy
  have hcoherent := hp.coherent
  have hcycles : ∀ a, Relation.TransGen p.Supertype a a →
      p.IsInterface a ∧ Relation.TransGen p.Implements a a := fun _ =>
    hsound.cycle_interfaces hcoherent
  refine ⟨hcycles, ?_, ?_⟩
  · rintro ⟨_, hacyclic⟩ i hcycle
    -- interface links are links
    exact hacyclic i (Relation.TransGen.mono (fun _ _ => Or.inr) _ _ hcycle)
  · intro hacyclic
    have hnone : ∀ a, ¬ Relation.TransGen p.Supertype a a := fun a hcycle =>
      hacyclic a (hcycles a hcycle).2
    refine ⟨?_, hnone⟩
    rintro a b ha hb hne ⟨hab, hba⟩
    exact hnone a (hsound.cycle_of_isSubclass hcoherent ha hb hne hab hba)

/-- In the program with interfaces above interfaces, three interface links lead from `A` to `I`, and none leads
    back. -/
theorem supertypes_acyclic_iff_tiers :
    tiers.Built ∧ (tiers.Implements ⟨4⟩ ⟨3⟩ ∧ tiers.Implements ⟨3⟩ ⟨2⟩ ∧ tiers.Implements ⟨2⟩ ⟨1⟩) ∧
      (∀ i, ¬ Relation.TransGen tiers.Implements i i) ∧
      (∀ a b, a.index < tiers.classes.size → b.index < tiers.classes.size → a ≠ b →
        ¬ (tiers.isSubclass a b = true ∧ tiers.isSubclass b a = true)) ∧
      ∀ a, ¬ Relation.TransGen tiers.Supertype a a := by
  have hbuilt : tiers.Built := built_indexed (by decide +kernel)
  have hlinks : tiers.Implements ⟨4⟩ ⟨3⟩ ∧ tiers.Implements ⟨3⟩ ⟨2⟩ ∧ tiers.Implements ⟨2⟩ ⟨1⟩ := by
    unfold Implements
    decide +kernel
  have hlower : ∀ i j, tiers.Implements i j → j.index < i.index := by
    intro i j hlink
    have hall : ∀ i ∈ tiers.classIds, ∀ j ∈ tiers.interfacesOf i, j.index < i.index := by decide +kernel
    obtain ⟨cls, hcls, _⟩ := implements_iff.1 hlink
    exact hall i (Id.mem_below.2 (Array.getElem?_eq_some_iff.1 hcls).1) j hlink
  have hdown : ∀ {i j}, Relation.TransGen tiers.Implements i j → j.index < i.index := by
    intro i j hpath
    induction hpath with
    | single hfirst => exact hlower _ _ hfirst
    | tail _ hlast ih => exact (hlower _ _ hlast).trans ih
  have hacyclic : ∀ i, ¬ Relation.TransGen tiers.Implements i i := fun i hcycle =>
    Nat.lt_irrefl _ (hdown hcycle)
  exact ⟨hbuilt, hlinks, hacyclic, (supertypes_acyclic_iff hbuilt).2.2 hacyclic⟩

/-- Interfaces may extend each other in a circle. -/
theorem tangle_cyclic :
    tangle.Built ∧ tangle.isSubclass ⟨1⟩ ⟨2⟩ = true ∧ tangle.isSubclass ⟨2⟩ ⟨1⟩ = true ∧
      Relation.TransGen tangle.Supertype ⟨1⟩ ⟨1⟩ := by
  have hthere : tangle.Implements ⟨1⟩ ⟨2⟩ := by
    unfold Implements
    decide +kernel
  have hback : tangle.Implements ⟨2⟩ ⟨1⟩ := by
    unfold Implements
    decide +kernel
  exact ⟨tangle_built, by decide +kernel, by decide +kernel, .tail (.single (Or.inr hthere)) (Or.inr hback)⟩

/-- **Superinterfaces are enumerated breadth-first**: in a built program, exploring the interfaces of a class
    with a queue comes to an end. It lists, once each, what one or more interface links lead to from the
    superclass chain, the nearest first. -/
theorem superinterfaces_enumerate (hp : p.Built) (hc : c.index < p.classes.size) :
    Strict.superinterfaces p c = some (p.superinterfaces c) ∧
      p.ListsInterfaces c (p.superinterfaces c) := by
  have hsound := hp.complete.soundHierarchy
  exact ⟨Strict.superinterfaces_eq hsound hc, hsound.listsInterfaces hc⟩

theorem superinterfaces_enumerate_tangle :
    tangle.Built ∧ tangle.directInterfaces ⟨5⟩ = [⟨3⟩, ⟨3⟩, ⟨1⟩] ∧
      Strict.superinterfaces tangle ⟨5⟩ = some [⟨3⟩, ⟨1⟩, ⟨2⟩] ∧
      tangle.ListsInterfaces ⟨5⟩ [⟨3⟩, ⟨1⟩, ⟨2⟩] := by
  have hlist : tangle.superinterfaces ⟨5⟩ = [⟨3⟩, ⟨1⟩, ⟨2⟩] := by decide +kernel
  have henumerate := superinterfaces_enumerate (c := ⟨5⟩) tangle_built (by decide +kernel)
  rw [hlist] at henumerate
  exact ⟨tangle_built, by decide +kernel, henumerate⟩

end Program

end PointsTo
