import PointsTo.Proofs.Ancestors
import PointsTo.Proofs.Callees

/-!
# Inheritance of methods

Dispatch takes the first method that can run, along the superclass chain of a class and then among its
interfaces. Whether there is such a method depends only on which supertypes provide one. Since supertypes of
supertypes are supertypes, a class has a method for every call that one of its supertypes has a method for.

Which method it is depends on the order of the search. What an ancestor finds on its own superclass chain
stays in force for a class below, unless a class in between provides something else. Methods with a body that
interfaces declare come last.

- `Program.Provides`, `Program.firstProvided`: one class, and the search through a list of them.
- `Program.dispatch_eq_or`: dispatch as two such searches.
- `Program.dispatch_isSome_iff`: when there is a method.
- `SoundHierarchy.dispatch_of_superclass`, `SoundHierarchy.eq_owner_of_provides`: which method it is.
- `Program.dispatch_lawful`: dispatch in built programs.
-/

namespace PointsTo

namespace Program

variable {p : Program} {b c d : ClassId} {s : Subsignature} {m : MethodId} {method : Method}
  {l l' : List ClassId}

/-! ## §1 Searches -/

/-- A class declares a method under a subsignature, and that method can run. -/
def Provides (p : Program) (c : ClassId) (s : Subsignature) : Prop :=
  ∃ m, p.declaredMethod? c s = some m ∧ p.isConcrete m = true

/-- The first method that can run, of those that classes declare under a subsignature. -/
def firstProvided (p : Program) (s : Subsignature) (l : List ClassId) : Option MethodId :=
  (l.filterMap (p.declaredMethod? · s)).find? p.isConcrete

theorem firstProvided_append :
    p.firstProvided s (l ++ l') = (p.firstProvided s l).or (p.firstProvided s l') := by
  simp [firstProvided, List.filterMap_append, List.find?_append]

theorem dispatch_eq_or : p.dispatch c s =
    (p.firstProvided s (p.superclasses c)).or (p.firstProvided s (p.superinterfaces c)) := by
  rw [← firstProvided_append]
  rfl

theorem exists_of_firstProvided (h : p.firstProvided s l = some m) :
    ∃ c ∈ l, p.declaredMethod? c s = some m ∧ p.isConcrete m = true := by
  obtain ⟨c, hc, hdeclared⟩ := List.mem_filterMap.1 (List.mem_of_find?_eq_some h)
  exact ⟨c, hc, hdeclared, List.find?_some h⟩

/-- A search finds something if one of the classes provides it. -/
theorem firstProvided_isSome_iff : (p.firstProvided s l).isSome = true ↔ ∃ c ∈ l, p.Provides c s := by
  constructor
  · intro h
    obtain ⟨m, hm⟩ := Option.isSome_iff_exists.1 h
    obtain ⟨c, hc, hprovides⟩ := exists_of_firstProvided hm
    exact ⟨c, hc, m, hprovides⟩
  · rintro ⟨c, hc, m, hdeclared, hconcrete⟩
    apply List.find?_isSome.2
    exact ⟨m, List.mem_filterMap.2 ⟨c, hc, hdeclared⟩, hconcrete⟩

theorem firstProvided_eq_none (h : ∀ c ∈ l, ¬ p.Provides c s) : p.firstProvided s l = none := by
  cases hfound : p.firstProvided s l with
  | none => rfl
  | some m =>
    obtain ⟨c, hc, hprovides⟩ := firstProvided_isSome_iff.1 (Option.isSome_of_eq_some hfound)
    exact absurd hprovides (h c hc)

/-- The classes that a search looks at later do not matter if one of the earlier ones provides something. -/
theorem firstProvided_append_of_provides (hc : c ∈ l) (hprovides : p.Provides c s) :
    p.firstProvided s (l ++ l') = p.firstProvided s l := by
  have hsome := firstProvided_isSome_iff.2 ⟨c, hc, hprovides⟩
  obtain ⟨m, hm⟩ := Option.isSome_iff_exists.1 hsome
  rw [firstProvided_append, hm, Option.some_or]

/-- The method that a search finds belongs to one of the classes. -/
theorem Coherent.owner_mem_of_firstProvided (hp : p.Coherent) (h : p.firstProvided s l = some m)
    (hm : p.method? m = some method) : method.owner ∈ l := by
  obtain ⟨c, hc, hdeclared, _⟩ := exists_of_firstProvided h
  obtain ⟨method', hm', rfl, _⟩ := hp.declaredMethod.1 hdeclared
  obtain rfl : method = method' := Option.some.inj (hm.symm.trans hm')
  exact hc

/-- The class of a method that dispatch finds provides it. -/
theorem Coherent.provides_of_dispatch (hp : p.Coherent) (h : p.dispatch c s = some m)
    (hm : p.method? m = some method) : p.Provides method.owner s := by
  obtain ⟨owner, hdeclared⟩ := mem_visibleMethods (List.mem_of_find?_eq_some h)
  obtain ⟨method', hm', rfl, _⟩ := hp.declaredMethod.1 hdeclared
  obtain rfl : method = method' := Option.some.inj (hm.symm.trans hm')
  exact ⟨m, hdeclared, concrete_of_dispatch h⟩

/-! ## §2 Dispatch along the hierarchy -/

/-- **Dispatch succeeds** if some supertype provides a method. -/
theorem dispatch_isSome_iff :
    (p.dispatch c s).isSome = true ↔ ∃ d, p.isSubclass c d = true ∧ p.Provides d s := by
  rw [dispatch_eq_or, ← firstProvided_append, firstProvided_isSome_iff]
  simp only [isSubclass_iff_mem, List.mem_append]

/-- Between a class and one of its superclasses there are only classes strictly below the latter. -/
theorem SoundHierarchy.exists_between (h : p.SoundHierarchy) (hd : d ∈ p.superclasses c) :
    ∃ below, p.superclasses c = below ++ p.superclasses d ∧
      ∀ b ∈ below, b ≠ d ∧ d ∈ p.superclasses b := by
  obtain ⟨below, hchain, hbelow⟩ := h.exists_below (mem_ancestry hd)
  refine ⟨below, hchain, ?_⟩
  intro b hb
  have hpath := hbelow b hb
  obtain ⟨parent, hlink, _⟩ := Relation.TransGen.head'_iff.1 hpath
  refine ⟨?_, (h.mem_superclasses hlink.index_lt).2 hpath.to_reflTransGen⟩
  rintro rfl
  exact h.acyclic b hpath

/-- **Overriding**: what a superclass finds on its superclass chain stays in force, unless a class in between
    provides something else. -/
theorem SoundHierarchy.dispatch_of_superclass (h : p.SoundHierarchy) (hp : p.Coherent)
    (hd : d ∈ p.superclasses c) (hdispatch : p.dispatch d s = some m) (hm : p.method? m = some method)
    (howner : method.owner ∈ p.superclasses d)
    (hbetween : ∀ b ∈ p.superclasses c, b ≠ d → d ∈ p.superclasses b → ¬ p.Provides b s) :
    p.dispatch c s = p.dispatch d s := by
  obtain ⟨below, hchain, hbelow⟩ := h.exists_between hd
  have hprovides := hp.provides_of_dispatch hdispatch hm
  -- nothing is found before the search gets to the chain of the superclass
  have hnone : p.firstProvided s below = none := by
    apply firstProvided_eq_none
    intro b hb
    have hmem : b ∈ p.superclasses c := hchain ▸ List.mem_append_left _ hb
    exact hbetween b hmem (hbelow b hb).1 (hbelow b hb).2
  calc p.dispatch c s
      = p.firstProvided s (p.superclasses d ++ p.superinterfaces c) := by
        rw [dispatch_eq_or, hchain, firstProvided_append, hnone, Option.none_or, ← firstProvided_append]
    _ = p.firstProvided s (p.superclasses d) := firstProvided_append_of_provides howner hprovides
    _ = p.firstProvided s (p.superclasses d ++ p.superinterfaces d) :=
        (firstProvided_append_of_provides howner hprovides).symm
    _ = p.dispatch d s := rfl

/-- **Interfaces come last**: if dispatch finds a method of an interface, no other class on the superclass
    chain provides one. -/
theorem SoundHierarchy.eq_owner_of_provides (h : p.SoundHierarchy) (hp : p.Coherent)
    (hdispatch : p.dispatch c s = some m) (hm : p.method? m = some method)
    (hinterface : p.IsInterface method.owner) (hb : b ∈ p.superclasses c) (hprovides : p.Provides b s) :
    b = method.owner := by
  have hfound : p.firstProvided s (p.superclasses c) = some m := by
    rw [← hdispatch]
    exact (firstProvided_append_of_provides hb hprovides).symm
  -- the interface is on the chain, and the chain ends there
  have howner := hp.owner_mem_of_firstProvided hfound hm
  obtain ⟨below, hchain, hbelow⟩ := h.exists_between howner
  have hend : p.superclasses method.owner = [method.owner] :=
    superclasses_of_root hinterface.index_lt fun _ => hp.not_inherits hinterface
  rw [hchain, hend] at hb
  rcases List.mem_append.1 hb with hlower | hlast
  · -- a class below would have been found first, and the interface is not below itself
    rw [hchain, firstProvided_append_of_provides hlower hprovides] at hfound
    exact absurd rfl (hbelow _ (hp.owner_mem_of_firstProvided hfound hm)).1
  · exact List.mem_singleton.1 hlast

/-! ## §3 Built programs -/

/-- How dispatch from a class goes along with the hierarchy and with resolution. -/
structure LawfulDispatch (p : Program) (c : ClassId) (s : Subsignature) : Prop where
  /-- If a supertype has a method to run, so has the class. -/
  inherited : ∀ d, p.isSubclass c d = true → (p.dispatch d s).isSome = true →
    (p.dispatch c s).isSome = true
  /-- What runs is a declaration that a supertype makes under the subsignature, and it is not abstract. -/
  found : ∀ m, p.dispatch c s = some m → ∃ method, p.method? m = some method ∧
    method.isAbstract = false ∧ method.subsignature = s ∧ p.isSubclass c method.owner = true ∧
    (p.resolve ⟨c, s⟩).isSome = true
  /-- What a reference to the class means runs, unless it is abstract. -/
  resolved : ∀ m method, p.resolve ⟨c, s⟩ = some m → p.method? m = some method →
    method.isAbstract = false → p.dispatch c s = some m
  /-- What a superclass finds on its chain runs, unless a class strictly below it provides something. -/
  overridden : ∀ d ∈ p.superclasses c, ∀ m method, p.dispatch d s = some m →
    p.method? m = some method → method.owner ∈ p.superclasses d →
    (∀ b ∈ p.superclasses c, b ≠ d → d ∈ p.superclasses b → ¬ p.Provides b s) →
    p.dispatch c s = p.dispatch d s
  /-- A method of an interface runs only if no class on the chain provides one. The chain may end with that
      very interface, which is the only exception. -/
  defaults : ∀ m method, p.dispatch c s = some m → p.method? m = some method →
    p.IsInterface method.owner →
    (∀ b ∈ p.superclasses c, ¬ p.IsInterface b → ¬ p.Provides b s) ∧
      (method.owner ∉ p.superclasses c → ∀ b ∈ p.superclasses c, ¬ p.Provides b s)

/-- **Dispatch is inherited** in built programs, and it agrees with resolution. -/
theorem dispatch_lawful (hp : p.Built) (hc : c.index < p.classes.size) (s : Subsignature) :
    p.LawfulDispatch c s := by
  have hsound := hp.complete.soundHierarchy
  have hcoherent := hp.coherent
  refine ⟨?_, ?_, ?_, ?_, ?_⟩
  · intro d hd hdispatch
    obtain ⟨owner, howner, hprovides⟩ := dispatch_isSome_iff.1 hdispatch
    exact dispatch_isSome_iff.2 ⟨owner, hsound.isSubclass_trans hcoherent hc hd howner, hprovides⟩
  · intro m hdispatch
    obtain ⟨method, hm, hsubsignature, howner⟩ := hcoherent.inherited_of_dispatch hdispatch
    obtain ⟨method', hm', habstract⟩ := exists_of_concrete (concrete_of_dispatch hdispatch)
    obtain rfl : method = method' := Option.some.inj (hm.symm.trans hm')
    have hresolve : (p.resolve ⟨c, s⟩).isSome = true := resolve_isSome_of_dispatch hdispatch
    exact ⟨method, hm, habstract, hsubsignature, howner, hresolve⟩
  · intro m method hresolve hm habstract
    exact dispatch_of_resolve hresolve (by simp [isConcrete, hm, habstract])
  · intro d hd m method hdispatch hm howner hbetween
    exact hsound.dispatch_of_superclass hcoherent hd hdispatch hm howner hbetween
  · intro m method hdispatch hm hinterface
    have hlast : ∀ b ∈ p.superclasses c, p.Provides b s → b = method.owner := fun b hb =>
      hsound.eq_owner_of_provides hcoherent hdispatch hm hinterface hb
    refine ⟨?_, ?_⟩
    · intro b hb hclass hprovides
      exact hclass (hlast b hb hprovides ▸ hinterface)
    · intro habsent b hb hprovides
      exact habsent (hlast b hb hprovides ▸ hb)

/-- In this program a class inherits the method of an interface, past an abstract declaration. -/
theorem dispatch_lawful_tangle :
    tangle.Built ∧ tangle.dispatch ⟨5⟩ ⟨"int", "size", []⟩ = some ⟨0⟩ ∧
      tangle.resolve ⟨⟨5⟩, ⟨"int", "size", []⟩⟩ = some ⟨1⟩ ∧
      tangle.LawfulDispatch ⟨5⟩ ⟨"int", "size", []⟩ :=
  ⟨tangle_built, by decide +kernel, by decide +kernel, dispatch_lawful tangle_built (by decide +kernel) _⟩

end Program

end PointsTo
