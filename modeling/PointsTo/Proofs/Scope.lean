import PointsTo.Proofs.Declarations

/-!
# Scoped programs

A builder checks most references when they are made: the interfaces of a class, the class of a field or
method, the method of a variable. These references therefore have entries after every sequence of calls,
no matter whether the program turns out to be valid. So do the receivers of methods: a method has a
variable for its receiver exactly if it is not static.

The laws are about the entries of the tables and not about their positions, so it is enough to say which
entries a call adds or changes.

- `Program.Scoped`: the laws.
- `Builder.scoped_perform`, `Builder.scoped_after`: they hold after every sequence of calls.
- `Builder.selves_after`: the law of receivers.
-/

namespace PointsTo

/-! ## §1 The laws -/

/-- The references that a builder checks at once have entries. -/
structure Program.Scoped (p : Program) : Prop where
  interfaces : ∀ cls ∈ p.classes, ∀ iface ∈ cls.interfaces, iface.index < p.classes.size
  fieldOwners : ∀ field ∈ p.fields, field.owner.index < p.classes.size
  methodOwners : ∀ method ∈ p.methods, method.owner.index < p.classes.size
  varMethods : ∀ var ∈ p.vars, var.method.index < p.methods.size

theorem Program.scoped_empty : ({} : Program).Scoped := by
  constructor <;> simp

/-- An entry of a table of which one entry was changed. -/
theorem exists_of_mem_modify {α : Type} {xs : Array α} {i : Nat} {f : α → α} {x : α}
    (h : x ∈ xs.modify i f) : ∃ y ∈ xs, x = y ∨ x = f y := by
  obtain ⟨j, hj⟩ := Array.mem_iff_getElem?.1 h
  rw [Array.getElem?_modify] at hj
  split at hj
  · obtain ⟨y, hy, rfl⟩ := Option.map_eq_some_iff.1 hj
    exact ⟨y, Array.mem_of_getElem? hy, Or.inr rfl⟩
  · exact ⟨x, Array.mem_of_getElem? hj, Or.inl rfl⟩

/-- What holds of all entries holds of all entries after a change that keeps it. -/
theorem forall_mem_modify {α : Type} {P : α → Prop} {xs : Array α} {i : Nat} {f : α → α}
    (h : ∀ x ∈ xs, P x) (hf : ∀ x, P x → P (f x)) : ∀ x ∈ xs.modify i f, P x := by
  intro x hx
  obtain ⟨y, hy, rfl | rfl⟩ := exists_of_mem_modify hx
  · exact h _ hy
  · exact hf y (h y hy)

theorem forall_mem_push {α : Type} {P : α → Prop} {xs : Array α} {a : α} (h : ∀ x ∈ xs, P x)
    (ha : P a) : ∀ x ∈ xs.push a, P x := by
  intro x hx
  rcases Array.mem_push.1 hx with hx | rfl
  · exact h x hx
  · exact ha

/-- Changing the entry that was added last. -/
theorem modify_push_last {α : Type} (xs : Array α) (a : α) (f : α → α) :
    (xs.push a).modify xs.size f = xs.push (f a) := by
  apply Array.ext_getElem?
  intro j
  rw [Array.getElem?_modify, Array.getElem?_push, Array.getElem?_push]
  by_cases hj : j = xs.size
  · simp [hj]
  · simp [hj, Ne.symm hj]

/-! ## §2 References -/

namespace Builder

open Program (Scoped)

variable {b : Builder}

theorem index_lt_of_class? {c : ClassId} {cls : Class} (h : b.program.class? c = some cls) :
    c.index < b.program.classes.size :=
  (Array.getElem?_eq_some_iff.1 h).1

theorem scoped_declareClass (h : b.program.Scoped) (name : String) (kind : ClassKind)
    (superclass : Option ClassId) : (b.declareClass name kind superclass).1.program.Scoped := by
  unfold declareClass
  split
  · exact h
  · -- references stay in range because the table of classes only grows
    have hgrow : ∀ {n}, n < b.program.classes.size →
        n < (b.program.classes.push { name, kind, superclass }).size := by
      intro n hn
      simp only [Array.size_push]
      exact Nat.lt_succ_of_lt hn
    refine ⟨forall_mem_push (fun cls hcls iface hiface => hgrow (h.interfaces cls hcls iface hiface)) ?_,
      fun field hfield => hgrow (h.fieldOwners field hfield),
      fun method hmethod => hgrow (h.methodOwners method hmethod), h.varMethods⟩
    simp

/-- Changing an entry of the class table keeps the laws if only interfaces with entries are added. -/
theorem scoped_modifyClass (h : b.program.Scoped) (c : ClassId) {f : Class → Class}
    (hf : ∀ cls, ∀ iface ∈ (f cls).interfaces,
      iface ∈ cls.interfaces ∨ iface.index < b.program.classes.size) :
    ({ b.program with classes := b.program.classes.modify c.index f } : Program).Scoped := by
  refine ⟨?_, ?_, ?_, h.varMethods⟩
  · apply forall_mem_modify
    · simpa using h.interfaces
    · intro cls hcls iface hiface
      rcases hf cls iface hiface with hold | hlt
      · exact hcls iface hold
      · simpa using hlt
  · simpa using h.fieldOwners
  · simpa using h.methodOwners

theorem scoped_addImplementation (h : b.program.Scoped) (c iface : ClassId) :
    (b.addImplementation c iface).1.program.Scoped := by
  unfold addImplementation
  split
  · exact h
  · split
    · exact h
    · rename_i target htarget
      split
      · refine scoped_modifyClass h c fun cls i hi => ?_
        -- the interface that is added has just been looked up
        rcases List.mem_append.1 hi with hi | hi
        · exact Or.inl hi
        · rw [List.mem_singleton.1 hi]
          exact Or.inr (index_lt_of_class? htarget)
      · exact h

theorem scoped_addImplementations (h : b.program.Scoped) (c : ClassId) (ifaces : List ClassId) :
    (b.addImplementations c ifaces).1.program.Scoped := by
  induction ifaces generalizing b with
  | nil => exact h
  | cons iface rest ih =>
    have hstep := scoped_addImplementation h c iface
    unfold addImplementations
    split
    · rename_i b' heq
      rw [heq] at hstep
      exact ih hstep
    · rename_i b' e heq
      rw [heq] at hstep
      exact hstep

theorem scoped_addInterface (h : b.program.Scoped) (name : String) (ifaces : List ClassId) :
    (b.addInterface name ifaces).1.program.Scoped := by
  have hclass := scoped_declareClass h name .interface none
  unfold addInterface
  split
  · rename_i b' e heq
    rw [heq] at hclass
    exact hclass
  · rename_i b' id heq
    rw [heq] at hclass
    have hifaces := scoped_addImplementations hclass id ifaces
    split <;> rename_i heq' <;> rw [heq'] at hifaces <;> exact hifaces

theorem scoped_addField (h : b.program.Scoped) (c : ClassId) (name : String) (isStatic : Bool) :
    (b.addField c name isStatic).1.program.Scoped := by
  unfold addField
  split
  · exact h
  · rename_i owner howner
    split
    · exact h
    · have hpush : ({ b.program with
          fields := b.program.fields.push { owner := c, name, isStatic } } : Program).Scoped :=
        ⟨h.interfaces, forall_mem_push h.fieldOwners (index_lt_of_class? howner), h.methodOwners,
          h.varMethods⟩
      exact scoped_modifyClass (b := ⟨_⟩) hpush c fun _ _ hi => Or.inl hi

/-- Changing an entry of the method table without touching its class. -/
theorem scoped_modifyMethod (h : b.program.Scoped) (m : MethodId) {f : Method → Method}
    (hf : ∀ method, (f method).owner = method.owner) :
    ({ b.program with methods := b.program.methods.modify m.index f } : Program).Scoped := by
  refine ⟨h.interfaces, h.fieldOwners, ?_, ?_⟩
  · apply forall_mem_modify h.methodOwners
    intro method hmethod
    rw [hf method]
    exact hmethod
  · simpa using h.varMethods

theorem scoped_newVar (h : b.program.Scoped) {m : MethodId} (hm : m.index < b.program.methods.size)
    (name : String) : (b.newVar m name).1.program.Scoped := by
  have hpush : ({ b.program with vars := b.program.vars.push { name, method := m } } :
      Program).Scoped :=
    ⟨h.interfaces, h.fieldOwners, h.methodOwners, forall_mem_push h.varMethods hm⟩
  exact scoped_modifyMethod (b := ⟨_⟩) hpush m fun _ => rfl

theorem scoped_newSelf (h : b.program.Scoped) {m : MethodId} (hm : m.index < b.program.methods.size) :
    (b.newSelf m).program.Scoped :=
  scoped_modifyMethod (scoped_newVar h hm "this") m fun _ => rfl

theorem scoped_newParam (h : b.program.Scoped) {m : MethodId} (hm : m.index < b.program.methods.size)
    (i : Nat) : (b.newParam m i).program.Scoped :=
  scoped_modifyMethod (scoped_newVar h hm _) m fun _ => rfl

theorem size_methods_newParam (m : MethodId) (i : Nat) :
    (b.newParam m i).program.methods.size = b.program.methods.size := by
  simp [newParam, newVar]

theorem size_methods_newSelf (m : MethodId) :
    (b.newSelf m).program.methods.size = b.program.methods.size := by
  simp [newSelf, newVar]

theorem scoped_newParams (h : b.program.Scoped) {m : MethodId}
    (hm : m.index < b.program.methods.size) (l : List Nat) :
    (l.foldl (fun b i => b.newParam m i) b).program.Scoped := by
  induction l generalizing b with
  | nil => exact h
  | cons i rest ih => exact ih (scoped_newParam h hm i) (by rwa [size_methods_newParam])

theorem scoped_declareMethod (h : b.program.Scoped) (c : ClassId) (subsignature : String)
    (isStatic isAbstract : Bool) :
    (b.declareMethod c subsignature isStatic isAbstract).1.program.Scoped := by
  unfold declareMethod
  split
  · exact h
  · rename_i s _
    split
    · exact h
    · rename_i owner howner
      split
      · exact h
      · -- the entry itself, then the receiver, then the parameters one by one
        let entry : Method := { owner := c, subsignature := s, isStatic, isAbstract }
        have hpush : ({ b.program with methods := b.program.methods.push entry } : Program).Scoped := by
          refine ⟨h.interfaces, h.fieldOwners,
            forall_mem_push h.methodOwners (index_lt_of_class? howner), fun var hvar => ?_⟩
          simp only [Array.size_push]
          exact Nat.lt_succ_of_lt (h.varMethods var hvar)
        have hentry := scoped_modifyClass (b := ⟨_⟩) hpush c
          (f := fun cls => { cls with methods := cls.methods ++ [(s, ⟨b.program.methods.size⟩)] })
          fun _ _ hi => Or.inl hi
        have hlt : b.program.methods.size < (b.program.methods.push entry).size := by simp
        dsimp only
        split
        · exact scoped_newParams (b := ⟨_⟩) hentry hlt _
        · refine scoped_newParams (scoped_newSelf (b := ⟨_⟩) hentry hlt) ?_ _
          rw [size_methods_newSelf]
          exact hlt

theorem scoped_localVar (h : b.program.Scoped) (m : MethodId) (name : String) :
    (b.localVar m name).1.program.Scoped := by
  unfold localVar
  split
  · exact h
  · rename_i method hbody
    split
    · exact h
    · refine scoped_newVar h ?_ name
      -- the body of a method can be extended only if the method has an entry
      unfold body at hbody
      split at hbody
      · simp at hbody
      · rename_i hmethod
        exact (Array.getElem?_eq_some_iff.1 hmethod).1

theorem scoped_append (h : b.program.Scoped) (m : MethodId) (stmt : Stmt) :
    (b.append m stmt).1.program.Scoped := by
  unfold append
  split
  · exact h
  · exact scoped_modifyMethod h m fun _ => rfl

/-- Every call keeps the laws. -/
theorem scoped_perform (h : b.program.Scoped) (call : Call) : (b.perform call).program.Scoped := by
  cases call with
  | addClass name superclass => exact scoped_declareClass h name _ superclass
  | addAbstractClass name superclass => exact scoped_declareClass h name _ superclass
  | addInterface name superinterfaces => exact scoped_addInterface h name superinterfaces
  | addImplementation c iface => exact scoped_addImplementation h c iface
  | setObjectClass c => exact ⟨h.interfaces, h.fieldOwners, h.methodOwners, h.varMethods⟩
  | addField c name isStatic => exact scoped_addField h c name isStatic
  | addMethod c subsignature isStatic => exact scoped_declareMethod h c subsignature isStatic _
  | addAbstractMethod c subsignature => exact scoped_declareMethod h c subsignature _ _
  | setMain m => exact ⟨h.interfaces, h.fieldOwners, h.methodOwners, h.varMethods⟩
  | localVar m name => exact scoped_localVar h m name
  | append m stmt => exact scoped_append h m stmt

/-- **References are in scope** after every sequence of calls. -/
theorem scoped_after (calls : List Call) : (after calls).program.Scoped :=
  after_induction (P := fun b => b.program.Scoped) Program.scoped_empty
    (fun _ call h => scoped_perform h call) calls

/-! ## §3 Receivers -/

/-- Precisely the instance methods have a variable for their receiver. -/
def Selves (methods : Array Method) : Prop :=
  ∀ method ∈ methods, method.self.isSome = !method.isStatic

/-- The entry of the method that is being declared, up to its variables. -/
def Declares (methods : Array Method) (isStatic hasSelf : Bool) (b : Builder) : Prop :=
  ∃ entry, b.program.methods = methods.push entry ∧ entry.isStatic = isStatic ∧
    entry.self.isSome = hasSelf

theorem declares_newSelf {methods : Array Method} {isStatic hasSelf : Bool}
    (h : Declares methods isStatic hasSelf b) :
    Declares methods isStatic true (b.newSelf ⟨methods.size⟩) := by
  obtain ⟨entry, hmethods, hstatic, _⟩ := h
  let id : VarId := ⟨b.program.vars.size⟩
  refine ⟨{ entry with self := some id, vars := entry.vars ++ [id] }, ?_, hstatic, rfl⟩
  simp [id, newSelf, newVar, hmethods, modify_push_last]

theorem declares_newParam {methods : Array Method} {isStatic hasSelf : Bool}
    (h : Declares methods isStatic hasSelf b) (i : Nat) :
    Declares methods isStatic hasSelf (b.newParam ⟨methods.size⟩ i) := by
  obtain ⟨entry, hmethods, hstatic, hself⟩ := h
  let id : VarId := ⟨b.program.vars.size⟩
  refine ⟨{ entry with params := entry.params ++ [id], vars := entry.vars ++ [id] }, ?_, hstatic, hself⟩
  simp [id, newParam, newVar, hmethods, modify_push_last]

theorem declares_newParams {methods : Array Method} {isStatic hasSelf : Bool}
    (h : Declares methods isStatic hasSelf b) (l : List Nat) :
    Declares methods isStatic hasSelf (l.foldl (fun b i => b.newParam ⟨methods.size⟩ i) b) := by
  induction l generalizing b with
  | nil => exact h
  | cons i rest ih => exact ih (declares_newParam h i)

theorem selves_declareMethod (h : Selves b.program.methods) (c : ClassId) (subsignature : String)
    (isStatic isAbstract : Bool) :
    Selves (b.declareMethod c subsignature isStatic isAbstract).1.program.methods := by
  unfold declareMethod
  split
  · exact h
  · split
    · exact h
    · split
      · exact h
      · -- whatever the parameters, the entry ends up with a receiver exactly if it is not static
        suffices hdeclares : ∀ b', Declares b.program.methods isStatic (!isStatic) b' →
            Selves b'.program.methods by
          apply hdeclares
          apply declares_newParams
          cases isStatic with
          | true => exact ⟨_, rfl, rfl, rfl⟩
          | false => exact declares_newSelf ⟨_, rfl, rfl, rfl⟩
        rintro b' ⟨entry, hmethods, hstatic, hself⟩
        rw [hmethods]
        apply forall_mem_push h
        rw [hself, hstatic]

theorem selves_modify {methods : Array Method} (h : Selves methods) (i : Nat) {f : Method → Method}
    (hself : ∀ method, (f method).self = method.self)
    (hstatic : ∀ method, (f method).isStatic = method.isStatic) : Selves (methods.modify i f) := by
  apply forall_mem_modify h
  intro method hmethod
  rw [hself, hstatic]
  exact hmethod

theorem methods_addImplementation (c iface : ClassId) :
    (b.addImplementation c iface).1.program.methods = b.program.methods := by
  unfold addImplementation
  split
  · rfl
  · split
    · rfl
    · split <;> rfl

theorem methods_declareClass (name : String) (kind : ClassKind) (superclass : Option ClassId) :
    (b.declareClass name kind superclass).1.program.methods = b.program.methods := by
  unfold declareClass
  split <;> rfl

theorem methods_addImplementations (c : ClassId) (ifaces : List ClassId) :
    (b.addImplementations c ifaces).1.program.methods = b.program.methods := by
  induction ifaces generalizing b with
  | nil => rfl
  | cons iface rest ih =>
    have hstep := methods_addImplementation (b := b) c iface
    unfold addImplementations
    split <;> rename_i heq <;> rw [heq] at hstep
    · exact ih.trans hstep
    · exact hstep

theorem methods_addInterface (name : String) (ifaces : List ClassId) :
    (b.addInterface name ifaces).1.program.methods = b.program.methods := by
  have hclass := methods_declareClass (b := b) name .interface none
  unfold addInterface
  split
  · rename_i heq
    rw [heq] at hclass
    exact hclass
  · rename_i b' id heq
    rw [heq] at hclass
    have hifaces := methods_addImplementations (b := b') id ifaces
    split <;> rename_i heq' <;> rw [heq'] at hifaces <;> exact hifaces.trans hclass

theorem selves_perform (h : Selves b.program.methods) (call : Call) :
    Selves (b.perform call).program.methods := by
  -- only the declaration of a method adds entries, and only that of variables and statements changes any
  cases call with
  | addClass name superclass => exact (methods_declareClass name _ superclass).symm ▸ h
  | addAbstractClass name superclass => exact (methods_declareClass name _ superclass).symm ▸ h
  | addInterface name superinterfaces => exact (methods_addInterface name superinterfaces).symm ▸ h
  | addImplementation c iface => exact (methods_addImplementation c iface).symm ▸ h
  | setObjectClass c => exact h
  | addField c name isStatic =>
    simp only [perform, addField]
    split
    · exact h
    · split <;> exact h
  | addMethod c subsignature isStatic => exact selves_declareMethod h c subsignature isStatic _
  | addAbstractMethod c subsignature => exact selves_declareMethod h c subsignature _ _
  | setMain m => exact h
  | localVar m name =>
    simp only [perform, localVar]
    split
    · exact h
    · split
      · exact h
      · dsimp only [newVar]
        apply selves_modify h <;> exact fun _ => rfl
  | append m stmt =>
    simp only [perform, append]
    split
    · exact h
    · dsimp only
      apply selves_modify h <;> exact fun _ => rfl

/-- Precisely the instance methods have a receiver, after every sequence of calls. -/
theorem selves_after (calls : List Call) : Selves (after calls).program.methods :=
  after_induction (P := fun b => Selves b.program.methods) (by simp [Selves])
    (fun _ call h => selves_perform h call) calls

end Builder

end PointsTo
