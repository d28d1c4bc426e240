import PointsTo.Program.Validation

/-!
# Declared programs

A builder can be driven by any sequence of calls, in any order and with any identifiers. Whatever the
sequence, the tables that it leaves behind satisfy a few laws which validation never looks at and which
the analysis relies on: the methods that a class lists exist, the receiver and the parameters of a
method are variables of that method, and no access is indexed before the program is complete.

- `Builder.after`: the builder that a sequence of calls leaves behind.
- `Program.Built`: the programs that come out of a builder.
- `Builder.declared_after`: the laws hold after every sequence of calls.
-/

namespace PointsTo

/-! ## §1 Calls -/

/-- A call on a builder. Calls that only ask a question change nothing and are left out. -/
inductive Builder.Call
  | addClass (name : String) (superclass : Option ClassId)
  | addAbstractClass (name : String) (superclass : Option ClassId)
  | addInterface (name : String) (superinterfaces : List ClassId)
  | addImplementation (c iface : ClassId)
  | setObjectClass (c : ClassId)
  | addField (c : ClassId) (name : String) (isStatic : Bool)
  | addMethod (c : ClassId) (subsignature : String) (isStatic : Bool)
  | addAbstractMethod (c : ClassId) (subsignature : String)
  | setMain (m : MethodId)
  | localVar (m : MethodId) (name : String)
  | append (m : MethodId) (stmt : Stmt)

namespace Builder

/-- The builder that a call leaves behind, whether the call succeeds or not. -/
def perform (b : Builder) : Call → Builder
  | .addClass name superclass => (b.addClass name superclass).1
  | .addAbstractClass name superclass => (b.addAbstractClass name superclass).1
  | .addInterface name superinterfaces => (b.addInterface name superinterfaces).1
  | .addImplementation c iface => (b.addImplementation c iface).1
  | .setObjectClass c => b.setObjectClass c
  | .addField c name isStatic => (b.addField c name isStatic).1
  | .addMethod c subsignature isStatic => (b.addMethod c subsignature isStatic).1
  | .addAbstractMethod c subsignature => (b.addAbstractMethod c subsignature).1
  | .setMain m => b.setMain m
  | .localVar m name => (b.localVar m name).1
  | .append m stmt => (b.append m stmt).1

/-- The builder that a sequence of calls leaves behind. -/
def after (calls : List Call) : Builder := calls.foldl perform {}

end Builder

namespace Program

/-- The program comes out of a builder after some sequence of calls. -/
def Built (p : Program) : Prop := ∃ calls, (Builder.after calls).build = .ok p

/-- A variable has an entry and belongs to the method. -/
def Owns (p : Program) (m : MethodId) (v : VarId) : Prop :=
  ∃ var, p.var? v = some var ∧ var.method = m

/-! ## §2 The laws -/

/-- What holds of the tables of a builder at any time. -/
structure Declared (p : Program) : Prop where
  methodsExist : ∀ {c cls entry}, p.class? c = some cls → entry ∈ cls.methods →
    entry.2.index < p.methods.size
  selfOwned : ∀ {m method v}, p.method? m = some method → method.self = some v → p.Owns m v
  paramOwned : ∀ {m method v}, p.method? m = some method → v ∈ method.params → p.Owns m v
  unindexed : ∀ {v var}, p.var? v = some var → var.accesses = {}

/-- The laws carry over to a program whose entries are old or obey the laws by themselves. -/
theorem Declared.transfer {p q : Program} (h : p.Declared)
    (hsize : p.methods.size ≤ q.methods.size)
    (hvars : ∀ {v var}, p.var? v = some var → q.var? v = some var)
    (hclass : ∀ {c cls entry}, q.class? c = some cls → entry ∈ cls.methods →
      entry.2.index < q.methods.size ∨ ∃ cls', p.class? c = some cls' ∧ entry ∈ cls'.methods)
    (hself : ∀ {m method v}, q.method? m = some method → method.self = some v →
      q.Owns m v ∨ ∃ method', p.method? m = some method' ∧ method'.self = some v)
    (hparam : ∀ {m method v}, q.method? m = some method → v ∈ method.params →
      q.Owns m v ∨ ∃ method', p.method? m = some method' ∧ v ∈ method'.params)
    (hvar : ∀ {v var}, q.var? v = some var → var.accesses = {} ∨ p.var? v = some var) :
    q.Declared := by
  have howns : ∀ {m v}, p.Owns m v → q.Owns m v := by
    rintro m v ⟨var, hv, hm⟩
    exact ⟨var, hvars hv, hm⟩
  refine ⟨fun hc he => ?_, fun hm hv => ?_, fun hm hv => ?_, fun hv => ?_⟩
  · rcases hclass hc he with hlt | ⟨cls', hc', he'⟩
    · exact hlt
    · exact Nat.lt_of_lt_of_le (h.methodsExist hc' he') hsize
  · rcases hself hm hv with ho | ⟨method', hm', hv'⟩
    · exact ho
    · exact howns (h.selfOwned hm' hv')
  · rcases hparam hm hv with ho | ⟨method', hm', hv'⟩
    · exact ho
    · exact howns (h.paramOwned hm' hv')
  · rcases hvar hv with he | hv'
    · exact he
    · exact h.unindexed hv'

theorem declared_empty : ({} : Program).Declared := by
  constructor <;> simp [class?, method?, var?]

end Program

/-! ## §3 The calls keep the laws -/

namespace Builder

open Program (Declared)

variable {b : Builder}

theorem declared_setMain (h : b.program.Declared) (m : MethodId) :
    (b.setMain m).program.Declared :=
  ⟨h.methodsExist, h.selfOwned, h.paramOwned, h.unindexed⟩

theorem declared_setObjectClass (h : b.program.Declared) (c : ClassId) :
    (b.setObjectClass c).program.Declared :=
  ⟨h.methodsExist, h.selfOwned, h.paramOwned, h.unindexed⟩

theorem declared_declareClass (h : b.program.Declared) (name : String) (kind : ClassKind)
    (superclass : Option ClassId) : (b.declareClass name kind superclass).1.program.Declared := by
  unfold declareClass
  split
  · exact h
  · refine ⟨?_, h.selfOwned, h.paramOwned, h.unindexed⟩
    intro c cls entry hc he
    simp only [Program.class?, Array.getElem?_push] at hc
    split at hc
    · -- the class just declared lists no methods
      cases hc
      simp at he
    · exact h.methodsExist hc he

/-- Changing an entry of the class table without touching its methods keeps the laws. -/
theorem declared_modifyClass (h : b.program.Declared) (fields : Array Field) (c : ClassId)
    (f : Class → Class) (hf : ∀ cls, (f cls).methods = cls.methods) :
    ({ b.program with fields, classes := b.program.classes.modify c.index f } : Program).Declared := by
  refine ⟨?_, h.selfOwned, h.paramOwned, h.unindexed⟩
  intro c' cls entry hc he
  simp only [Program.class?, Array.getElem?_modify] at hc
  split at hc
  · obtain ⟨cls', hc', rfl⟩ := Option.map_eq_some_iff.1 hc
    rw [hf] at he
    exact h.methodsExist (c := c') hc' he
  · exact h.methodsExist hc he

theorem declared_addImplementation (h : b.program.Declared) (c iface : ClassId) :
    (b.addImplementation c iface).1.program.Declared := by
  unfold addImplementation
  split
  · exact h
  · split
    · exact h
    · split
      · exact declared_modifyClass h _ c _ fun _ => rfl
      · exact h

theorem declared_addImplementations (h : b.program.Declared) (c : ClassId) (ifaces : List ClassId) :
    (b.addImplementations c ifaces).1.program.Declared := by
  induction ifaces generalizing b with
  | nil => exact h
  | cons iface rest ih =>
    have hstep := declared_addImplementation h c iface
    unfold addImplementations
    split
    · rename_i b' heq
      rw [heq] at hstep
      exact ih hstep
    · rename_i b' e heq
      rw [heq] at hstep
      exact hstep

theorem declared_addInterface (h : b.program.Declared) (name : String) (ifaces : List ClassId) :
    (b.addInterface name ifaces).1.program.Declared := by
  have hclass := declared_declareClass h name .interface none
  unfold addInterface
  split
  · rename_i b' e heq
    rw [heq] at hclass
    exact hclass
  · rename_i b' id heq
    rw [heq] at hclass
    have hifaces := declared_addImplementations hclass id ifaces
    split <;> rename_i heq' <;> rw [heq'] at hifaces <;> exact hifaces

theorem declared_addField (h : b.program.Declared) (c : ClassId) (name : String) (isStatic : Bool) :
    (b.addField c name isStatic).1.program.Declared := by
  unfold addField
  split
  · exact h
  · split
    · exact h
    · exact declared_modifyClass h _ c _ fun _ => rfl

/-- Changing an entry of the method table keeps the laws if what becomes the receiver or a parameter
    was so before or is a variable of the method. -/
theorem declared_modifyMethod (h : b.program.Declared) (m : MethodId) (f : Method → Method)
    (hself : ∀ method v, (f method).self = some v → method.self = some v ∨ b.program.Owns m v)
    (hparam : ∀ method v, v ∈ (f method).params → v ∈ method.params ∨ b.program.Owns m v) :
    ({ b.program with methods := b.program.methods.modify m.index f } : Program).Declared := by
  -- an entry of the new table is an old entry, changed or not
  have hentry : ∀ {m' method}, (b.program.methods.modify m.index f)[m'.index]? = some method →
      ∃ method', b.program.method? m' = some method' ∧
        (method = method' ∨ m' = m ∧ method = f method') := by
    intro m' method hm'
    rw [Array.getElem?_modify] at hm'
    split at hm'
    · rename_i heq
      obtain ⟨method', hm'', rfl⟩ := Option.map_eq_some_iff.1 hm'
      cases m; cases m'
      cases heq
      exact ⟨method', hm'', Or.inr ⟨rfl, rfl⟩⟩
    · exact ⟨method, hm', Or.inl rfl⟩
  refine h.transfer (by simp) (fun hv => hv) (fun hc he => Or.inr ⟨_, hc, he⟩) ?_ ?_
    (fun hv => Or.inr hv)
  · intro m' method v hm' hv
    obtain ⟨method', hold, rfl | ⟨rfl, rfl⟩⟩ := hentry hm'
    · exact Or.inr ⟨_, hold, hv⟩
    · exact (hself method' v hv).elim (fun hv' => Or.inr ⟨_, hold, hv'⟩) Or.inl
  · intro m' method v hm' hv
    obtain ⟨method', hold, rfl | ⟨rfl, rfl⟩⟩ := hentry hm'
    · exact Or.inr ⟨_, hold, hv⟩
    · exact (hparam method' v hv).elim (fun hv' => Or.inr ⟨_, hold, hv'⟩) Or.inl

theorem declared_newVar (h : b.program.Declared) (m : MethodId) (name : String) :
    (b.newVar m name).1.program.Declared := by
  have hpush : ({ b.program with vars := b.program.vars.push { name, method := m } } :
      Program).Declared := by
    refine h.transfer (Nat.le_refl _) ?_ (fun hc he => Or.inr ⟨_, hc, he⟩)
      (fun hm hv => Or.inr ⟨_, hm, hv⟩) (fun hm hv => Or.inr ⟨_, hm, hv⟩) ?_
    · intro v var hv
      have hlt := (Array.getElem?_eq_some_iff.1 hv).1
      simpa only [Program.var?, Array.getElem?_push, if_neg (Nat.ne_of_lt hlt)] using hv
    · intro v var hv
      simp only [Program.var?, Array.getElem?_push] at hv
      split at hv
      · cases hv
        exact Or.inl rfl
      · exact Or.inr hv
  exact declared_modifyMethod (b := ⟨_⟩) hpush m _ (fun _ _ hv => Or.inl hv) fun _ _ hv => Or.inl hv

/-- A new variable belongs to the method that it was made for. -/
theorem owns_newVar (m : MethodId) (name : String) :
    (b.newVar m name).1.program.Owns m (b.newVar m name).2 :=
  ⟨{ name, method := m }, by simp [newVar, Program.var?], rfl⟩

theorem declared_newSelf (h : b.program.Declared) (m : MethodId) :
    (b.newSelf m).program.Declared := by
  refine declared_modifyMethod (declared_newVar h m "this") m _ (fun _ v hv => Or.inr ?_)
    fun _ _ hv => Or.inl hv
  cases hv
  exact owns_newVar m "this"

theorem declared_newParam (h : b.program.Declared) (m : MethodId) (i : Nat) :
    (b.newParam m i).program.Declared := by
  refine declared_modifyMethod (declared_newVar h m _) m _ (fun _ _ hv => Or.inl hv)
    fun _ v hv => ?_
  rcases List.mem_append.1 hv with hv | hv
  · exact Or.inl hv
  · rw [List.mem_singleton] at hv
    exact Or.inr (hv ▸ owns_newVar m _)

theorem declared_declareMethod (h : b.program.Declared) (c : ClassId) (subsignature : String)
    (isStatic isAbstract : Bool) :
    (b.declareMethod c subsignature isStatic isAbstract).1.program.Declared := by
  unfold declareMethod
  split
  · exact h
  · rename_i s _
    split
    · exact h
    · split
      · exact h
      · -- the entry itself, then the receiver, then the parameters one by one
        let program : Program := { b.program with
          methods := b.program.methods.push { owner := c, subsignature := s, isStatic, isAbstract }
          classes := b.program.classes.modify c.index fun cls =>
            { cls with methods := cls.methods ++ [(s, ⟨b.program.methods.size⟩)] } }
        have hentry : program.Declared := by
          refine h.transfer (by simp [program]) (fun hv => hv) ?_ ?_ ?_ (fun hv => Or.inr hv)
          · intro c' cls entry hc he
            simp only [program, Program.class?, Array.getElem?_modify] at hc
            split at hc
            · obtain ⟨cls', hc', rfl⟩ := Option.map_eq_some_iff.1 hc
              rcases List.mem_append.1 he with he | he
              · exact Or.inr ⟨cls', hc', he⟩
              · rw [List.mem_singleton] at he
                exact Or.inl (by simp [he, program])
            · exact Or.inr ⟨cls, hc, he⟩
          · intro m method v hm hv
            simp only [program, Program.method?, Array.getElem?_push] at hm
            split at hm
            · cases hm
              simp at hv
            · exact Or.inr ⟨method, hm, hv⟩
          · intro m method v hm hv
            simp only [program, Program.method?, Array.getElem?_push] at hm
            split at hm
            · cases hm
              simp at hv
            · exact Or.inr ⟨method, hm, hv⟩
        have hparams : ∀ (l : List Nat) (b' : Builder) (m : MethodId), b'.program.Declared →
            (l.foldl (fun b i => b.newParam m i) b').program.Declared := by
          intro l
          induction l with
          | nil => exact fun _ _ h' => h'
          | cons i rest ih => exact fun b' m h' => ih (b'.newParam m i) m (declared_newParam h' m i)
        refine hparams _ _ _ ?_
        split
        · exact hentry
        · exact declared_newSelf hentry _

theorem declared_localVar (h : b.program.Declared) (m : MethodId) (name : String) :
    (b.localVar m name).1.program.Declared := by
  unfold localVar
  split
  · exact h
  · split
    · exact h
    · exact declared_newVar h m name

theorem declared_append (h : b.program.Declared) (m : MethodId) (stmt : Stmt) :
    (b.append m stmt).1.program.Declared := by
  unfold append
  split
  · exact h
  · exact declared_modifyMethod h m _ (fun _ _ hv => Or.inl hv) fun _ _ hv => Or.inl hv

/-- Every call keeps the laws. -/
theorem declared_perform (h : b.program.Declared) (call : Call) :
    (b.perform call).program.Declared := by
  cases call with
  | addClass name superclass => exact declared_declareClass h name _ superclass
  | addAbstractClass name superclass => exact declared_declareClass h name _ superclass
  | addInterface name superinterfaces => exact declared_addInterface h name superinterfaces
  | addImplementation c iface => exact declared_addImplementation h c iface
  | setObjectClass c => exact declared_setObjectClass h c
  | addField c name isStatic => exact declared_addField h c name isStatic
  | addMethod c subsignature isStatic => exact declared_declareMethod h c subsignature isStatic _
  | addAbstractMethod c subsignature => exact declared_declareMethod h c subsignature _ _
  | setMain m => exact declared_setMain h m
  | localVar m name => exact declared_localVar h m name
  | append m stmt => exact declared_append h m stmt

/-- What the empty builder has and every call keeps, holds after every sequence of calls. -/
theorem after_induction {P : Builder → Prop} (hempty : P {})
    (hstep : ∀ b call, P b → P (b.perform call)) (calls : List Call) : P (after calls) := by
  have key : ∀ (l : List Call) (b : Builder), P b → P (l.foldl perform b) := by
    intro l
    induction l with
    | nil => exact fun _ h => h
    | cons call rest ih => exact fun b h => ih (b.perform call) (hstep b call h)
  exact key calls {} hempty

/-- **The laws of declared programs** hold after every sequence of calls. -/
theorem declared_after (calls : List Call) : (after calls).program.Declared :=
  after_induction (P := fun b => b.program.Declared) Program.declared_empty
    (fun _ call h => declared_perform h call) calls

end Builder

/-! ## §5 A program -/

/-- Calls that declare a class `A` with a field and a method that reads it, and an entry method that
    stores an object in its own field and reads it back. -/
def Builder.getterCalls : List Builder.Call :=
  [.addClass "Object" none, .addClass "A" (some ⟨0⟩), .addField ⟨1⟩ "f" false,
   .addMethod ⟨1⟩ "Object get()" false, .localVar ⟨0⟩ "t",
   .append ⟨0⟩ (.loadField ⟨1⟩ (some ⟨0⟩) ⟨0⟩), .append ⟨0⟩ (.ret (some ⟨1⟩)),
   .addMethod ⟨0⟩ "void main()" true, .localVar ⟨1⟩ "a", .localVar ⟨1⟩ "b",
   .append ⟨1⟩ (.new ⟨2⟩ (.ofClass ⟨1⟩)), .append ⟨1⟩ (.storeField (some ⟨2⟩) ⟨0⟩ ⟨2⟩),
   .append ⟨1⟩ (.invoke ⟨.virtual, ⟨⟨1⟩, ⟨"Object", "get", []⟩⟩, some ⟨2⟩, [], some ⟨3⟩⟩),
   .setMain ⟨1⟩]

namespace Program

/-- The program that these calls declare. -/
def getter : Program := (Builder.after Builder.getterCalls).program.indexed

theorem getter_built : getter.Built := by
  have hfault : (Builder.after Builder.getterCalls).program.fault? = none := by decide +kernel
  exact ⟨Builder.getterCalls, by simp [Builder.build, hfault, getter]⟩

theorem getter_main : getter.main = some ⟨1⟩ := by decide +kernel

end Program

end PointsTo
