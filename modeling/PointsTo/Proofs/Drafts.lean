import PointsTo.Proofs.FieldLookup

/-!
# Calls step by step

A builder answers a call with the program that it leaves behind, all at once. Here calls are taken apart into the
steps that they are made of. A step reads or writes one table: the entries of classes, fields, methods and
variables, the members that an entry lists, the names of classes, the root class. A step can reject the call, and
what earlier steps have written stays written then. A step that looks at an entry can also go wrong altogether,
if there is no such entry.

Nothing goes wrong, and step by step a call does what the builder does. The steps that need an entry come after
one that has found it or has just made it; only the fields that a class lists are looked up without having been
found before, and these have entries because the tables are coherent.

- `Draft`, `Draft.outcome`: steps, and how they turn out.
- `Draft.outcome_bind_ok`, `Draft.outcome_bind_error`: what becomes of the steps that come next.
- `Draft.outcome_newClass`, `Draft.outcome_addInterface`, `Draft.outcome_addField`, `Draft.outcome_newMethod`, …:
  the calls do what the builder does.
-/

namespace PointsTo

/-- The steps of a call. They read and write a program under construction, and its table of class names. A step
    can reject the call, and what was written before stays written. There is no outcome if a step relies on an
    entry that does not exist. -/
abbrev Draft (α : Type) := ExceptT DeclarationError (StateT Directory Option) α

namespace Draft

variable {α β : Type}

/-! ## §1 Steps -/

/-- How a call ends, and what it leaves behind. -/
def outcome (m : Draft α) (d : Directory) : Option (Except DeclarationError α × Directory) :=
  StateT.run (ExceptT.run m) d

/-- Rejects the call under a condition. -/
def rejectIf (condition : Bool) (e : DeclarationError) : Draft Unit :=
  if condition then throw e else pure ()

/-- Something that has to be there. -/
def require (entry : Option α) : Draft α := ExceptT.lift (StateT.lift entry)

/-- Changes the program. -/
def edit (f : Program → Program) : Draft Unit := modify fun d => { d with program := f d.program }

/-- The class with an identifier that need not have an entry. -/
def findClass (c : ClassId) : Draft Class := do
  match (← get).program.class? c with
  | none => throw (.foreign .classes c.index)
  | some cls => return cls

/-- Changes the entry of a class, which has to be there. -/
def modifyClass (c : ClassId) (f : Class → Class) : Draft Unit := do
  let _ ← require ((← get).program.class? c)
  edit fun p => { p with classes := p.classes.modify c.index f }

/-- Changes the entry of a method, which has to be there. -/
def modifyMethod (m : MethodId) (f : Method → Method) : Draft Unit := do
  let _ ← require ((← get).program.method? m)
  edit fun p => { p with methods := p.methods.modify m.index f }

/-- The subsignature that a text stands for. -/
def parse (text : String) : Draft Subsignature :=
  match Subsignature.parse text with
  | .error e => throw (.malformed e)
  | .ok s => pure s

variable {m : Draft α} {f : α → Draft β} {a : α} {d d' : Directory} {e : DeclarationError}

/-- What comes after a step goes on with what the step leaves behind. -/
theorem outcome_bind_ok (h : outcome m d = some (.ok a, d')) : outcome (m >>= f) d = outcome (f a) d' := by
  change ((ExceptT.run m).run d).bind _ = _
  rw [show (ExceptT.run m).run d = some (.ok a, d') from h]
  rfl

/-- Nothing comes after a step that rejects the call. -/
theorem outcome_bind_error (h : outcome m d = some (.error e, d')) :
    outcome (m >>= f) d = some (.error e, d') := by
  change ((ExceptT.run m).run d).bind _ = _
  rw [show (ExceptT.run m).run d = some (.error e, d') from h]
  rfl

theorem outcome_get (f : Directory → Draft α) : outcome (get >>= f) d = outcome (f d) d := rfl

theorem outcome_modify (g : Directory → Directory) (f : Unit → Draft α) :
    outcome (modify g >>= f) d = outcome (f ()) (g d) := rfl

theorem outcome_edit (g : Program → Program) (f : Unit → Draft α) :
    outcome (edit g >>= f) d = outcome (f ()) { d with program := g d.program } := rfl

theorem outcome_rejectIf (condition : Bool) (f : Unit → Draft α) :
    outcome (rejectIf condition e >>= f) d =
      if condition then some (.error e, d) else outcome (f ()) d := by
  cases condition <;> rfl

theorem outcome_require (entry : Option α) (f : α → Draft β) :
    outcome (require entry >>= f) d = entry.bind fun a => outcome (f a) d := by
  cases entry <;> rfl

theorem outcome_findClass (c : ClassId) (f : Class → Draft α) :
    outcome (findClass c >>= f) d =
      match d.program.class? c with
      | none => some (.error (.foreign .classes c.index), d)
      | some cls => outcome (f cls) d := by
  rw [findClass, bind_assoc, outcome_get]
  cases d.program.class? c <;> rfl

theorem outcome_parse (text : String) (f : Subsignature → Draft α) :
    outcome (parse text >>= f) d =
      match Subsignature.parse text with
      | .error e => some (.error (.malformed e), d)
      | .ok s => outcome (f s) d := by
  rw [parse]
  cases Subsignature.parse text <;> rfl

theorem outcome_modifyClass {c : ClassId} (hc : c.index < d.program.classes.size)
    (g : Class → Class) :
    outcome (modifyClass c g) d = some (.ok (), { d with program :=
      { d.program with classes := d.program.classes.modify c.index g } }) := by
  have hentry : d.program.class? c = some d.program.classes[c.index] := Array.getElem?_eq_getElem hc
  rw [modifyClass, outcome_get, outcome_require, hentry]
  rfl

theorem outcome_modifyMethod {m : MethodId} (hm : m.index < d.program.methods.size)
    (g : Method → Method) :
    outcome (modifyMethod m g) d = some (.ok (), { d with program :=
      { d.program with methods := d.program.methods.modify m.index g } }) := by
  have hentry : d.program.method? m = some d.program.methods[m.index] := Array.getElem?_eq_getElem hm
  rw [modifyMethod, outcome_get, outcome_require, hentry]
  rfl

/-! ## §2 Calls -/

/-- Declares a class. Its entry is added before its name. -/
def newClass (name : String) (kind : ClassKind) (superclass : Option ClassId) : Draft ClassId := do
  rejectIf ((← get).names name).isSome (.duplicateClass name)
  let id : ClassId := ⟨(← get).program.classes.size⟩
  edit fun p => { p with classes := p.classes.push { name, kind, superclass } }
  modify fun d => { d with names := Function.update d.names name (some id) }
  if superclass.isNone && kind != .interface && (← get).program.objectClass.isNone then
    edit fun p => { p with objectClass := some id }
  return id

/-- Records that a class implements an interface. -/
def addImplementation (c iface : ClassId) : Draft Unit := do
  let implementor ← findClass c
  let target ← findClass iface
  rejectIf (!target.isInterface) (.notInterface target.name implementor.name)
  modifyClass c fun cls => { cls with interfaces := cls.interfaces ++ [iface] }

/-- Declares an interface, then records one after the other the interfaces that it extends. -/
def addInterface (name : String) (superinterfaces : List ClassId) : Draft ClassId := do
  let id ← newClass name .interface none
  superinterfaces.forM (addImplementation id)
  return id

/-- Declares a field. Its entry is added before its class lists it. -/
def addField (c : ClassId) (name : String) (isStatic : Bool) : Draft FieldId := do
  let owner ← findClass c
  let clash ← require (Strict.firstNamed (← get).program name owner.fields)
  rejectIf clash.isSome (.duplicateField name owner.name)
  let id : FieldId := ⟨(← get).program.fields.size⟩
  edit fun p => { p with fields := p.fields.push { owner := c, name, isStatic } }
  modifyClass c fun cls => { cls with fields := cls.fields ++ [id] }
  return id

/-- Adds a variable to a method. Its entry is added before its method lists it. -/
def newVar (m : MethodId) (name : String) : Draft VarId := do
  let id : VarId := ⟨(← get).program.vars.size⟩
  edit fun p => { p with vars := p.vars.push { name, method := m } }
  modifyMethod m fun method => { method with vars := method.vars ++ [id] }
  return id

/-- Gives a method the variable that holds its receiver. -/
def newSelf (m : MethodId) : Draft Unit := do
  let id ← newVar m "this"
  modifyMethod m fun method => { method with self := some id }

/-- Gives a method the variable that holds its `i`-th argument. -/
def newParam (m : MethodId) (i : Nat) : Draft Unit := do
  let id ← newVar m ("p" ++ toString i)
  modifyMethod m fun method => { method with params := method.params ++ [id] }

/-- Declares a method. Its entry is added before its class lists it, and then its variables. -/
def newMethod (c : ClassId) (subsignature : String) (isStatic isAbstract : Bool) : Draft MethodId := do
  let s ← parse subsignature
  let owner ← findClass c
  rejectIf (owner.methods.lookup s).isSome (.duplicateMethod s owner.name)
  let id : MethodId := ⟨(← get).program.methods.size⟩
  edit fun p => { p with
    methods := p.methods.push { owner := c, subsignature := s, isStatic, isAbstract } }
  modifyClass c fun cls => { cls with methods := cls.methods ++ [(s, id)] }
  unless isStatic do newSelf id
  (List.range s.paramCount).forM (newParam id)
  return id

/-- A reference to a method. -/
def methodRef (c : ClassId) (subsignature : String) : Draft MethodRef :=
  return ⟨c, ← parse subsignature⟩

/-- The method whose body is to be extended. -/
def body (m : MethodId) : Draft Method := do
  match (← get).program.method? m with
  | none => throw (.foreign .methods m.index)
  | some method => return method

/-! ## §3 The calls do what the builder does -/

open Directory (ofProgram)

variable {b : Builder} {names : String → Option ClassId}

theorem program_ofProgram (p : Program) : (ofProgram p).program = p := rfl

theorem outcome_newClass (b : Builder) (name : String) (kind : ClassKind) (superclass : Option ClassId) :
    outcome (newClass name kind superclass) (ofProgram b.program) =
      some ((b.declareClass name kind superclass).2,
        ofProgram (b.declareClass name kind superclass).1.program) := by
  simp only [newClass, outcome_get, outcome_rejectIf, outcome_edit, outcome_modify]
  cases hname : b.program.classByName? name with
  | some c => simp [Builder.declareClass, hname, ofProgram]
  | none =>
    rw [Builder.declareClass, hname]
    dsimp only
    -- whatever becomes the root class, the table of names has got the new name
    rw [ofProgram, ofProgram, Program.classByName?_declare _ _ { name, kind, superclass } hname]
    simp only [hname]
    cases superclass.isNone && kind != .interface <;> cases b.program.objectClass <;> rfl

/-- A call that leaves classes in place leaves the table of names in place. -/
theorem outcome_of_amends {m : Draft α} {answer : Builder.Outcome α} (hamends : b.program.Amends answer.1.program)
    (h : outcome m (ofProgram b.program) = some (answer.2, { ofProgram b.program with program := answer.1.program })) :
    outcome m (ofProgram b.program) = some (answer.2, ofProgram answer.1.program) := by
  rw [h, hamends.ofProgram]

theorem outcome_addImplementation (b : Builder) (c iface : ClassId) :
    outcome (addImplementation c iface) (ofProgram b.program) =
      some ((b.addImplementation c iface).2, ofProgram (b.addImplementation c iface).1.program) := by
  apply outcome_of_amends (Builder.amends_addImplementation b c iface)
  simp only [addImplementation, outcome_findClass]
  rw [program_ofProgram, Builder.addImplementation]
  cases hc : b.program.class? c with
  | none => rfl
  | some implementor =>
    cases hiface : b.program.class? iface with
    | none => rfl
    | some target =>
      simp only [outcome_rejectIf]
      cases htarget : target.isInterface with
      | false => rfl
      | true => exact outcome_modifyClass (d := ofProgram b.program) (Builder.index_lt_of_class? hc) _

/-- The interfaces are recorded up to the first one that is rejected. -/
theorem outcome_addImplementations (b : Builder) (c : ClassId) (ifaces : List ClassId) :
    outcome (ifaces.forM (addImplementation c)) (ofProgram b.program) =
      some ((b.addImplementations c ifaces).2, ofProgram (b.addImplementations c ifaces).1.program) := by
  induction ifaces generalizing b with
  | nil => rfl
  | cons iface rest ih =>
    have hfirst := outcome_addImplementation b c iface
    rw [List.forM, Builder.addImplementations]
    generalize b.addImplementation c iface = answer at hfirst ⊢
    obtain ⟨b', _ | _⟩ := answer
    · exact outcome_bind_error hfirst
    · exact (outcome_bind_ok hfirst).trans (ih b')

theorem outcome_addInterface (b : Builder) (name : String) (ifaces : List ClassId) :
    outcome (addInterface name ifaces) (ofProgram b.program) =
      some ((b.addInterface name ifaces).2, ofProgram (b.addInterface name ifaces).1.program) := by
  have hclass := outcome_newClass b name .interface none
  rw [addInterface, Builder.addInterface]
  generalize b.declareClass name .interface none = answer at hclass ⊢
  obtain ⟨b', _ | id⟩ := answer
  · exact outcome_bind_error hclass
  · have hifaces := outcome_addImplementations b' id ifaces
    rw [outcome_bind_ok hclass]
    dsimp only
    generalize b'.addImplementations id ifaces = answer at hifaces ⊢
    obtain ⟨b'', _ | _⟩ := answer
    · exact outcome_bind_error hifaces
    · exact outcome_bind_ok hifaces

theorem outcome_addField (hp : b.program.Coherent) (c : ClassId) (name : String) (isStatic : Bool) :
    outcome (addField c name isStatic) (ofProgram b.program) =
      some ((b.addField c name isStatic).2, ofProgram (b.addField c name isStatic).1.program) := by
  apply outcome_of_amends (Builder.amends_addField b c name isStatic)
  rw [addField, outcome_findClass, program_ofProgram, Builder.addField]
  cases hc : b.program.class? c with
  | none => rfl
  | some owner =>
    simp only [outcome_get, program_ofProgram, Strict.firstNamed_fields hp hc, outcome_require,
      Option.bind_some, outcome_rejectIf]
    cases b.program.declaredField? c name with
    | some f => rfl
    | none =>
      rw [Option.isSome_none, if_neg Bool.false_ne_true, outcome_edit]
      refine (outcome_bind_ok (outcome_modifyClass ?_ _)).trans rfl
      exact Builder.index_lt_of_class? hc

/-! ## §4 Methods -/

section Variables

variable {m : MethodId}

theorem outcome_newVar (hm : m.index < b.program.methods.size) (name : String) :
    outcome (newVar m name) ⟨b.program, names⟩ =
      some (.ok (b.newVar m name).2, ⟨(b.newVar m name).1.program, names⟩) := by
  rw [newVar, outcome_get, outcome_edit]
  refine (outcome_bind_ok (outcome_modifyMethod ?_ _)).trans rfl
  exact hm

theorem size_methods_newVar (name : String) :
    (b.newVar m name).1.program.methods.size = b.program.methods.size := by
  simp [Builder.newVar]

theorem outcome_newSelf (hm : m.index < b.program.methods.size) :
    outcome (newSelf m) ⟨b.program, names⟩ = some (.ok (), ⟨(b.newSelf m).program, names⟩) := by
  have hm' : m.index < (b.newVar m "this").1.program.methods.size := by
    rwa [size_methods_newVar]
  rw [newSelf, outcome_bind_ok (outcome_newVar hm "this")]
  exact outcome_modifyMethod (d := ⟨_, _⟩) hm' _

theorem outcome_newParam (hm : m.index < b.program.methods.size) (i : Nat) :
    outcome (newParam m i) ⟨b.program, names⟩ = some (.ok (), ⟨(b.newParam m i).program, names⟩) := by
  have hm' : m.index < (b.newVar m ("p" ++ toString i)).1.program.methods.size := by
    rwa [size_methods_newVar]
  rw [newParam, outcome_bind_ok (outcome_newVar hm _)]
  exact outcome_modifyMethod (d := ⟨_, _⟩) hm' _

theorem outcome_newParams (hm : m.index < b.program.methods.size) (l : List Nat) :
    outcome (l.forM (newParam m)) ⟨b.program, names⟩ =
      some (.ok (), ⟨(l.foldl (fun b i => b.newParam m i) b).program, names⟩) := by
  induction l generalizing b with
  | nil => rfl
  | cons i rest ih =>
    rw [List.forM, List.foldl_cons, outcome_bind_ok (outcome_newParam hm i)]
    exact ih (by rwa [Builder.size_methods_newParam])

end Variables

theorem outcome_newMethod (b : Builder) (c : ClassId) (subsignature : String) {isStatic isAbstract : Bool}
    (hstatic : isAbstract = true → isStatic = false) :
    outcome (newMethod c subsignature isStatic isAbstract) (ofProgram b.program) =
      some ((b.declareMethod c subsignature isStatic isAbstract).2,
        ofProgram (b.declareMethod c subsignature isStatic isAbstract).1.program) := by
  apply outcome_of_amends (Builder.amends_declareMethod b c subsignature isStatic isAbstract hstatic)
  rw [newMethod, outcome_parse, Builder.declareMethod]
  cases Subsignature.parse subsignature with
  | error e => rfl
  | ok s =>
    dsimp only
    rw [outcome_findClass, program_ofProgram]
    cases hc : b.program.class? c with
    | none => rfl
    | some owner =>
      have hclash : owner.methods.lookup s = b.program.declaredMethod? c s := by
        simp [Program.declaredMethod?, hc]
      simp only [outcome_rejectIf, hclash]
      cases b.program.declaredMethod? c s with
      | some m => rfl
      | none =>
        rw [Option.isSome_none, if_neg Bool.false_ne_true, outcome_get, outcome_edit]
        refine (outcome_bind_ok (outcome_modifyClass ?_ _)).trans ?_
        · exact Builder.index_lt_of_class? hc
        · -- the entry is in place, and what comes next is its variables
          have hentry : b.program.methods.size < (b.program.methods.push
              { owner := c, subsignature := s, isStatic, isAbstract }).size := by
            simp
          cases isStatic with
          | true => exact outcome_bind_ok (outcome_newParams (b := ⟨_⟩) hentry _)
          | false =>
            refine (outcome_bind_ok (outcome_newSelf (b := ⟨_⟩) hentry)).trans ?_
            refine outcome_bind_ok (outcome_newParams ?_ _)
            rwa [Builder.size_methods_newSelf]

theorem outcome_methodRef (c : ClassId) (subsignature : String) (d : Directory) :
    outcome (methodRef c subsignature) d = some (Builder.methodRef c subsignature, d) := by
  rw [methodRef, outcome_parse, Builder.methodRef]
  cases Subsignature.parse subsignature <;> rfl

theorem outcome_body (b : Builder) (m : MethodId) :
    outcome (body m) (ofProgram b.program) = some (b.body m, ofProgram b.program) := by
  rw [body, outcome_get, program_ofProgram, Builder.body]
  cases b.program.method? m <;> rfl

end Draft

end PointsTo
