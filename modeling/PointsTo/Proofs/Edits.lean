import Mathlib.Logic.Relation
import PointsTo.Proofs.Scope

/-!
# What calls change

Whatever a call on a builder does, it does by a few kinds of edits. Each edit adds entries at the end of
tables and, where another entry lists them, enters them there; it is made only if the declaration is a new
one. A call that is rejected edits nothing, and one that is rejected half-way has made the edits before.

The declaration of a method adds its entry, its receiver and its parameters one after the other. Taken
together this is a single edit, with the variables of the method known in advance.

- `Program.Amend`, `Program.Edit`: the kinds of edits, each with the condition under which it is made.
- `Builder.amends_declareMethod`: the declaration of a method in one go.
- `Builder.edits_perform`: every call is a sequence of edits.
- `Builder.after_edits`: what all edits preserve holds after every sequence of calls.
-/

namespace PointsTo

/-! ## §1 The variables that a method is declared with -/

/-- The names of the variables that a method is declared with: its receiver, if it has one, and its
    parameters. -/
def formalNames (isStatic : Bool) (arity : Nat) : List String :=
  (if isStatic then [] else ["this"]) ++ (List.range arity).map fun i => "p" ++ toString i

/-- Consecutive identifiers. -/
def Id.consecutive (table : Table) (first count : Nat) : List (Id table) :=
  (List.range' first count).map Id.mk

/-- The variables that a method is declared with. -/
def formalVars (m : MethodId) (isStatic : Bool) (arity : Nat) : List Var :=
  (formalNames isStatic arity).map fun name => { name, method := m }

/-- The entry of a method whose variables are the next ones in the table. -/
def Method.declared (c : ClassId) (s : Subsignature) (isStatic isAbstract : Bool) (next : Nat) :
    Method :=
  let self : Option VarId := if isStatic then none else some ⟨next⟩
  let params := Id.consecutive .vars (next + self.toList.length) s.paramCount
  { owner := c, subsignature := s, isStatic, isAbstract, self, params, vars := self.toList ++ params }

/-! ## §2 Edits -/

/-- The changes that calls make to a program without declaring a class. -/
inductive Program.Amend : Program → Program → Prop
  /-- A class lists one more interface, which is an interface indeed. -/
  | implement {p : Program} (c : ClassId) {iface : ClassId} {target : Class} :
      p.class? iface = some target → target.isInterface = true →
      Amend p { p with classes := p.classes.modify c.index fun cls =>
        { cls with interfaces := cls.interfaces ++ [iface] } }
  /-- The root class or the entry method is chosen. -/
  | choose {p : Program} (root : Option ClassId) (main : Option MethodId) :
      Amend p { p with objectClass := root, main }
  /-- A class gets a field with a name that none of its fields has. -/
  | declareField {p : Program} {c : ClassId} {owner : Class} {name : String} {isStatic : Bool} :
      p.class? c = some owner → p.declaredField? c name = none →
      Amend p { p with
        fields := p.fields.push { owner := c, name, isStatic }
        classes := p.classes.modify c.index fun cls =>
          { cls with fields := cls.fields ++ [⟨p.fields.size⟩] } }
  /-- A class gets a method with a subsignature that none of its methods has. An abstract method has a
      receiver. -/
  | declareMethod {p : Program} {c : ClassId} {owner : Class} {s : Subsignature}
      {isStatic isAbstract : Bool} :
      p.class? c = some owner → p.declaredMethod? c s = none → (isAbstract = true → isStatic = false) →
      Amend p { p with
        methods := p.methods.push (.declared c s isStatic isAbstract p.vars.size)
        vars := p.vars ++ (formalVars ⟨p.methods.size⟩ isStatic s.paramCount).toArray
        classes := p.classes.modify c.index fun cls =>
          { cls with methods := cls.methods ++ [(s, ⟨p.methods.size⟩)] } }
  /-- A method gets a variable with a name that none of its variables has. -/
  | declareVar {p : Program} {m : MethodId} {method : Method} {name : String} :
      p.method? m = some method → p.varByName? method name = none →
      Amend p { p with
        vars := p.vars.push { name, method := m }
        methods := p.methods.modify m.index fun method =>
          { method with vars := method.vars ++ [⟨p.vars.size⟩] } }
  /-- A method gets a statement, whatever its operands are. -/
  | appendStmt {p : Program} (m : MethodId) (stmt : Stmt) :
      Amend p { p with methods := p.methods.modify m.index fun method =>
        { method with body := method.body ++ [stmt] } }

/-- Any number of amendments, one after the other. -/
abbrev Program.Amends : Program → Program → Prop := Relation.ReflTransGen Program.Amend

/-- The changes that calls make to a program. -/
inductive Program.Edit : Program → Program → Prop
  /-- A class with a new name is declared; an interface extends no class. -/
  | declareClass {p : Program} {name : String} {kind : ClassKind} {superclass : Option ClassId}
      (root : Option ClassId) :
      p.classByName? name = none → (kind = .interface → superclass = none) →
      Edit p { p with classes := p.classes.push { name, kind, superclass }, objectClass := root }
  | amend {p q : Program} : p.Amend q → Edit p q

/-- Any number of edits, one after the other. -/
abbrev Program.Edits : Program → Program → Prop := Relation.ReflTransGen Program.Edit

theorem Program.Amends.edits {p q : Program} (h : p.Amends q) : p.Edits q :=
  Relation.ReflTransGen.mono (fun _ _ => Edit.amend) _ _ h

namespace Builder

open Program (Amend Amends Edit Edits)

variable {b : Builder}

/-! ## §3 The declaration of a method in one go -/

/-- A builder in the course of declaring a method: the entry of the method comes last, and so do its
    variables. -/
def declaring (p : Program) (entry : Method) (vars : List Var) : Builder :=
  ⟨{ p with methods := p.methods.push entry, vars := p.vars ++ vars.toArray }⟩

theorem newSelf_declaring (p : Program) (entry : Method) (vars : List Var) :
    (declaring p entry vars).newSelf ⟨p.methods.size⟩ =
      declaring p
        { entry with
          self := some ⟨p.vars.size + vars.length⟩
          vars := entry.vars ++ [⟨p.vars.size + vars.length⟩] }
        (vars ++ [{ name := "this", method := ⟨p.methods.size⟩ }]) := by
  simp [declaring, newSelf, newVar, modify_push_last]

theorem newParam_declaring (p : Program) (entry : Method) (vars : List Var) (i : Nat) :
    (declaring p entry vars).newParam ⟨p.methods.size⟩ i =
      declaring p
        { entry with
          params := entry.params ++ [⟨p.vars.size + vars.length⟩]
          vars := entry.vars ++ [⟨p.vars.size + vars.length⟩] }
        (vars ++ [{ name := "p" ++ toString i, method := ⟨p.methods.size⟩ }]) := by
  simp [declaring, newParam, newVar, modify_push_last]

/-- The parameters get consecutive identifiers. -/
theorem newParams_declaring (p : Program) (entry : Method) (vars : List Var) (n : Nat) :
    (List.range n).foldl (fun b i => b.newParam ⟨p.methods.size⟩ i) (declaring p entry vars) =
      declaring p
        { entry with
          params := entry.params ++ Id.consecutive .vars (p.vars.size + vars.length) n
          vars := entry.vars ++ Id.consecutive .vars (p.vars.size + vars.length) n }
        (vars ++ (List.range n).map fun i =>
          { name := "p" ++ toString i, method := ⟨p.methods.size⟩ }) := by
  induction n with
  | zero => simp [Id.consecutive]
  | succ n ih =>
    rw [List.range_succ, List.foldl_append, ih]
    simp [newParam_declaring, Id.consecutive, List.range'_concat, Nat.add_assoc]

/-- The receiver, if there is one, and the parameters make the entry complete. -/
theorem newFormals_declaring (p : Program) (c : ClassId) (s : Subsignature)
    (isStatic isAbstract : Bool) :
    (List.range s.paramCount).foldl (fun b i => b.newParam ⟨p.methods.size⟩ i)
        (if isStatic then declaring p { owner := c, subsignature := s, isStatic, isAbstract } []
          else (declaring p { owner := c, subsignature := s, isStatic, isAbstract } []).newSelf
            ⟨p.methods.size⟩) =
      declaring p (.declared c s isStatic isAbstract p.vars.size)
        (formalVars ⟨p.methods.size⟩ isStatic s.paramCount) := by
  cases isStatic with
  | true =>
    rw [if_pos rfl, newParams_declaring]
    simp [Method.declared, formalVars, formalNames, Function.comp_def]
  | false =>
    rw [if_neg Bool.false_ne_true, newSelf_declaring, newParams_declaring]
    simp [Method.declared, formalVars, formalNames, Function.comp_def]

/-- The declaration of a method is a single amendment. -/
theorem amends_declareMethod (b : Builder) (c : ClassId) (subsignature : String)
    (isStatic isAbstract : Bool) (habstract : isAbstract = true → isStatic = false) :
    Amends b.program (b.declareMethod c subsignature isStatic isAbstract).1.program := by
  unfold declareMethod
  split
  · exact .refl
  · rename_i s _
    split
    · exact .refl
    · rename_i owner howner
      split
      · exact .refl
      · rename_i hfresh
        -- the class lists the method before the method has its variables
        let listing : Program := { b.program with
          classes := b.program.classes.modify c.index fun cls =>
            { cls with methods := cls.methods ++ [(s, ⟨b.program.methods.size⟩)] } }
        have hformals := newFormals_declaring listing c s isStatic isAbstract
        simp only [declaring, listing, Array.append_empty] at hformals
        refine .single ?_
        dsimp only
        rw [hformals]
        exact Amend.declareMethod howner hfresh habstract

/-! ## §4 The other calls -/

theorem edits_declareClass (b : Builder) (name : String) (kind : ClassKind)
    (superclass : Option ClassId) (hroot : kind = .interface → superclass = none) :
    Edits b.program (b.declareClass name kind superclass).1.program := by
  unfold declareClass
  split
  · exact .refl
  · rename_i hfresh
    exact .single (Edit.declareClass _ hfresh hroot)

theorem amends_addImplementation (b : Builder) (c iface : ClassId) :
    Amends b.program (b.addImplementation c iface).1.program := by
  unfold addImplementation
  split
  · exact .refl
  · split
    · exact .refl
    · rename_i target htarget
      split
      · rename_i hinterface
        exact .single (Amend.implement c htarget hinterface)
      · exact .refl

/-- The interfaces before the first one that is rejected are listed. -/
theorem amends_addImplementations (b : Builder) (c : ClassId) (ifaces : List ClassId) :
    Amends b.program (b.addImplementations c ifaces).1.program := by
  induction ifaces generalizing b with
  | nil => exact .refl
  | cons iface rest ih =>
    have hfirst := amends_addImplementation b c iface
    unfold addImplementations
    split
    · rename_i b' heq
      rw [heq] at hfirst
      exact hfirst.trans (ih b')
    · rename_i b' e heq
      rw [heq] at hfirst
      exact hfirst

theorem edits_addInterface (b : Builder) (name : String) (superinterfaces : List ClassId) :
    Edits b.program (b.addInterface name superinterfaces).1.program := by
  have hclass := edits_declareClass b name .interface none fun _ => rfl
  unfold addInterface
  split <;> rename_i b' answer heq <;> rw [heq] at hclass
  · exact hclass
  · have hlisted := (amends_addImplementations b' answer superinterfaces).edits
    split <;> rename_i heq' <;> rw [heq'] at hlisted <;> exact hclass.trans hlisted

theorem amends_addField (b : Builder) (c : ClassId) (name : String) (isStatic : Bool) :
    Amends b.program (b.addField c name isStatic).1.program := by
  unfold addField
  split
  · exact .refl
  · rename_i owner howner
    split
    · exact .refl
    · rename_i hfresh
      exact .single (Amend.declareField howner hfresh)

theorem amends_localVar (b : Builder) (m : MethodId) (name : String) :
    Amends b.program (b.localVar m name).1.program := by
  unfold localVar body
  split
  · exact .refl
  · rename_i method hbody
    split
    · exact .refl
    · rename_i hfresh
      split at hbody
      · simp at hbody
      · rename_i hmethod
        cases hbody
        exact .single (Amend.declareVar hmethod hfresh)

theorem amends_append (b : Builder) (m : MethodId) (stmt : Stmt) :
    Amends b.program (b.append m stmt).1.program := by
  unfold append
  split
  · exact .refl
  · exact .single (Amend.appendStmt m stmt)

/-- Every call is a sequence of edits, whether it is rejected or not. -/
theorem edits_perform (b : Builder) (call : Call) : Edits b.program (b.perform call).program := by
  cases call with
  | addClass name superclass => exact edits_declareClass b name _ superclass nofun
  | addAbstractClass name superclass => exact edits_declareClass b name _ superclass nofun
  | addInterface name superinterfaces => exact edits_addInterface b name superinterfaces
  | addImplementation c iface => exact (amends_addImplementation b c iface).edits
  | setObjectClass c => exact .single (.amend (.choose _ _))
  | addField c name isStatic => exact (amends_addField b c name isStatic).edits
  | addMethod c subsignature isStatic =>
    exact (amends_declareMethod b c subsignature isStatic false nofun).edits
  | addAbstractMethod c subsignature =>
    exact (amends_declareMethod b c subsignature false true fun _ => rfl).edits
  | setMain m => exact .single (.amend (.choose _ _))
  | localVar m name => exact (amends_localVar b m name).edits
  | append m stmt => exact (amends_append b m stmt).edits

/-- What the empty program has and every edit keeps, holds after every sequence of calls. -/
theorem after_edits {P : Program → Prop} (hempty : P {})
    (hedit : ∀ {p q : Program}, p.Edit q → P p → P q) (calls : List Call) :
    P (after calls).program := by
  have hedits : ∀ {p q : Program}, p.Edits q → P p → P q := by
    intro p q hpq hp
    induction hpq with
    | refl => exact hp
    | tail _ hlast ih => exact hedit hlast ih
  exact after_induction (P := fun b => P b.program) hempty
    (fun b call => hedits (edits_perform b call)) calls

end Builder

end PointsTo
