import PointsTo.Analysis.Result
import PointsTo.Proofs.WellFormed

/-!
# Outlines

The outline of a program is what is left of it without its statements: classes, fields, the declarations
of methods and variables, the entry method and the root class. What indexing computes from the
statements is not part of it either.

Everything that the analysis asks about the class hierarchy, and every name that it puts into a message,
depends on the outline alone. So programs with the same outline give the same answers.

- `Program.outline`: the program without statements.
- `Program.unindexed`: the program with its statements, but without what indexing computes from them.
- `Program.eq_of_outline`: what depends on the outline alone agrees on programs with the same outline.
- `Program.callee?_outline`, `Event.message_outline`: calls and messages depend on the outline alone.
-/

namespace PointsTo

/-! ## §1 Outlines -/

/-- A method without its statements. -/
def Method.outline (method : Method) : Method := { method with returnVars := [], body := [] }

/-- A variable without the statements that go through it. -/
def Var.outline (var : Var) : Var := { var with accesses := {} }

namespace Program

/-- The program without its statements. -/
def outline (p : Program) : Program :=
  { p with methods := p.methods.map Method.outline, vars := p.vars.map Var.outline }

/-- What depends on the outline alone agrees on programs with the same outline. -/
theorem eq_of_outline {α : Type} {f : Program → α} (hf : ∀ p, f p.outline = f p) {p q : Program}
    (h : p.outline = q.outline) : f p = f q := by
  rw [← hf p, h, hf q]

variable {p q : Program}

@[simp]
theorem method?_outline (m : MethodId) : p.outline.method? m = (p.method? m).map Method.outline := by
  simp [outline, method?]

@[simp]
theorem var?_outline (v : VarId) : p.outline.var? v = (p.var? v).map Var.outline := by
  simp [outline, var?]

theorem main_eq_of_outline (h : p.outline = q.outline) : p.main = q.main :=
  eq_of_outline (f := Program.main) (fun _ => rfl) h

/-- Programs with the same outline have the same methods, up to their statements. -/
theorem exists_method_of_outline (h : p.outline = q.outline) {m : MethodId} {method : Method}
    (hm : p.method? m = some method) :
    ∃ method', q.method? m = some method' ∧ method'.outline = method.outline := by
  have hsame : (p.method? m).map Method.outline = (q.method? m).map Method.outline := by
    rw [← method?_outline, h, method?_outline]
  rw [hm] at hsame
  exact Option.map_eq_some_iff.1 hsame.symm

/-- Programs with the same outline have the same variables, up to their accesses. -/
theorem exists_var_of_outline (h : p.outline = q.outline) {v : VarId} {var : Var}
    (hv : p.var? v = some var) : ∃ var', q.var? v = some var' ∧ var'.outline = var.outline := by
  have hsame : (p.var? v).map Var.outline = (q.var? v).map Var.outline := by
    rw [← var?_outline, h, var?_outline]
  rw [hv] at hsame
  exact Option.map_eq_some_iff.1 hsame.symm

theorem owns_of_outline (h : p.outline = q.outline) {m : MethodId} {v : VarId} (howns : p.Owns m v) :
    q.Owns m v := by
  obtain ⟨var, hv, hm⟩ := howns
  obtain ⟨var', hv', hsame⟩ := exists_var_of_outline h hv
  have hmethod : var'.outline.method = var.outline.method := congrArg Var.method hsame
  exact ⟨var', hv', hmethod.trans hm⟩

theorem size_methods_eq_of_outline (h : p.outline = q.outline) : p.methods.size = q.methods.size :=
  eq_of_outline (f := fun p => p.methods.size) (fun p => by simp [outline]) h

/-! ## §2 Indexing and appended statements -/

/-- A change of one entry that `g` does not see. -/
theorem map_modify_of_unseen {α β : Type} {f : α → α} {g : α → β} (h : ∀ a, g (f a) = g a)
    (xs : Array α) (i : Nat) : (xs.modify i f).map g = xs.map g := by
  apply Array.ext_getElem?
  intro j
  rw [Array.getElem?_map, Array.getElem?_map, Array.getElem?_modify]
  split
  · rw [Option.map_map]
    exact congrArg (Option.map · xs[j]?) (funext h)
  · rfl

/-- The program without its access indexes and returned variables. -/
def unindexed (p : Program) : Program :=
  { p with
    methods := p.methods.map fun method => { method with returnVars := [] }
    vars := p.vars.map Var.outline }

theorem outline_unindexed (p : Program) : p.unindexed.outline = p.outline := by
  simp [unindexed, outline, Function.comp_def, Method.outline, Var.outline]

theorem map_outline_indexStmts (l : List (Location × Stmt)) (vars : Array Var) :
    (l.foldl (fun vars (loc, stmt) => indexStmt vars loc stmt) vars).map Var.outline =
      vars.map Var.outline := by
  induction l generalizing vars with
  | nil => rfl
  | cons entry rest ih =>
    obtain ⟨loc, stmt⟩ := entry
    rw [List.foldl_cons, ih]
    simp only [indexStmt]
    split
    · rfl
    · apply map_modify_of_unseen
      intro var
      rfl

/-- Indexing changes nothing but what it computes. -/
theorem unindexed_indexed (p : Program) : p.indexed.unindexed = p.unindexed := by
  simp [unindexed, indexed, map_outline_indexStmts, Function.comp_def]

theorem outline_indexed (p : Program) : p.indexed.outline = p.outline := by
  rw [← outline_unindexed, unindexed_indexed, outline_unindexed]

end Program

/-- Appending a statement does not change the outline. -/
theorem Builder.outline_append (b : Builder) (m : MethodId) (stmt : Stmt) :
    (b.append m stmt).1.program.outline = b.program.outline := by
  unfold Builder.append
  split
  · rfl
  · have hmethods : ∀ method : Method,
        ({ method with body := method.body ++ [stmt] } : Method).outline = method.outline :=
      fun _ => rfl
    simp only [Program.outline, Program.mk.injEq, true_and, and_true]
    exact Program.map_modify_of_unseen hmethods _ _

namespace Program

variable {p q : Program}

/-! ## §3 The class hierarchy -/

@[simp]
theorem ancestry_outline (n : Nat) (c : ClassId) : p.outline.ancestry n c = p.ancestry n c := by
  induction n generalizing c with
  | zero => rfl
  | succ n ih =>
    have hsuper : p.outline.superclassOf c = p.superclassOf c := rfl
    simp only [ancestry, hsuper, ih]

@[simp]
theorem superclasses_outline (c : ClassId) : p.outline.superclasses c = p.superclasses c :=
  ancestry_outline _ c

@[simp]
theorem superinterfaces_outline (c : ClassId) :
    p.outline.superinterfaces c = p.superinterfaces c := by
  have hinterfaces : p.outline.interfacesOf = p.interfacesOf := rfl
  have hsize : p.outline.classes.size = p.classes.size := rfl
  simp only [superinterfaces, superclasses_outline, hinterfaces, hsize]

@[simp]
theorem visibleMethods_outline (c : ClassId) (s : Subsignature) :
    p.outline.visibleMethods c s = p.visibleMethods c s := by
  have hdeclared : p.outline.declaredMethod? = p.declaredMethod? := rfl
  simp only [visibleMethods, superclasses_outline, superinterfaces_outline, hdeclared]

@[simp]
theorem isConcrete_outline (m : MethodId) : p.outline.isConcrete m = p.isConcrete m := by
  simp only [isConcrete, method?_outline]
  cases p.method? m <;> rfl

@[simp]
theorem dispatch_outline (c : ClassId) (s : Subsignature) :
    p.outline.dispatch c s = p.dispatch c s := by
  have hconcrete : p.outline.isConcrete = p.isConcrete := funext isConcrete_outline
  simp only [dispatch, visibleMethods_outline, hconcrete]

@[simp]
theorem dispatchOnType_outline (ty : Ty) (s : Subsignature) :
    p.outline.dispatchOnType ty s = p.dispatchOnType ty s := by
  have hroot : p.outline.objectClass = p.objectClass := rfl
  cases ty <;> simp [dispatchOnType, hroot]

@[simp]
theorem resolve_outline (ref : MethodRef) : p.outline.resolve ref = p.resolve ref := by
  simp [resolve]

@[simp]
theorem callee?_outline (call : Invoke) (receiver : Option Ty) :
    p.outline.callee? call receiver = p.callee? call receiver := by
  cases hkind : call.kind <;> simp [callee?, hkind]

theorem callee?_eq_of_outline (h : p.outline = q.outline) (call : Invoke) (receiver : Option Ty) :
    p.callee? call receiver = q.callee? call receiver :=
  eq_of_outline (f := fun p => p.callee? call receiver) (fun _ => callee?_outline call receiver) h

theorem resolve_eq_of_outline (h : p.outline = q.outline) (ref : MethodRef) :
    p.resolve ref = q.resolve ref :=
  eq_of_outline (f := fun p => p.resolve ref) (fun _ => resolve_outline ref) h

/-! ## §4 Names -/

@[simp]
theorem methodName?_outline (m : MethodId) : p.outline.methodName? m = p.methodName? m := by
  simp only [methodName?, method?_outline]
  cases p.method? m <;> rfl

@[simp]
theorem methodName_outline (m : MethodId) : p.outline.methodName m = p.methodName m := by
  simp [methodName]

@[simp]
theorem typeName?_outline (ty : Ty) : p.outline.typeName? ty = p.typeName? ty := by
  induction ty with
  | ofClass c => rfl
  | array elem ih => simp [typeName?, ih]

@[simp]
theorem varName?_outline (v : VarId) : p.outline.varName? v = p.varName? v := by
  simp only [varName?, var?_outline, methodName?_outline]
  cases p.var? v <;> rfl

end Program

/-! ## §5 Messages -/

section Messages

variable {p : Program}

@[simp]
theorem Obj.describe_outline (obj : Obj) : obj.describe p.outline = obj.describe p := by
  simp [describe, Program.typeName]

@[simp]
theorem Pointer.describe_outline (pointer : Pointer) :
    pointer.describe p.outline = pointer.describe p := by
  cases pointer with
  | var v => simp [describe, describe?]
  | _ => rfl

@[simp]
theorem CallGraph.dot_outline (g : CallGraph) : g.dot p.outline = g.dot p := by
  simp [dot, nodeLine]

@[simp]
theorem Event.describeObj_outline (heap : Heap) (o : ObjId) :
    describeObj p.outline heap o = describeObj p heap o := by
  unfold describeObj
  split <;> simp

/-- The wording of an event depends on the outline alone. -/
theorem Event.message_outline (heap : Heap) (e : Event) :
    e.message p.outline heap = e.message p heap := by
  -- all events at once: the programs occur in the wording only through names and descriptions
  unfold message
  simp only [Program.methodName_outline, describeObj_outline, Pointer.describe_outline,
    CallGraph.dot_outline]

end Messages

/-- The log lines of a run are worded alike by programs with the same outline. -/
theorem Run.lines_eq_of_outline {p q : Program} (h : p.outline = q.outline) (run : Run)
    (detail : Severity) : run.lines p detail = run.lines q detail := by
  apply Program.eq_of_outline (f := fun p => run.lines p detail) ?_ h
  intro p
  simp [Run.lines, Event.line, Event.message_outline]

end PointsTo
