import PointsTo.Proofs.Scope
import PointsTo.Proofs.Supertypes

/-!
# Valid programs

What it means for a program to be valid, without reference to the order in which validation looks for
faults: the root class, the superclasses and the entry method have entries, no class is its own ancestor,
abstract methods have no statements, and every statement makes sense in its method.

Validation finds no fault exactly in the valid programs, provided that the program comes out of a
builder: then the interfaces of classes and the methods that classes declare have entries anyway.

- `Program.Valid`: the definition.
- `Program.stmtFault?_eq_none_iff`, `Program.fault?_eq_none_iff`: validation decides it.
-/

namespace PointsTo

namespace Program

/-! ## §1 The definition -/

/-- A call starts its search at a class with an entry, has a receiver exactly if it is not static, and
    fits the declaration that it refers to, if there is one. -/
structure CallValid (p : Program) (call : Invoke) : Prop where
  start : call.target.start.index < p.classes.size
  receiver : call.receiver.isSome = true ↔ call.kind ≠ .static
  target : ∀ m, p.resolve call.target = some m → ∃ method, p.method? m = some method ∧
    (method.isStatic = true ↔ call.kind = .static) ∧ method.params.length = call.args.length

/-- The classes, fields and calls of a statement make sense. -/
def FormValid (p : Program) : Stmt → Prop
  | .new _ ty => ty.baseClass.index < p.classes.size
  | .cast _ _ ty => ty.baseClass.index < p.classes.size
  | .loadField _ base f => ∃ field, p.field? f = some field ∧ (field.isStatic = true ↔ base = none)
  | .storeField base f _ => ∃ field, p.field? f = some field ∧ (field.isStatic = true ↔ base = none)
  | .invoke call => p.CallValid call
  | _ => True

/-- A program that can be analysed. -/
structure Valid (p : Program) : Prop where
  objectClass : ∀ c, p.objectClass = some c → c.index < p.classes.size
  superclasses : ∀ cls ∈ p.classes, ∀ parent, cls.superclass = some parent →
    parent.index < p.classes.size
  /-- No superclass chain comes back to a class. -/
  acyclic : ∀ c, ¬ Relation.TransGen p.Inherits c c
  main : ∀ m, p.main = some m → ∃ method, p.method? m = some method ∧ method.isStatic = true
  abstracts : ∀ method ∈ p.methods, method.isAbstract = true → method.body = []
  /-- The variables of a statement have entries and belong to the method of the statement. -/
  vars : ∀ loc stmt, p.stmt? loc = some stmt → ∀ v ∈ stmt.vars, p.Owns loc.method v
  forms : ∀ loc stmt, p.stmt? loc = some stmt → p.FormValid stmt

theorem Valid.soundHierarchy {p : Program} (h : p.Valid) (hs : p.Scoped) : p.SoundHierarchy :=
  ⟨h.superclasses, hs.interfaces, h.acyclic⟩

/-! ## §2 Statements -/

variable {p : Program}

theorem class?_isSome_iff (c : ClassId) : (∃ cls, p.class? c = some cls) ↔ c.index < p.classes.size :=
  ⟨fun ⟨_, h⟩ => (Array.getElem?_eq_some_iff.1 h).1, fun h => ⟨_, Array.getElem?_eq_getElem h⟩⟩

theorem varFault?_eq_none_iff {m : MethodId} {v : VarId} : p.varFault? m v = none ↔ p.Owns m v := by
  unfold varFault? Owns
  cases hv : p.var? v with
  | none => simp
  | some var => simp

theorem typeFault?_eq_none_iff {ty : Ty} :
    p.typeFault? ty = none ↔ ty.baseClass.index < p.classes.size := by
  rw [← class?_isSome_iff]
  unfold typeFault?
  cases hc : p.class? ty.baseClass <;> simp

theorem fieldFault?_eq_none_iff {base : Option VarId} {f : FieldId} :
    p.fieldFault? base f = none ↔
      ∃ field, p.field? f = some field ∧ (field.isStatic = true ↔ base = none) := by
  unfold fieldFault?
  cases hf : p.field? f with
  | none => simp
  | some field => cases base <;> cases hstatic : field.isStatic <;> simp [hstatic]

theorem kind_isStatic_iff (kind : CallKind) : kind.isStatic = true ↔ kind = .static := by
  cases kind <;> simp [CallKind.isStatic]

theorem receiverFault?_eq_none_iff (call : Invoke) :
    receiverFault? call = none ↔ (call.receiver.isSome = true ↔ call.kind ≠ .static) := by
  have hstatic := kind_isStatic_iff call.kind
  unfold receiverFault?
  cases hk : call.kind.isStatic <;> cases hr : call.receiver <;> simp_all

/-- The declaration that a call refers to has an entry, because a class lists it. -/
theorem targetFault?_eq_none_iff
    (hdeclared : ∀ {c s m}, p.declaredMethod? c s = some m → m.index < p.methods.size)
    (call : Invoke) :
    p.targetFault? call = none ↔ ∀ m, p.resolve call.target = some m →
      ∃ method, p.method? m = some method ∧ (method.isStatic = true ↔ call.kind = .static) ∧
        method.params.length = call.args.length := by
  unfold targetFault?
  cases hresolve : p.resolve call.target with
  | none => simp
  | some m =>
    obtain ⟨c, hc⟩ := mem_visibleMethods (List.mem_of_head? hresolve)
    obtain ⟨method, hmethod⟩ : ∃ method, p.method? m = some method :=
      ⟨_, Array.getElem?_eq_getElem (hdeclared hc)⟩
    have hstatic := kind_isStatic_iff call.kind
    simp only [hmethod, Option.bind_some, Option.some.injEq, forall_eq', exists_eq_left', ← hstatic]
    cases hs : method.isStatic <;> cases hk : call.kind.isStatic <;> simp

theorem invokeFault?_eq_none_iff
    (hdeclared : ∀ {c s m}, p.declaredMethod? c s = some m → m.index < p.methods.size)
    {call : Invoke} : p.invokeFault? call = none ↔ p.CallValid call := by
  have hreceiver := receiverFault?_eq_none_iff call
  have htarget := targetFault?_eq_none_iff hdeclared call
  have hstart := class?_isSome_iff (p := p) call.target.start
  unfold invokeFault?
  cases hc : p.class? call.target.start with
  | none =>
    simp only [hc, reduceCtorEq, exists_false, false_iff] at hstart
    exact ⟨fun h => absurd h (Option.some_ne_none _), fun h => absurd h.start hstart⟩
  | some cls =>
    rw [Option.or_eq_none_iff, hreceiver, htarget]
    exact ⟨fun h => ⟨hstart.1 ⟨cls, hc⟩, h.1, h.2⟩, fun h => ⟨h.receiver, h.target⟩⟩

theorem stmtFault?_eq_none_iff
    (hdeclared : ∀ {c s m}, p.declaredMethod? c s = some m → m.index < p.methods.size)
    {m : MethodId} {stmt : Stmt} :
    p.stmtFault? m stmt = none ↔ (∀ v ∈ stmt.vars, p.Owns m v) ∧ p.FormValid stmt := by
  unfold stmtFault?
  rw [Option.or_eq_none_iff, List.findSome?_eq_none_iff]
  simp only [varFault?_eq_none_iff]
  apply and_congr_right
  intro _
  cases stmt with
  | new lhs ty => exact typeFault?_eq_none_iff
  | cast lhs rhs ty => exact typeFault?_eq_none_iff
  | loadField lhs base f => exact fieldFault?_eq_none_iff
  | storeField base f rhs => exact fieldFault?_eq_none_iff
  | invoke call => exact invokeFault?_eq_none_iff hdeclared
  | _ => simp [FormValid]

/-! ## §3 Methods and classes -/

theorem methodFault?_eq_none_iff {m : MethodId} {method : Method} :
    p.methodFault? m method = none ↔ (method.isAbstract = true → method.body = []) ∧
      ∀ stmt ∈ method.body, p.stmtFault? m stmt = none := by
  unfold methodFault?
  by_cases hbody : method.body = []
  · simp [hbody]
  · cases habstract : method.isAbstract with
    | true => simp [hbody]
    | false =>
      -- the position of a statement does not matter for its faults
      have hzip : (∀ x ∈ method.body.zipIdx, p.stmtFault? m x.1 = none) ↔
          ∀ stmt ∈ method.body, p.stmtFault? m stmt = none := by
        rw [← List.forall_mem_map (f := Prod.fst) (P := fun stmt => p.stmtFault? m stmt = none),
          List.zipIdx_map_fst]
      simpa [List.findSome?_eq_none_iff] using hzip

/-- The methods of a program have no faults if their abstract ones are empty and their statements have
    none. -/
theorem methodsFault?_eq_none_iff :
    p.methodIds.findSome? p.namedMethodFault? = none ↔
      (∀ method ∈ p.methods, method.isAbstract = true → method.body = []) ∧
        ∀ loc stmt, p.stmt? loc = some stmt → p.stmtFault? loc.method stmt = none := by
  have hmethod : ∀ m ∈ p.methodIds, p.namedMethodFault? m = none ↔
      ∀ method, p.method? m = some method → p.methodFault? m method = none := by
    intro m _
    unfold namedMethodFault?
    cases hm : p.method? m <;> simp
  rw [List.findSome?_eq_none_iff, forall₂_congr hmethod]
  simp only [methodIds, Id.mem_below, methodFault?_eq_none_iff]
  constructor
  · intro h
    constructor
    · intro method hmem
      obtain ⟨i, hi, rfl⟩ := Array.mem_iff_getElem.1 hmem
      exact (h ⟨i⟩ hi _ (Array.getElem?_eq_getElem hi)).1
    · intro loc stmt hstmt
      obtain ⟨method, hm, hbody⟩ := stmt?_eq_some_iff.1 hstmt
      have hlt := (Array.getElem?_eq_some_iff.1 hm).1
      exact (h loc.method hlt method hm).2 stmt (List.mem_of_getElem? hbody)
  · rintro ⟨habstract, hstmts⟩ m _ method hm
    refine ⟨habstract method (Array.mem_of_getElem? hm), fun stmt hmem => ?_⟩
    obtain ⟨i, hi⟩ := List.mem_iff_getElem?.1 hmem
    exact hstmts ⟨m, i⟩ stmt (stmt?_eq_some_iff.2 ⟨method, hm, hi⟩)

theorem objectClassFault?_eq_none_iff :
    p.objectClassFault? = none ↔ ∀ c, p.objectClass = some c → c.index < p.classes.size := by
  unfold objectClassFault?
  cases hobject : p.objectClass with
  | none => simp
  | some root =>
    have hroot := class?_isSome_iff (p := p) root
    cases hc : p.class? root <;> simp_all

theorem supertypeFault?_eq_none_iff {cls : Class} :
    p.supertypeFault? cls = none ↔
      (∀ parent, cls.superclass = some parent → parent.index < p.classes.size) ∧
        ∀ iface ∈ cls.interfaces, iface.index < p.classes.size := by
  have hall : p.supertypeFault? cls = none ↔
      ∀ parent ∈ cls.superclass.toList ++ cls.interfaces, parent.index < p.classes.size := by
    unfold supertypeFault?
    rw [List.findSome?_eq_none_iff]
    refine forall₂_congr fun parent _ => ?_
    rw [← class?_isSome_iff]
    cases p.class? parent <;> simp
  rw [hall, List.forall_mem_append]
  simp

theorem chainFault?_eq_none_iff {c : ClassId} (hc : c.index < p.classes.size) :
    p.chainFault? c = none ↔
      (p.ancestry (p.classes.size + 1) c).length ≤ p.classes.size := by
  obtain ⟨cls, hcls⟩ := (class?_isSome_iff c).2 hc
  unfold chainFault?
  simp [hcls]

theorem mainFault?_eq_none_iff :
    p.mainFault? = none ↔
      ∀ m, p.main = some m → ∃ method, p.method? m = some method ∧ method.isStatic = true := by
  unfold mainFault?
  cases hmain : p.main with
  | none => simp
  | some m => cases hm : p.method? m <;> simp [hm]

/-! ## §4 Programs -/

theorem declaredExists_of_declared (hd : p.Declared) {c : ClassId} {s : Subsignature} {m : MethodId}
    (h : p.declaredMethod? c s = some m) : m.index < p.methods.size := by
  obtain ⟨cls, hc, hs⟩ := Option.bind_eq_some_iff.1 h
  obtain ⟨before, rest, hsplit, _⟩ := List.lookup_eq_some_iff.1 hs
  exact hd.methodsExist hc (hsplit ▸ List.mem_append_right before List.mem_cons_self)

/-- **Validation is exact**: it finds no fault exactly in the valid programs. -/
theorem fault?_eq_none_iff (hd : p.Declared) (hs : p.Scoped) : p.fault? = none ↔ p.Valid := by
  have hstmt : ∀ {m stmt}, p.stmtFault? m stmt = none ↔ _ :=
    stmtFault?_eq_none_iff (declaredExists_of_declared hd)
  have hchains : (∀ c ∈ p.classIds, p.chainFault? c = none) ↔
      ∀ c, c.index < p.classes.size →
        (p.ancestry (p.classes.size + 1) c).length ≤ p.classes.size := by
    simp only [classIds, Id.mem_below]
    exact forall₂_congr fun c hc => chainFault?_eq_none_iff hc
  simp only [fault?, Option.or_eq_none_iff, List.findSome?_eq_none_iff (l := p.classes.toList),
    List.findSome?_eq_none_iff (l := p.classIds), methodsFault?_eq_none_iff, hchains,
    objectClassFault?_eq_none_iff, supertypeFault?_eq_none_iff, mainFault?_eq_none_iff,
    Array.mem_toList_iff, hstmt]
  constructor
  · rintro ⟨hobject, hsupertypes, hshort, hmain, habstract, hstmts⟩
    have hlinks := fun cls hcls => (hsupertypes cls hcls).1
    exact ⟨hobject, hlinks, (length_ancestry_le_iff hlinks).1 hshort, hmain, habstract,
      fun loc stmt h => (hstmts loc stmt h).1, fun loc stmt h => (hstmts loc stmt h).2⟩
  · intro h
    -- interfaces are not part of validity: those that a builder has let in have entries
    exact ⟨h.objectClass, fun cls hcls => ⟨h.superclasses cls hcls, hs.interfaces cls hcls⟩,
      (length_ancestry_le_iff h.superclasses).2 h.acyclic, h.main, h.abstracts,
      fun loc stmt hs => ⟨h.vars loc stmt hs, h.forms loc stmt hs⟩⟩

end Program

end PointsTo
