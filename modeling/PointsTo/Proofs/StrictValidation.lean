import PointsTo.Proofs.Operations
import PointsTo.Proofs.Outline
import PointsTo.Proofs.Validity

/-!
# Strict validation

Validation answers in any case: an identifier without an entry gives a fault, or a printed identifier in
place of a name. Here validation is written down so that it has no answer when it looks up a missing
entry that it has not checked before, or when a walk along supertypes does not end. This is possible
because its phases depend on each other: chains of superclasses are followed only after all superclasses
were found to have entries, and calls are resolved only after all chains were found to end.

Strict validation has an answer for every builder, and it is the answer of validation. Together with the
characterisation of the valid programs this describes completely what building does.

- `Strict.fault`, `Strict.indexed`, `Strict.build`: strict validation, indexing and building.
- `Strict.fault_eq`, `Strict.indexed_eq`: their answers.
- `Builder.build_exact`: which builders give a program, and which program.
-/

namespace PointsTo

namespace Strict

open Program

/-! ## §1 Checks -/

/-- The first fault that a check finds in a list. What comes after it is not examined. -/
def firstFault {α β : Type} (check : α → Option (Option β)) : List α → Option (Option β)
  | [] => return none
  | a :: rest => do
    match ← check a with
    | some fault => return some fault
    | none => firstFault check rest

/-- The fault of the first check or, only if it finds none, of the second. -/
def orThen {β : Type} (first second : Option (Option β)) : Option (Option β) := do
  match ← first with
  | some fault => return some fault
  | none => second

theorem firstFault_eq {α β : Type} {check : α → Option (Option β)} {find : α → Option β} {l : List α}
    (h : ∀ a ∈ l, check a = some (find a)) : firstFault check l = some (l.findSome? find) := by
  induction l with
  | nil => rfl
  | cons a rest ih =>
    have hrest := ih fun b hb => h b (List.mem_cons_of_mem a hb)
    rw [firstFault, h a List.mem_cons_self, List.findSome?_cons]
    cases hfind : find a with
    | none => exact hrest
    | some fault => rfl

theorem orThen_eq {β : Type} {first second : Option (Option β)} {a b : Option β}
    (hfirst : first = some a) (hsecond : a = none → second = some b) :
    orThen first second = some (a.or b) := by
  subst hfirst
  cases a with
  | none => exact hsecond rfl
  | some fault => rfl

/-! ## §2 Strict validation -/

/-- A variable must have an entry and belong to the method that uses it. -/
def varFault (p : Program) (m : MethodId) (v : VarId) : Option (Option StmtFault) :=
  match p.var? v with
  | none => return some (.foreign .vars v.index)
  | some var => do
    if var.method = m then return none
    else
      let owner ← p.methodName? var.method
      return some (.notOwned var.name owner)

/-- A field must have an entry and be static exactly when it is accessed without a variable. -/
def fieldFault (p : Program) (base : Option VarId) (f : FieldId) : Option (Option StmtFault) :=
  match p.field? f with
  | none => return some (.foreign .fields f.index)
  | some field => do
    if field.isStatic && base.isSome then
      let name ← p.fieldName? f
      return some (.staticFieldWithBase name)
    else if !field.isStatic && base.isNone then
      let name ← p.fieldName? f
      return some (.instanceFieldWithoutBase name)
    else return none

/-- The declaration that a call resolves to, if there is one, must fit the call. -/
noncomputable def targetFault (p : Program) (call : Invoke) : Option (Option StmtFault) := do
  match ← resolve p call.target with
  | none => return none
  | some target =>
    let method ← p.method? target
    if method.isStatic != call.kind.isStatic then
      let name ← p.methodName? target
      return some (.kindMismatch call.kind name)
    else if method.params.length ≠ call.args.length then
      let name ← p.methodName? target
      return some (.argumentCount call.args.length name method.params.length)
    else return none

/-- A call must name a class with an entry before its declaration is looked for. -/
noncomputable def invokeFault (p : Program) (call : Invoke) : Option (Option StmtFault) :=
  match p.class? call.target.start with
  | none => return some (.foreign .classes call.target.start.index)
  | some _ => orThen (some (receiverFault? call)) (targetFault p call)

/-- The first fault of a statement. -/
noncomputable def stmtFault (p : Program) (m : MethodId) (stmt : Stmt) : Option (Option StmtFault) :=
  orThen (firstFault (varFault p m) stmt.vars) <|
    match stmt with
    | .new _ ty => return p.typeFault? ty
    | .cast _ _ ty => return p.typeFault? ty
    | .loadField _ base field => fieldFault p base field
    | .storeField base field _ => fieldFault p base field
    | .invoke call => invokeFault p call
    | _ => return none

/-- The first fault of a method. That a method has a receiver exactly if it is not static needs no
    fault: without it there is no answer. -/
noncomputable def methodFault (p : Program) (m : MethodId) (method : Method) : Option (Option MethodFault) := do
  if method.isAbstract && !method.body.isEmpty then return some .abstractBody
  else
    guard (method.self.isSome = !method.isStatic)
    firstFault (fun (stmt, i) => (stmtFault p m stmt).map (Option.map (.atStatement i stmt)))
      method.body.zipIdx

/-- The first fault of the method with a given identifier, under the method's name. -/
noncomputable def namedMethodFault (p : Program) (m : MethodId) : Option (Option ProgramFault) := do
  let method ← p.method? m
  match ← methodFault p m method with
  | none => return none
  | some cause =>
    let name ← p.methodName? m
    return some (.inMethod name cause)

/-- The superclass chain from a class on, cut off after a number of classes. -/
def ancestry (p : Program) : Nat → ClassId → Option (List ClassId)
  | 0, _ => return []
  | n + 1, c => do
    let cls ← p.class? c
    match cls.superclass with
    | none => return [c]
    | some parent =>
      let chain ← ancestry p n parent
      return c :: chain

/-- The superclass chain of a class must end. -/
def chainFault (p : Program) (c : ClassId) : Option (Option ProgramFault) := do
  let cls ← p.class? c
  let chain ← ancestry p (p.classes.size + 1) c
  return if p.classes.size < chain.length then some (.cyclicSuperclasses cls.name) else none

/-- The entry method must have an entry and be static. -/
def mainFault (p : Program) : Option (Option ProgramFault) :=
  match p.main with
  | none => return none
  | some main =>
    match p.method? main with
    | none => return some (.foreign .methods main.index)
    | some method => do
      if method.isStatic then return none
      else
        let name ← p.methodName? main
        return some (.mainNotStatic name)

/-- The first fault of a program. -/
noncomputable def fault (p : Program) : Option (Option ProgramFault) :=
  orThen (some p.objectClassFault?) <|
    orThen (firstFault (fun c => (p.class? c).map p.supertypeFault?) p.classIds) <|
      orThen (firstFault (chainFault p) p.classIds) <|
        orThen (mainFault p) (firstFault (namedMethodFault p) p.methodIds)

/-- Enters one statement into the variable it goes through, which must have an entry. -/
def indexStmt (vars : Array Var) (loc : Location) (stmt : Stmt) : Option (Array Var) :=
  match stmt.access? with
  | none => return vars
  | some (base, _) => do
    let _ ← vars[base.index]?
    return PointsTo.indexStmt vars loc stmt

/-- The program with its access indexes and returned variables filled in. -/
def indexed (p : Program) : Option Program := do
  let vars ← p.statements.foldlM (fun vars (loc, stmt) => indexStmt vars loc stmt) p.vars
  return { p.indexed with vars }

/-- The finished program, or the first fault. -/
noncomputable def build (b : Builder) : Option (Except ProgramFault Program) := do
  match ← fault b.program with
  | some fault => return .error fault
  | none =>
    let p ← indexed b.program
    return .ok p

/-! ## §3 The answers -/

section Answers

variable {p : Program}

theorem methodName?_eq (hs : p.Scoped) {m : MethodId} (hm : m.index < p.methods.size) :
    p.methodName? m = some (p.methodName m) := by
  have hmethod : p.method? m = some p.methods[m.index] := Array.getElem?_eq_getElem hm
  have howner := hs.methodOwners _ (Array.getElem_mem hm)
  obtain ⟨cls, hcls⟩ := (class?_isSome_iff _).2 howner
  simp [methodName, methodName?, hmethod, hcls]

theorem fieldName?_eq (hs : p.Scoped) {f : FieldId} {field : Field} (hf : p.field? f = some field) :
    p.fieldName? f = some (p.fieldName f) := by
  obtain ⟨cls, hcls⟩ := (class?_isSome_iff _).2 (hs.fieldOwners field (Array.mem_of_getElem? hf))
  simp [fieldName, fieldName?, hf, hcls]

theorem varFault_eq (hs : p.Scoped) (m : MethodId) (v : VarId) :
    varFault p m v = some (p.varFault? m v) := by
  unfold varFault varFault?
  cases hv : p.var? v with
  | none => rfl
  | some var =>
    -- the owner of a variable has a name
    have hname := methodName?_eq hs (hs.varMethods var (Array.mem_of_getElem? hv))
    by_cases hm : var.method = m <;> simp [hm, hname]

theorem fieldFault_eq (hs : p.Scoped) (base : Option VarId) (f : FieldId) :
    fieldFault p base f = some (p.fieldFault? base f) := by
  unfold fieldFault fieldFault?
  cases hf : p.field? f with
  | none => rfl
  | some field =>
    have hname := fieldName?_eq hs hf
    cases base <;> cases hstatic : field.isStatic <;> simp [hname, hstatic]

/-! Calls are resolved along supertypes, so from here on those have to be sound. -/

variable (hd : p.Declared) (hs : p.Scoped)

include hd hs

theorem targetFault_eq (h : p.SoundHierarchy) {call : Invoke}
    (hstart : call.target.start.index < p.classes.size) :
    targetFault p call = some (p.targetFault? call) := by
  unfold targetFault targetFault?
  rw [resolve_eq (declaredExists_of_declared hd) h hstart, Option.bind_eq_bind, Option.bind_some]
  cases hresolve : p.resolve call.target with
  | none => rfl
  | some m =>
    -- what a call resolves to is declared by a class, so it has an entry and a name
    obtain ⟨c, hc⟩ := mem_visibleMethods (List.mem_of_head? hresolve)
    have hm := declaredExists_of_declared hd hc
    have hmethod : p.method? m = some p.methods[m.index] := Array.getElem?_eq_getElem hm
    simp only [hmethod, methodName?_eq hs hm, Option.bind_eq_bind, Option.bind_some, Option.pure_def]
    split
    · rfl
    · split <;> rfl

theorem invokeFault_eq (h : p.SoundHierarchy) (call : Invoke) :
    invokeFault p call = some (p.invokeFault? call) := by
  unfold invokeFault invokeFault?
  cases hstart : p.class? call.target.start with
  | none => rfl
  | some cls => exact orThen_eq rfl fun _ => targetFault_eq hd hs h ((class?_isSome_iff _).1 ⟨cls, hstart⟩)

theorem stmtFault_eq (h : p.SoundHierarchy) (m : MethodId) (stmt : Stmt) :
    stmtFault p m stmt = some (p.stmtFault? m stmt) := by
  refine orThen_eq (firstFault_eq fun v _ => varFault_eq hs m v) fun _ => ?_
  cases stmt with
  | loadField lhs base f => exact fieldFault_eq hs base f
  | storeField base f rhs => exact fieldFault_eq hs base f
  | invoke call => exact invokeFault_eq hd hs h call
  | _ => rfl

theorem methodFault_eq (h : p.SoundHierarchy) (m : MethodId) {method : Method}
    (hself : method.self.isSome = !method.isStatic) :
    methodFault p m method = some (p.methodFault? m method) := by
  unfold methodFault methodFault?
  rw [guard, if_pos hself]
  split
  · rfl
  · apply firstFault_eq
    rintro ⟨stmt, i⟩ _
    simp only [stmtFault_eq hd hs h, Option.map_some]

theorem namedMethodFault_eq (h : p.SoundHierarchy) (hselves : Builder.Selves p.methods) {m : MethodId}
    (hm : m.index < p.methods.size) : namedMethodFault p m = some (p.namedMethodFault? m) := by
  have hmethod : p.method? m = some p.methods[m.index] := Array.getElem?_eq_getElem hm
  have hfault := methodFault_eq hd hs h m (hselves _ (Array.getElem_mem hm))
  unfold namedMethodFault namedMethodFault?
  simp only [hmethod, hfault, methodName?_eq hs hm, Option.bind_eq_bind, Option.bind_some,
    Option.pure_def]
  cases p.methodFault? m p.methods[m.index] <;> rfl

omit hd hs

theorem ancestry_eq
    (hlinks : ∀ cls ∈ p.classes, ∀ parent, cls.superclass = some parent →
      parent.index < p.classes.size)
    (n : Nat) {c : ClassId} (hc : c.index < p.classes.size) :
    ancestry p n c = some (p.ancestry n c) := by
  induction n generalizing c with
  | zero => rfl
  | succ n ih =>
    obtain ⟨cls, hcls, hmem⟩ := exists_class?_of_lt hc
    rw [ancestry, Program.ancestry]
    cases hparent : cls.superclass with
    | none => simp [superclassOf, hcls, hparent]
    | some parent =>
      have htail := ih (hlinks cls hmem parent hparent)
      simp [superclassOf, hcls, hparent, htail]

theorem chainFault_eq
    (hlinks : ∀ cls ∈ p.classes, ∀ parent, cls.superclass = some parent →
      parent.index < p.classes.size)
    {c : ClassId} (hc : c.index < p.classes.size) : chainFault p c = some (p.chainFault? c) := by
  obtain ⟨cls, hcls, _⟩ := exists_class?_of_lt hc
  simp [chainFault, chainFault?, hcls, ancestry_eq hlinks _ hc]

theorem mainFault_eq (hs : p.Scoped) : mainFault p = some p.mainFault? := by
  unfold mainFault mainFault?
  cases p.main with
  | none => rfl
  | some m =>
    cases hm : p.method? m with
    | none => simp [hm]
    | some method =>
      have hname := methodName?_eq hs (Array.getElem?_eq_some_iff.1 hm).1
      cases hstatic : method.isStatic <;> simp [hm, hstatic, hname]

theorem filterMap_getElem?_range {α : Type} (l : List α) :
    (List.range l.length).filterMap (l[·]?) = l := by
  induction l with
  | nil => rfl
  | cons a l ih => simpa [List.range_succ_eq_map, List.filterMap_map, Function.comp_def] using ih

/-- Visiting the classes by identifier visits the entries of their table. -/
theorem findSome?_classes {β : Type} (find : Class → Option β) :
    p.classes.toList.findSome? find = p.classIds.findSome? fun c => (p.class? c).bind find := by
  have hentries : p.classIds.filterMap p.class? = p.classes.toList := by
    simpa [classIds, Id.below, List.filterMap_map, Function.comp_def, class?] using
      filterMap_getElem?_range p.classes.toList
  rw [← List.head?_filterMap, ← hentries, List.filterMap_filterMap, List.head?_filterMap]

theorem supertypeFaults_eq :
    firstFault (fun c => (p.class? c).map p.supertypeFault?) p.classIds =
      some (p.classes.toList.findSome? p.supertypeFault?) := by
  rw [findSome?_classes]
  apply firstFault_eq
  intro c hc
  obtain ⟨cls, hcls, _⟩ := exists_class?_of_lt (Id.mem_below.1 hc)
  simp [hcls]

/-- **Strict validation has an answer**, which is that of validation. -/
theorem fault_eq (hd : p.Declared) (hs : p.Scoped) (hselves : Builder.Selves p.methods) :
    fault p = some p.fault? := by
  refine orThen_eq rfl fun _ => ?_
  refine orThen_eq supertypeFaults_eq fun hsupertypes => ?_
  -- superclasses have entries, so chains can be followed
  have hlinks : ∀ cls ∈ p.classes, ∀ parent, cls.superclass = some parent →
      parent.index < p.classes.size := by
    intro cls hcls
    have hfault := List.findSome?_eq_none_iff.1 hsupertypes cls (Array.mem_toList_iff.2 hcls)
    exact (supertypeFault?_eq_none_iff.1 hfault).1
  refine orThen_eq (firstFault_eq fun c hc => chainFault_eq hlinks (Id.mem_below.1 hc)) fun hchains => ?_
  -- chains end, so calls can be resolved
  have hacyclic := (length_ancestry_le_iff hlinks).1 fun c hc =>
    (chainFault?_eq_none_iff hc).1 (List.findSome?_eq_none_iff.1 hchains c (Id.mem_below.2 hc))
  refine orThen_eq (mainFault_eq hs) fun _ => ?_
  apply firstFault_eq
  intro m hm
  exact namedMethodFault_eq hd hs ⟨hlinks, hs.interfaces, hacyclic⟩ hselves (Id.mem_below.1 hm)

theorem size_indexStmt (vars : Array Var) (loc : Location) (stmt : Stmt) :
    (PointsTo.indexStmt vars loc stmt).size = vars.size :=
  size_foldl_indexStmt [(loc, stmt)] vars

theorem indexStmt_eq {vars : Array Var} {stmt : Stmt} (h : ∀ v ∈ stmt.vars, v.index < vars.size)
    (loc : Location) : indexStmt vars loc stmt = some (PointsTo.indexStmt vars loc stmt) := by
  unfold indexStmt
  cases haccess : stmt.access? with
  | none => simp [PointsTo.indexStmt, haccess]
  | some access =>
    have hlt := h access.1 (State.base_mem_vars haccess)
    simp [hlt]

/-- Indexing looks up variables with entries only. -/
theorem indexed_eq (h : p.Valid) : indexed p = some p.indexed := by
  have hvars : ∀ entry ∈ p.statements, ∀ v ∈ entry.2.vars, v.index < p.vars.size := by
    rintro ⟨loc, stmt⟩ hentry v hv
    obtain ⟨var, hvar, _⟩ := h.vars loc stmt (mem_statements.1 hentry) v hv
    exact (Array.getElem?_eq_some_iff.1 hvar).1
  have hfold : p.statements.foldlM (fun vars (loc, stmt) => indexStmt vars loc stmt) p.vars =
      some p.indexed.vars := by
    -- statements are entered into a table that keeps its size
    refine foldlM_eq (P := fun vars => vars.size = p.vars.size) (fun vars hsize entry hentry => ?_) rfl
    refine ⟨indexStmt_eq (fun v hv => ?_) entry.1, (size_indexStmt vars _ _).trans hsize⟩
    rw [hsize]
    exact hvars entry hentry v hv
  unfold indexed
  rw [hfold]
  rfl

end Answers

end Strict

/-! ## §4 Building -/

/-- **Building is exact**: after every sequence of calls, building never follows an identifier without an
    entry and comes to an end, even if it follows chains of supertypes without a bound. It gives a program
    exactly if the declarations are valid, and nothing but the indexes is new in that program. -/
theorem Builder.build_exact (calls : List Call) :
    Strict.build (after calls) = some (after calls).build ∧
      ((∃ p, (after calls).build = .ok p) ↔ (after calls).program.Valid) ∧
      ∀ p, (after calls).build = .ok p → p.unindexed = (after calls).program.unindexed := by
  have hd := declared_after calls
  have hs := scoped_after calls
  have hfault := Strict.fault_eq hd hs (selves_after calls)
  have hvalid := Program.fault?_eq_none_iff hd hs
  unfold Strict.build build
  rw [hfault, Option.bind_eq_bind, Option.bind_some]
  cases hnone : (after calls).program.fault? with
  | some fault => simp [← hvalid, hnone]
  | none =>
    rw [hnone, eq_self_iff_true, true_iff] at hvalid
    refine ⟨?_, ?_, ?_⟩
    · simp [Strict.indexed_eq hvalid]
    · simp [hvalid]
    · intro p hp
      cases hp
      exact Program.unindexed_indexed _

end PointsTo
