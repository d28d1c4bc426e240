import PointsTo.Proofs.Drafts

/-!
# Rejected calls

A call looks at some tables and writes others, step by step, and it can be rejected at several of its steps. All
the same, a rejected call leaves everything as it was: no step that may reject it comes after one that writes.

The declaration of an interface is the exception. The interface is declared first, and then its superinterfaces
are recorded one by one, each of them checked in its turn. If one is rejected, what was done so far stays done:
the interface has been declared as if the call had listed only the superinterfaces before that one. Whether a
superinterface is rejected can be told from the program before the call, except that the new interface may list
itself: it is a class and an interface by the time it is checked.

- `Builder.Spares`, `Builder.spares_respond`: rejected calls leave everything as it was.
- `Program.refusal?`, `Program.RefusesAt`: the superinterfaces that are rejected, and the first of them.
- `Builder.addImplementation_withInterface`, `Builder.addImplementations_withInterface`: one superinterface, and
  all up to the first one that is rejected.
- `Builder.rejection_exact`: what rejected calls leave behind, after every sequence of calls.
-/

namespace PointsTo

/-! ## §1 Requests -/

/-- A call that a builder answers as a whole: all of them but the declaration of an interface. -/
inductive Builder.Request
  | addClass (name : String) (superclass : Option ClassId)
  | addAbstractClass (name : String) (superclass : Option ClassId)
  | addImplementation (c iface : ClassId)
  | addField (c : ClassId) (name : String) (isStatic : Bool)
  | addMethod (c : ClassId) (subsignature : String) (isStatic : Bool)
  | addAbstractMethod (c : ClassId) (subsignature : String)
  | methodRef (c : ClassId) (subsignature : String)
  | body (m : MethodId)

/-- What a request asks for. -/
def Builder.Request.Answer : Builder.Request → Type
  | addClass .. => ClassId
  | addAbstractClass .. => ClassId
  | addImplementation .. => Unit
  | addField .. => FieldId
  | addMethod .. => MethodId
  | addAbstractMethod .. => MethodId
  | methodRef .. => MethodRef
  | body .. => Method

/-- The steps that answer a request. -/
def Draft.respond : (r : Builder.Request) → Draft r.Answer
  | .addClass name superclass => newClass name .concrete superclass
  | .addAbstractClass name superclass => newClass name .abstract superclass
  | .addImplementation c iface => addImplementation c iface
  | .addField c name isStatic => addField c name isStatic
  | .addMethod c subsignature isStatic => newMethod c subsignature isStatic false
  | .addAbstractMethod c subsignature => newMethod c subsignature false true
  | .methodRef c subsignature => methodRef c subsignature
  | .body m => body m

namespace Builder

/-- What a request leaves behind, and its answer. -/
def respond (b : Builder) : (r : Request) → Outcome r.Answer
  | .addClass name superclass => b.addClass name superclass
  | .addAbstractClass name superclass => b.addAbstractClass name superclass
  | .addImplementation c iface => b.addImplementation c iface
  | .addField c name isStatic => b.addField c name isStatic
  | .addMethod c subsignature isStatic => b.addMethod c subsignature isStatic
  | .addAbstractMethod c subsignature => b.addAbstractMethod c subsignature
  | .methodRef c subsignature => (b, methodRef c subsignature)
  | .body m => (b, b.body m)

open Directory (ofProgram)

variable {b : Builder} {α : Type}

/-- The steps of a request do what the builder does. -/
theorem outcome_respond (hp : b.program.Coherent) (r : Request) :
    (Draft.respond r).outcome (ofProgram b.program) =
      some ((b.respond r).2, ofProgram (b.respond r).1.program) := by
  cases r with
  | addClass name superclass => exact Draft.outcome_newClass b name _ superclass
  | addAbstractClass name superclass => exact Draft.outcome_newClass b name _ superclass
  | addImplementation c iface => exact Draft.outcome_addImplementation b c iface
  | addField c name isStatic => exact Draft.outcome_addField hp c name isStatic
  | addMethod c subsignature isStatic => exact Draft.outcome_newMethod b c subsignature (by simp)
  | addAbstractMethod c subsignature => exact Draft.outcome_newMethod b c subsignature fun _ => rfl
  | methodRef c subsignature => exact Draft.outcome_methodRef c subsignature _
  | body m => exact Draft.outcome_body b m

/-! ## §2 Rejected requests -/

/-- Nothing has changed if the call is rejected. -/
def Spares (b : Builder) (outcome : Outcome α) : Prop := ∀ e, outcome.2 = .error e → outcome.1 = b

theorem spares_rejected (e : DeclarationError) : b.Spares ((b, .error e) : Outcome α) := fun _ _ => rfl

theorem spares_accepted (b' : Builder) (a : α) : b.Spares (b', .ok a) := nofun

theorem spares_declareClass (name : String) (kind : ClassKind) (superclass : Option ClassId) :
    b.Spares (b.declareClass name kind superclass) := by
  unfold declareClass
  split
  · exact spares_rejected _
  · exact spares_accepted _ _

theorem spares_addImplementation (c iface : ClassId) : b.Spares (b.addImplementation c iface) := by
  unfold addImplementation
  split
  · exact spares_rejected _
  · split
    · exact spares_rejected _
    · split
      · exact spares_accepted _ _
      · exact spares_rejected _

theorem spares_addField (c : ClassId) (name : String) (isStatic : Bool) :
    b.Spares (b.addField c name isStatic) := by
  unfold addField
  split
  · exact spares_rejected _
  · split
    · exact spares_rejected _
    · exact spares_accepted _ _

theorem spares_declareMethod (c : ClassId) (subsignature : String) (isStatic isAbstract : Bool) :
    b.Spares (b.declareMethod c subsignature isStatic isAbstract) := by
  unfold declareMethod
  split
  · exact spares_rejected _
  · split
    · exact spares_rejected _
    · split
      · exact spares_rejected _
      · exact spares_accepted _ _

/-- **Rejected requests** leave everything as it was. -/
theorem spares_respond (b : Builder) (r : Request) : b.Spares (b.respond r) := by
  cases r with
  | addClass name superclass => exact spares_declareClass name _ superclass
  | addAbstractClass name superclass => exact spares_declareClass name _ superclass
  | addImplementation c iface => exact spares_addImplementation c iface
  | addField c name isStatic => exact spares_addField c name isStatic
  | addMethod c subsignature isStatic => exact spares_declareMethod c subsignature isStatic _
  | addAbstractMethod c subsignature => exact spares_declareMethod c subsignature _ _
  | methodRef c subsignature => exact fun _ _ => rfl
  | body m => exact fun _ _ => rfl

end Builder

/-! ## §3 Interfaces -/

namespace Program

/-- Why a new interface cannot extend something, if it cannot. The identifier of the next class is that of the
    new interface itself. -/
def refusal? (p : Program) (name : String) (iface : ClassId) : Option DeclarationError :=
  if iface.index = p.classes.size then none
  else match p.class? iface with
    | none => some (.foreign .classes iface.index)
    | some target => if target.isInterface then none else some (.notInterface target.name name)

/-- The first superinterface that is rejected comes after `k` others. -/
structure RefusesAt (p : Program) (name : String) (ifaces : List ClassId) (k : Nat)
    (e : DeclarationError) : Prop where
  accepted : ∀ iface ∈ ifaces.take k, p.refusal? name iface = none
  refused : ∃ iface, ifaces[k]? = some iface ∧ p.refusal? name iface = some e

/-- If a superinterface is rejected, then there is a first one. -/
theorem accepted_or_refusesAt (p : Program) (name : String) (ifaces : List ClassId) :
    (∀ iface ∈ ifaces, p.refusal? name iface = none) ∨ ∃ k e, p.RefusesAt name ifaces k e := by
  cases hfirst : ifaces.findSome? (p.refusal? name) with
  | none => exact Or.inl (List.findSome?_eq_none_iff.1 hfirst)
  | some e =>
    obtain ⟨before, iface, rest, rfl, hiface, hbefore⟩ := List.findSome?_eq_some_iff.1 hfirst
    refine Or.inr ⟨before.length, e, ?_, iface, ?_, hiface⟩
    · rwa [List.take_left]
    · simp

end Program

namespace Builder

variable {b : Builder} {name : String} {ifaces : List ClassId} {k : Nat} {e : DeclarationError}

/-- The builder with one more interface, which extends the ones that are listed. -/
def withInterface (b : Builder) (name : String) (listed : List ClassId) : Builder :=
  { b with program := { b.program with
      classes := b.program.classes.push
        { name, kind := .interface, superclass := none, interfaces := listed } } }

theorem class?_withInterface_self (b : Builder) (name : String) (listed : List ClassId) :
    (b.withInterface name listed).program.class? ⟨b.program.classes.size⟩ =
      some { name, kind := .interface, superclass := none, interfaces := listed } := by
  simp [withInterface, Program.class?]

theorem class?_withInterface_of_ne {c : ClassId} (hc : c.index ≠ b.program.classes.size) (listed : List ClassId) :
    (b.withInterface name listed).program.class? c = b.program.class? c := by
  simp [withInterface, Program.class?, Array.getElem?_push, hc]

/-- Recording one superinterface of the new interface. -/
theorem addImplementation_withInterface (b : Builder) (name : String) (listed : List ClassId) (iface : ClassId) :
    (b.withInterface name listed).addImplementation ⟨b.program.classes.size⟩ iface =
      match b.program.refusal? name iface with
      | none => (b.withInterface name (listed ++ [iface]), .ok ())
      | some e => (b.withInterface name listed, .error e) := by
  -- the new interface is the last class, so nothing else changes when it is given a superinterface
  have hrecord : (b.withInterface name listed).program.classes.modify b.program.classes.size
      (fun cls => { cls with interfaces := cls.interfaces ++ [iface] }) =
        (b.withInterface name (listed ++ [iface])).program.classes :=
    modify_push_last _ _ _
  rw [addImplementation, class?_withInterface_self]
  dsimp only
  rw [hrecord, Program.refusal?]
  by_cases hself : iface.index = b.program.classes.size
  · have hiface : iface = ⟨b.program.classes.size⟩ := congrArg Id.mk hself
    rw [if_pos hself, hiface, class?_withInterface_self]
    rfl
  · rw [if_neg hself, class?_withInterface_of_ne hself]
    cases b.program.class? iface with
    | none => rfl
    | some target => cases htarget : target.isInterface <;> simp [htarget, withInterface]

/-- Superinterfaces that are accepted are recorded, and it goes on with those that come next. -/
theorem addImplementations_withInterface (listed : List ClassId) {accepted : List ClassId}
    (haccepted : ∀ iface ∈ accepted, b.program.refusal? name iface = none) (rest : List ClassId) :
    (b.withInterface name listed).addImplementations ⟨b.program.classes.size⟩ (accepted ++ rest) =
      (b.withInterface name (listed ++ accepted)).addImplementations ⟨b.program.classes.size⟩ rest := by
  induction accepted generalizing listed with
  | nil => simp
  | cons iface accepted ih =>
    obtain ⟨hiface, haccepted⟩ := List.forall_mem_cons.1 haccepted
    rw [List.cons_append, addImplementations, addImplementation_withInterface, hiface]
    simpa using ih (listed ++ [iface]) haccepted

theorem addInterface_known (hname : (b.program.classByName? name).isSome) (ifaces : List ClassId) :
    b.addInterface name ifaces = (b, .error (.duplicateClass name)) := by
  obtain ⟨c, hc⟩ := Option.isSome_iff_exists.1 hname
  simp [addInterface, declareClass, hc]

/-- The new interface is declared before its superinterfaces are recorded. -/
theorem declareClass_interface (hname : b.program.classByName? name = none) :
    b.declareClass name .interface none = (b.withInterface name [], .ok ⟨b.program.classes.size⟩) := by
  simp [declareClass, hname, withInterface]

theorem addInterface_accepted (hname : b.program.classByName? name = none)
    (haccepted : ∀ iface ∈ ifaces, b.program.refusal? name iface = none) :
    b.addInterface name ifaces = (b.withInterface name ifaces, .ok ⟨b.program.classes.size⟩) := by
  have hifaces := addImplementations_withInterface [] haccepted []
  rw [List.append_nil, List.nil_append] at hifaces
  rw [addInterface, declareClass_interface hname]
  dsimp only
  rw [hifaces]
  rfl

theorem addInterface_refused (hname : b.program.classByName? name = none)
    (h : b.program.RefusesAt name ifaces k e) :
    b.addInterface name ifaces = (b.withInterface name (ifaces.take k), .error e) := by
  obtain ⟨haccepted, iface, hk, hiface⟩ := h
  have hsplit : ifaces = ifaces.take k ++ iface :: ifaces.drop (k + 1) := by
    obtain ⟨hlt, rfl⟩ := List.getElem?_eq_some_iff.1 hk
    rw [← List.drop_eq_getElem_cons hlt, List.take_append_drop]
  have hifaces := addImplementations_withInterface [] haccepted (iface :: ifaces.drop (k + 1))
  rw [← hsplit, List.nil_append, addImplementations, addImplementation_withInterface, hiface] at hifaces
  rw [addInterface, declareClass_interface hname]
  dsimp only
  rw [hifaces]

/-- The reasons why an interface is rejected. -/
theorem addInterface_error_iff :
    (b.addInterface name ifaces).2 = .error e ↔
      (b.program.classByName? name).isSome ∧ e = .duplicateClass name ∨
      b.program.classByName? name = none ∧ ∃ k, b.program.RefusesAt name ifaces k e := by
  cases hname : b.program.classByName? name with
  | some c =>
    rw [addInterface_known (by simp [hname])]
    simp [eq_comm]
  | none =>
    rcases b.program.accepted_or_refusesAt name ifaces with haccepted | ⟨k, e', hk⟩
    · rw [addInterface_accepted hname haccepted]
      have hnone : ∀ k, ¬ b.program.RefusesAt name ifaces k e := by
        rintro k ⟨_, iface, hk, hiface⟩
        rw [haccepted iface (List.mem_of_getElem? hk)] at hiface
        exact absurd hiface (Option.some_ne_none e).symm
      simp [hnone]
    · rw [addInterface_refused hname hk]
      constructor
      · intro he
        cases he
        exact Or.inr ⟨rfl, k, hk⟩
      · rintro (⟨hsome, _⟩ | ⟨_, k', hk'⟩)
        · simp at hsome
        · -- the first one that is rejected is the same whenever it is looked for
          have hsame := (addInterface_refused hname hk).symm.trans (addInterface_refused hname hk')
          exact congrArg Prod.snd hsame

/-! ## §4 After any sequence of calls -/

/-- **Rejected calls.** After every sequence of calls, each of these calls has an outcome. If a request is rejected,
    nothing has changed. An interface is rejected because its name is known, and then nothing has changed, or because
    of the first of its superinterfaces that has no entry or is no interface. Then what is left behind is what is left
    behind if only the ones before it are listed, which is a call that is not rejected. -/
theorem rejection_exact (calls : List Call) :
    (∀ r : Request, ∃ answer left,
      (Draft.respond r).outcome (Directory.after calls) = some (answer, left) ∧
      (after calls).respond r = (⟨left.program⟩, answer) ∧
      ∀ e, answer = .error e → left = Directory.after calls) ∧
    ∀ name ifaces, ∃ answer left,
      (Draft.addInterface name ifaces).outcome (Directory.after calls) = some (answer, left) ∧
      (after calls).addInterface name ifaces = (⟨left.program⟩, answer) ∧
      (∀ e, answer = .error e ↔
        ((Directory.after calls).names name).isSome ∧ e = .duplicateClass name ∨
        (Directory.after calls).names name = none ∧
          ∃ k, (Directory.after calls).program.RefusesAt name ifaces k e) ∧
      (((Directory.after calls).names name).isSome → left = Directory.after calls) ∧
      ∀ k e, (Directory.after calls).names name = none →
        (Directory.after calls).program.RefusesAt name ifaces k e →
        ∃ id, (Draft.addInterface name (ifaces.take k)).outcome (Directory.after calls) = some (.ok id, left) := by
  rw [Directory.after_eq]
  generalize hb : after calls = b
  have hp : b.program.Coherent := hb ▸ (consistent_after calls).coherent
  refine ⟨fun r => ⟨_, _, outcome_respond hp r, rfl, ?_⟩,
    fun name ifaces => ⟨_, _, Draft.outcome_addInterface b name ifaces, rfl, ?_, ?_, ?_⟩⟩
  · intro e he
    rw [spares_respond b r e he]
  · exact fun e => addInterface_error_iff
  · intro hname
    rw [addInterface_known hname]
  · intro k e hname hk
    refine ⟨⟨b.program.classes.size⟩, ?_⟩
    rw [Draft.outcome_addInterface, addInterface_accepted hname hk.accepted, addInterface_refused hname hk]

/-- Calls that declare a class and an interface. -/
def kindCalls : List Call := [.addClass "A" none, .addInterface "I" []]

/-- An interface `J` is to extend `I`, itself and `A`. The class is rejected, and `J` stays declared with the two
    superinterfaces before it. A field of a class that does not exist is rejected, too, and nothing changes. -/
theorem rejection_exact_kindCalls :
    ((Directory.after kindCalls).names "J" = none ∧
      (Directory.after kindCalls).program.RefusesAt "J" [⟨1⟩, ⟨2⟩, ⟨0⟩] 2 (.notInterface "A" "J")) ∧
    (∃ id left,
      (Draft.addInterface "J" [⟨1⟩, ⟨2⟩, ⟨0⟩]).outcome (Directory.after kindCalls) =
        some (.error (.notInterface "A" "J"), left) ∧
      (Draft.addInterface "J" [⟨1⟩, ⟨2⟩]).outcome (Directory.after kindCalls) = some (.ok id, left)) ∧
    (Draft.respond (.addField ⟨2⟩ "f" false)).outcome (Directory.after kindCalls) =
      some (.error (.foreign .classes 2), Directory.after kindCalls) := by
  have hname : (Directory.after kindCalls).names "J" = none := by decide +kernel
  have hrefuses : (Directory.after kindCalls).program.RefusesAt "J" [⟨1⟩, ⟨2⟩, ⟨0⟩] 2 (.notInterface "A" "J") :=
    ⟨by decide +kernel, ⟨0⟩, rfl, by decide +kernel⟩
  obtain ⟨hrequest, hinterface⟩ := rejection_exact kindCalls
  refine ⟨⟨hname, hrefuses⟩, ?_, ?_⟩
  · obtain ⟨answer, left, houtcome, _, herror, _, hleft⟩ := hinterface "J" [⟨1⟩, ⟨2⟩, ⟨0⟩]
    obtain ⟨id, hid⟩ := hleft 2 _ hname hrefuses
    have hanswer := (herror (.notInterface "A" "J")).2 (Or.inr ⟨hname, 2, hrefuses⟩)
    exact ⟨id, left, hanswer ▸ houtcome, hid⟩
  · obtain ⟨answer, left, houtcome, hrespond, hleft⟩ := hrequest (.addField ⟨2⟩ "f" false)
    have hclass : (after kindCalls).program.class? ⟨2⟩ = none := by decide +kernel
    rw [respond, addField, hclass] at hrespond
    have hanswer : answer = .error (.foreign .classes 2) := (congrArg Prod.snd hrespond).symm
    rw [houtcome, hleft _ hanswer, hanswer]

end Builder

end PointsTo
