import Mathlib.Data.List.Forall2
import PointsTo.Proofs.Coherence
import PointsTo.Proofs.Leastness
import PointsTo.Proofs.StrictOperations

/-!
# The methods that calls are linked to

Validation looks at the declaration that the reference of a call means: a call of it has to have the right
kind and the right number of arguments. The analysis links a call to the method that dispatch finds, which
may be another one. What carries over depends on what the two lookups have in common.

They look for the same subsignature, so the method that is linked takes as many parameters as the
declaration, and no argument is lost. Whether a method is static is no part of its subsignature. The kind of
a call therefore fits the method that is linked as far as that method is like the declaration, in particular
whenever it is the declaration itself, as it always is for static calls.

Nothing is checked about a reference that means no declaration. A call through such a reference may still be
linked, if it looks at the class of its receiver.

- `CallLink`: the statement and the method that a call edge joins.
- `CallLink.declared_isStatic_iff`, `CallLink.forall₂_args`: what validation says about them.
- `Program.analyze_call_kinds`, `Program.analyze_arguments`: the call edges of a result.
- `Program.stray`: a program with a reference that means no declaration.
- `Program.hidden`: a program with a reference that means another declaration than the one that is linked.
-/

namespace PointsTo

/-! ## §1 Lookups -/

namespace Program

variable {p : Program} {call : Invoke} {c : ClassId} {s : Subsignature} {m : MethodId}

/-- If dispatch from the class of a reference finds a method, the reference means a declaration. -/
theorem resolve_isSome_of_dispatch {ref : MethodRef}
    (h : p.dispatch ref.start ref.subsignature = some m) : (p.resolve ref).isSome = true := by
  have hvisible : m ∈ p.visibleMethods ref.start ref.subsignature := List.mem_of_find?_eq_some h
  unfold resolve
  rw [List.isSome_head?]
  exact List.ne_nil_of_mem hvisible

/-- Dispatch from the class of a reference finds the declaration that it means, if that can run. -/
theorem dispatch_of_resolve {ref : MethodRef} (h : p.resolve ref = some m)
    (hconcrete : p.isConcrete m = true) : p.dispatch ref.start ref.subsignature = some m := by
  obtain ⟨rest, hvisible⟩ := List.head?_eq_some_iff.1 h
  -- resolution takes the first visible method, and dispatch the first one that can run
  unfold dispatch
  rw [hvisible, List.find?_cons_of_pos hconcrete]

theorem Built.coherent (hp : p.Built) : p.Coherent := by
  obtain ⟨calls, _, rfl⟩ := hp.exists_calls
  exact (Builder.consistent_after calls).indexed.coherent

theorem Built.callValid (hp : p.Built) {loc : Location} (h : p.stmt? loc = some (.invoke call)) :
    p.CallValid call :=
  hp.complete.valid.forms loc _ h

/-- A method declared under a subsignature has a parameter for each of its parameter types. -/
theorem Coherent.length_params_of_declared (hp : p.Coherent) {method : Method}
    (h : p.declaredMethod? c s = some m) (hm : p.method? m = some method) :
    method.params.length = s.paramCount := by
  obtain ⟨method', hm', _, hsubsignature⟩ := hp.declaredMethod.1 h
  obtain rfl : method' = method := Option.some.inj (hm'.symm.trans hm)
  rw [← hsubsignature]
  exact hp.length_params hm

end Program

/-! ## §2 What a call edge joins -/

/-- A call edge leads from a call to a method that the call is found to run, and passes its values. -/
structure CallLink (p : Program) (r : Result) (e : CallEdge) (call : Invoke) (method : Method) :
    Prop where
  site : p.stmt? e.site = some (.invoke call)
  kind : call.kind = e.kind
  callee : p.method? e.callee = some method
  found : ∃ ty, p.callee? call ty = some e.callee
  passes : r.Passes call method

/-- A derivable call leads to a method that the call at its site is found to run. -/
theorem Derivable.exists_callee? {p : Program} {entry : MethodId} {e : CallEdge}
    (h : Derivable p entry (.calls e)) : ∃ call ty, p.stmt? e.site = some (.invoke call) ∧
      p.callee? call ty = some e.callee := by
  obtain ⟨himmediate⟩ := h
  cases himmediate with
  | @callStatic loc call callee _ hstmt hkind hresolve =>
    exact ⟨call, none, hstmt, by simpa [Program.callee?, hkind] using hresolve⟩
  | @callInstance loc call _ _ ty callee _ hstmt _ _ _ htarget =>
    exact ⟨call, some ty, hstmt, (Program.target_iff.1 htarget).2⟩

theorem Program.exists_callLink {p : Program} {entry : MethodId} (hp : p.WellFormed)
    (hentry : entry.index < p.methods.size) (order : WorkOrder) {e : CallEdge}
    (he : e ∈ (p.solve order entry).calls.edges) :
    ∃ call method, CallLink p (p.solve order entry).result e call method := by
  have hderivable := ((solve_exact hp hentry order).facts (.calls e)).1 he
  obtain ⟨call', ty, hstmt', hfound⟩ := hderivable.exists_callee?
  obtain ⟨_, call, method, hstmt, hkind, hmethod, hpasses⟩ :=
    (solve_fixpoint hp hentry order).callee he
  -- both describe the one statement at the site
  obtain rfl : call' = call := by simpa [hstmt] using hstmt'.symm
  exact ⟨call', method, hstmt, hkind, hmethod, ⟨ty, hfound⟩, hpasses⟩

namespace CallLink

variable {p : Program} {r : Result} {e : CallEdge} {call : Invoke} {method : Method}

/-- A static call is linked to the declaration that its reference means. -/
theorem resolve_of_static (h : CallLink p r e call method) (hkind : e.kind = .static) :
    p.resolve call.target = some e.callee := by
  obtain ⟨ty, hfound⟩ := h.found
  simpa [Program.callee?, h.kind, hkind] using hfound

/-- A special call is linked to what dispatch finds from the class of its reference. -/
theorem dispatch_of_special (h : CallLink p r e call method) (hkind : e.kind = .special) :
    p.dispatch call.target.start call.target.subsignature = some e.callee := by
  obtain ⟨ty, hfound⟩ := h.found
  simpa [Program.callee?, h.kind, hkind] using hfound

/-- A special call is linked to the declaration that its reference means, if that can run. -/
theorem callee_of_special (h : CallLink p r e call method) (hkind : e.kind = .special)
    {m : MethodId} (hresolve : p.resolve call.target = some m) (hconcrete : p.isConcrete m = true) :
    e.callee = m := by
  have hdispatch := Program.dispatch_of_resolve hresolve hconcrete
  exact Option.some.inj ((h.dispatch_of_special hkind).symm.trans hdispatch)

/-- The references of static and special calls that are linked mean a declaration. -/
theorem resolve_isSome (h : CallLink p r e call method)
    (hkind : e.kind = .static ∨ e.kind = .special) : (p.resolve call.target).isSome = true := by
  rcases hkind with hkind | hkind
  · rw [h.resolve_of_static hkind]
    rfl
  · exact Program.resolve_isSome_of_dispatch (h.dispatch_of_special hkind)

/-- The kind of a call fits the declaration that its reference means: this is what validation has looked at. -/
theorem declared_isStatic_iff (h : CallLink p r e call method) (hvalid : p.CallValid call) {m : MethodId}
    {declared : Method} (hresolve : p.resolve call.target = some m)
    (hm : p.method? m = some declared) : declared.isStatic = true ↔ e.kind = .static := by
  obtain ⟨declared', hm', hstatic, _⟩ := hvalid.target m hresolve
  obtain rfl : declared' = declared := Option.some.inj (hm'.symm.trans hm)
  rw [hstatic, h.kind]

theorem isStatic_of_static (h : CallLink p r e call method) (hvalid : p.CallValid call)
    (hkind : e.kind = .static) : method.isStatic = true :=
  (h.declared_isStatic_iff hvalid (h.resolve_of_static hkind) h.callee).2 hkind

/-- The method that is linked has a parameter for each parameter type of the reference. -/
theorem length_params (h : CallLink p r e call method) (hp : p.Coherent) :
    method.params.length = call.target.subsignature.paramCount := by
  obtain ⟨ty, hfound⟩ := h.found
  obtain ⟨c, hc⟩ := Program.exists_declared_of_callee? hfound
  exact hp.length_params_of_declared hc h.callee

/-- If the reference means a declaration, the method that is linked takes as many arguments as it gets. -/
theorem length_args (h : CallLink p r e call method) (hp : p.Coherent) (hvalid : p.CallValid call)
    (hresolve : (p.resolve call.target).isSome = true) : call.args.length = method.params.length := by
  obtain ⟨m, hm⟩ := Option.isSome_iff_exists.1 hresolve
  obtain ⟨declared, hdeclared, _, hargs⟩ := hvalid.target m hm
  obtain ⟨c, hc⟩ := Program.mem_visibleMethods (List.mem_of_head? hm)
  -- the declaration and the method that is linked are both declared under the same subsignature
  rw [h.length_params hp, ← hargs]
  exact hp.length_params_of_declared hc hdeclared

/-- If the reference means a declaration, every argument flows into its parameter. -/
theorem forall₂_args (h : CallLink p r e call method) (hp : p.Coherent) (hvalid : p.CallValid call)
    (hresolve : (p.resolve call.target).isSome = true) :
    List.Forall₂ (fun arg param => r.flow.hasFlow (.var arg) (.var param) = true) call.args
      method.params :=
  List.forall₂_iff_zip.2 ⟨h.length_args hp hvalid hresolve, fun hzip => h.passes.argument hzip⟩

theorem hasFlow_of_getElem? (h : CallLink p r e call method) {k : Nat} {arg param : VarId}
    (harg : call.args[k]? = some arg) (hparam : method.params[k]? = some param) :
    r.flow.hasFlow (.var arg) (.var param) = true := by
  apply h.passes.argument
  apply List.mem_of_getElem? (i := k)
  simp [List.getElem?_zip_eq_some, harg, hparam]

end CallLink

/-! ## §3 Programs -/

/-- Calls that declare a class `A` with an instance method and a static method of one parameter, and an
    entry method that calls both with an object of the class. -/
def Builder.relayCalls : List Builder.Call :=
  [.addClass "Object" none, .addClass "A" (some ⟨0⟩), .addMethod ⟨1⟩ "void take(A)" false,
   .addMethod ⟨1⟩ "void keep(A)" true, .addMethod ⟨0⟩ "void main()" true, .localVar ⟨2⟩ "a",
   .append ⟨2⟩ (.new ⟨3⟩ (.ofClass ⟨1⟩)),
   .append ⟨2⟩ (.invoke ⟨.virtual, ⟨⟨1⟩, ⟨"void", "take", ["A"]⟩⟩, some ⟨3⟩, [⟨3⟩], none⟩),
   .append ⟨2⟩ (.invoke ⟨.static, ⟨⟨1⟩, ⟨"void", "keep", ["A"]⟩⟩, none, [⟨3⟩], none⟩),
   .setMain ⟨2⟩]

/-- Calls that declare a class `A`, a class `B` below it with a static method without parameters, and an
    entry method that calls this method on an object of `B`, with an argument, through a reference to `A`. -/
def Builder.strayCalls : List Builder.Call :=
  [.addClass "Object" none, .addClass "A" (some ⟨0⟩), .addClass "B" (some ⟨1⟩),
   .addMethod ⟨2⟩ "void run()" true, .addMethod ⟨0⟩ "void main()" true, .setMain ⟨1⟩,
   .localVar ⟨1⟩ "b", .append ⟨1⟩ (.new ⟨0⟩ (.ofClass ⟨2⟩)),
   .append ⟨1⟩ (.invoke ⟨.virtual, ⟨⟨1⟩, ⟨"void", "run", []⟩⟩, some ⟨0⟩, [⟨0⟩], none⟩)]

/-- Calls that declare a class `A` with an instance method, a class `B` below it with a static method of the
    same subsignature, and an entry method that calls the method of `A` on an object of `B`. -/
def Builder.hiddenCalls : List Builder.Call :=
  [.addClass "Object" none, .addClass "A" (some ⟨0⟩), .addClass "B" (some ⟨1⟩),
   .addMethod ⟨1⟩ "void run()" false, .addMethod ⟨2⟩ "void run()" true,
   .addMethod ⟨0⟩ "void main()" true, .setMain ⟨2⟩, .localVar ⟨2⟩ "b",
   .append ⟨2⟩ (.new ⟨1⟩ (.ofClass ⟨2⟩)),
   .append ⟨2⟩ (.invoke ⟨.virtual, ⟨⟨1⟩, ⟨"void", "run", []⟩⟩, some ⟨1⟩, [], none⟩)]

namespace Program

/-- All calls have references that mean a declaration. -/
def relay : Program := (Builder.after Builder.relayCalls).program.indexed

/-- The only call has a reference that means no declaration. -/
def stray : Program := (Builder.after Builder.strayCalls).program.indexed

/-- The only call has a reference that means a declaration, and is linked to another one. -/
def hidden : Program := (Builder.after Builder.hiddenCalls).program.indexed

theorem relay_built : relay.Built := built_indexed (by decide +kernel)

theorem relay_main : relay.main = some ⟨2⟩ := by decide +kernel

theorem edges_relay (order : WorkOrder) : (relay.solve order ⟨2⟩).calls.edges =
    [⟨.static, ⟨⟨2⟩, 2⟩, ⟨1⟩⟩, ⟨.virtual, ⟨⟨2⟩, 1⟩, ⟨0⟩⟩] := by
  cases order <;> decide +kernel

/-! ## §4 The analysis -/

variable {p : Program} {entry : MethodId}

theorem edges_of_analyze (hmain : p.main = some entry) {options : Options} {run : Run}
    (h : p.analyze options = .ok run) :
    run.result.calls.edges = (p.solve options.order entry).calls.edges := by
  obtain ⟨run', hrun', hresult⟩ := analyze_eq hmain options
  obtain rfl : run = run' := Except.ok.inj (h.symm.trans hrun')
  rw [hresult]
  rfl

/-- The call without a declaration is linked all the same. -/
theorem analyze_stray : stray.Built ∧ stray.main = some ⟨1⟩ ∧ ∃ run, stray.analyze {} = .ok run ∧
    ⟨.virtual, ⟨⟨1⟩, 1⟩, ⟨0⟩⟩ ∈ run.result.calls.edges := by
  have hmain : stray.main = some ⟨1⟩ := by decide +kernel
  obtain ⟨run, hrun, _⟩ := analyze_eq hmain {}
  refine ⟨built_indexed (by decide +kernel), hmain, run, hrun, ?_⟩
  rw [edges_of_analyze hmain hrun]
  decide +kernel

/-- The call edges of a result join calls with methods that they are found to run. -/
theorem Built.analyze_links (hp : p.Built) (hmain : p.main = some entry) (options : Options) :
    ∃ run, p.analyze options = .ok run ∧ ∀ e ∈ run.result.calls.edges, ∃ call method,
      CallLink p run.result e call method := by
  have hwell := hp.wellFormed
  obtain ⟨run, hrun, hresult⟩ := analyze_eq hmain options
  refine ⟨run, hrun, ?_⟩
  rw [hresult]
  intro e he
  exact exists_callLink hwell (hwell.mainExists hmain) options.order he

/-- **Kinds of calls**: in the result for a built program, static calls are linked to static methods. If the
    reference of a call means a declaration, that declaration is static precisely for static calls, and so is
    the method that is linked as long as it is like the declaration. It is the declaration itself for static
    calls, and for special calls unless the declaration is abstract. -/
theorem analyze_call_kinds (hp : p.Built) (hmain : p.main = some entry) (options : Options) :
    ∃ run, p.analyze options = .ok run ∧ ∀ e ∈ run.result.calls.edges, ∃ call method,
      p.stmt? e.site = some (.invoke call) ∧ call.kind = e.kind ∧ p.method? e.callee = some method ∧
      (e.kind = .static → method.isStatic = true ∧ p.resolve call.target = some e.callee) ∧
      ∀ m declared, p.resolve call.target = some m → p.method? m = some declared →
        (declared.isStatic = true ↔ e.kind = .static) ∧
          ((method.isStatic = true ↔ e.kind = .static) ↔ method.isStatic = declared.isStatic) ∧
          (e.kind = .special → declared.isAbstract = false → e.callee = m) := by
  obtain ⟨run, hrun, hlinks⟩ := hp.analyze_links hmain options
  refine ⟨run, hrun, ?_⟩
  intro e he
  obtain ⟨call, method, h⟩ := hlinks e he
  have hvalid := hp.callValid h.site
  refine ⟨call, method, h.site, h.kind, h.callee, ?_, ?_⟩
  · intro hkind
    exact ⟨h.isStatic_of_static hvalid hkind, h.resolve_of_static hkind⟩
  · intro m declared hresolve hm
    have hdeclared := h.declared_isStatic_iff hvalid hresolve hm
    refine ⟨hdeclared, ?_, ?_⟩
    · rw [← hdeclared]
      exact Bool.eq_iff_iff.symm
    · intro hkind habstract
      exact h.callee_of_special hkind hresolve (by simp [isConcrete, hm, habstract])

theorem analyze_call_kinds_relay :
    ∃ run, relay.analyze { order := .lifo } = .ok run ∧
      run.result.calls.edges = [⟨.static, ⟨⟨2⟩, 2⟩, ⟨1⟩⟩, ⟨.virtual, ⟨⟨2⟩, 1⟩, ⟨0⟩⟩] ∧
      ∀ e ∈ run.result.calls.edges, ∃ call method,
      relay.stmt? e.site = some (.invoke call) ∧ call.kind = e.kind ∧
      relay.method? e.callee = some method ∧
      (e.kind = .static → method.isStatic = true ∧ relay.resolve call.target = some e.callee) ∧
      ∀ m declared, relay.resolve call.target = some m → relay.method? m = some declared →
        (declared.isStatic = true ↔ e.kind = .static) ∧
          ((method.isStatic = true ↔ e.kind = .static) ↔ method.isStatic = declared.isStatic) ∧
          (e.kind = .special → declared.isAbstract = false → e.callee = m) := by
  obtain ⟨run, hrun, hedges⟩ := analyze_call_kinds relay_built relay_main { order := .lifo }
  exact ⟨run, hrun, (edges_of_analyze relay_main hrun).trans (edges_relay _), hedges⟩

/-- A virtual call may be linked to a static method. -/
theorem stray_links_static_method :
    stray.Built ∧ stray.main = some ⟨1⟩ ∧ ∃ run, stray.analyze {} = .ok run ∧
      ∃ e ∈ run.result.calls.edges, ∃ method, stray.method? e.callee = some method ∧
        ¬ (method.isStatic = true ↔ e.kind = .static) := by
  obtain ⟨hbuilt, hmain, run, hrun, hedge⟩ := analyze_stray
  have hmap : (stray.method? ⟨0⟩).map Method.isStatic = some true := by decide +kernel
  obtain ⟨method, hmethod, hstatic⟩ := Option.map_eq_some_iff.1 hmap
  exact ⟨hbuilt, hmain, run, hrun, _, hedge, method, hmethod, by simp [hstatic]⟩

/-- A virtual call may be linked to a static method although its reference means a declaration that is not
    static: what validation has looked at is hidden by the method of the receiver's class. -/
theorem hidden_links_static_method :
    hidden.Built ∧ hidden.main = some ⟨2⟩ ∧ ∃ run, hidden.analyze {} = .ok run ∧
      ∃ e ∈ run.result.calls.edges, ∃ call method declared m, hidden.stmt? e.site = some (.invoke call) ∧
        hidden.resolve call.target = some m ∧ hidden.method? m = some declared ∧
        (declared.isStatic = true ↔ e.kind = .static) ∧ hidden.method? e.callee = some method ∧
        ¬ (method.isStatic = true ↔ e.kind = .static) := by
  have hbuilt : hidden.Built := built_indexed (by decide +kernel)
  have hmain : hidden.main = some ⟨2⟩ := by decide +kernel
  obtain ⟨run, hrun, _⟩ := analyze_eq hmain {}
  -- the call is linked to the method of the receiver's class, not to the one that its reference means
  have hedge : ⟨.virtual, ⟨⟨2⟩, 1⟩, ⟨1⟩⟩ ∈ run.result.calls.edges := by
    rw [edges_of_analyze hmain hrun]
    decide +kernel
  have hstmt : hidden.stmt? ⟨⟨2⟩, 1⟩ =
      some (.invoke ⟨.virtual, ⟨⟨1⟩, ⟨"void", "run", []⟩⟩, some ⟨1⟩, [], none⟩) := by
    decide +kernel
  have hresolve : hidden.resolve ⟨⟨1⟩, ⟨"void", "run", []⟩⟩ = some ⟨0⟩ := by decide +kernel
  have hflags : (hidden.method? ⟨0⟩).map Method.isStatic = some false ∧
      (hidden.method? ⟨1⟩).map Method.isStatic = some true := by
    decide +kernel
  obtain ⟨declared, hdeclared, hinstance⟩ := Option.map_eq_some_iff.1 hflags.1
  obtain ⟨method, hmethod, hstatic⟩ := Option.map_eq_some_iff.1 hflags.2
  exact ⟨hbuilt, hmain, run, hrun, _, hedge, _, method, declared, _, hstmt, hresolve, hdeclared,
    by simp [hinstance], hmethod, by simp [hstatic]⟩

/-- **Arguments**: in the result for a built program, a method that a call is linked to has a parameter for
    each parameter type of the reference. If the reference means a declaration, as it does for static and
    special calls, there are as many arguments as parameters and each argument flows into its parameter.
    In any case it does so as far as both are there. -/
theorem analyze_arguments (hp : p.Built) (hmain : p.main = some entry) (options : Options) :
    ∃ run, p.analyze options = .ok run ∧ ∀ e ∈ run.result.calls.edges, ∃ call method,
      p.stmt? e.site = some (.invoke call) ∧ call.kind = e.kind ∧ p.method? e.callee = some method ∧
      method.params.length = call.target.subsignature.paramCount ∧
      (e.kind = .static ∨ e.kind = .special → (p.resolve call.target).isSome = true) ∧
      ((p.resolve call.target).isSome = true → List.Forall₂
        (fun arg param => run.result.flow.hasFlow (.var arg) (.var param) = true)
        call.args method.params) ∧
      ∀ (k : Nat) arg param, call.args[k]? = some arg → method.params[k]? = some param →
        run.result.flow.hasFlow (.var arg) (.var param) = true := by
  have hcoherent := hp.coherent
  obtain ⟨run, hrun, hlinks⟩ := hp.analyze_links hmain options
  refine ⟨run, hrun, ?_⟩
  intro e he
  obtain ⟨call, method, h⟩ := hlinks e he
  refine ⟨call, method, h.site, h.kind, h.callee, h.length_params hcoherent, h.resolve_isSome, ?_, ?_⟩
  · exact h.forall₂_args hcoherent (hp.callValid h.site)
  · intro k arg param
    exact h.hasFlow_of_getElem?

theorem analyze_arguments_relay :
    ∃ run, relay.analyze { order := .lifo } = .ok run ∧
      run.result.calls.edges = [⟨.static, ⟨⟨2⟩, 2⟩, ⟨1⟩⟩, ⟨.virtual, ⟨⟨2⟩, 1⟩, ⟨0⟩⟩] ∧
      ∀ e ∈ run.result.calls.edges, ∃ call method,
      relay.stmt? e.site = some (.invoke call) ∧ call.kind = e.kind ∧
      relay.method? e.callee = some method ∧
      method.params.length = call.target.subsignature.paramCount ∧
      (e.kind = .static ∨ e.kind = .special → (relay.resolve call.target).isSome = true) ∧
      ((relay.resolve call.target).isSome = true → List.Forall₂
        (fun arg param => run.result.flow.hasFlow (.var arg) (.var param) = true)
        call.args method.params) ∧
      ∀ (k : Nat) arg param, call.args[k]? = some arg → method.params[k]? = some param →
        run.result.flow.hasFlow (.var arg) (.var param) = true := by
  obtain ⟨run, hrun, hedges⟩ := analyze_arguments relay_built relay_main { order := .lifo }
  exact ⟨run, hrun, (edges_of_analyze relay_main hrun).trans (edges_relay _), hedges⟩

/-- An argument may have no parameter to flow into. -/
theorem stray_drops_argument :
    stray.Built ∧ stray.main = some ⟨1⟩ ∧ ∃ run, stray.analyze {} = .ok run ∧
      ∃ e ∈ run.result.calls.edges, ∃ call method, stray.stmt? e.site = some (.invoke call) ∧
        stray.method? e.callee = some method ∧ call.args.length ≠ method.params.length := by
  obtain ⟨hbuilt, hmain, run, hrun, hedge⟩ := analyze_stray
  have hstmt : stray.stmt? ⟨⟨1⟩, 1⟩ =
      some (.invoke ⟨.virtual, ⟨⟨1⟩, ⟨"void", "run", []⟩⟩, some ⟨0⟩, [⟨0⟩], none⟩) := by
    decide +kernel
  have hmap : (stray.method? ⟨0⟩).map Method.params = some [] := by decide +kernel
  obtain ⟨method, hmethod, hparams⟩ := Option.map_eq_some_iff.1 hmap
  exact ⟨hbuilt, hmain, run, hrun, _, hedge, _, method, hstmt, hmethod, by simp [hparams]⟩

end Program

end PointsTo
