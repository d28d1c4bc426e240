import PointsTo.Proofs.CallTargets

/-!
# The methods that run

Resolution may find an abstract declaration, and dispatch never does. A static call goes through resolution
all the same, but validation makes sure that the declaration found is static, and no abstract method is. So
whatever a call is linked to can run. The entry method is static as well, hence every reachable method can
run.

Both lookups search the class where they start and its supertypes for one subsignature. The method that a
call is linked to therefore has the subsignature of the reference, and is declared by the class where the
search starts or by a class that it inherits from.

- `Program.Inherited`: a class has a method.
- `Result.SearchStart`: the class where the search for the method of a call starts.
- `Derivable.concrete_of_reachable`: reachable methods can run.
- `Program.analyze_callees`: the methods that the call edges of a result lead to.
- `Program.greeter`: a program with calls on interfaces and arrays.
-/

namespace PointsTo

/-! ## §1 Lookups -/

namespace Program

variable {p : Program} {call : Invoke} {c : ClassId} {s : Subsignature} {m : MethodId} {ty : Ty}

/-- A method of the program is declared under a subsignature by a class or by one that it inherits from. -/
def Inherited (p : Program) (c : ClassId) (s : Subsignature) (m : MethodId) : Prop :=
  ∃ method, p.method? m = some method ∧ method.subsignature = s ∧ p.isSubclass c method.owner = true

/-- The class where the search for a method of an object starts; arrays have the methods of the root
    class. -/
def methodClass? (p : Program) : Ty → Option ClassId
  | .ofClass c => some c
  | .array _ => p.objectClass

theorem dispatchOnType_eq_bind : p.dispatchOnType ty s = (p.methodClass? ty).bind (p.dispatch · s) := by
  cases ty <;> rfl

/-- The methods that a class sees are inherited. -/
theorem Coherent.inherited_of_mem (hp : p.Coherent) (h : m ∈ p.visibleMethods c s) :
    p.Inherited c s m := by
  obtain ⟨owner, howner, hdeclared⟩ := List.mem_filterMap.1 h
  obtain ⟨method, hmethod, rfl, hsubsignature⟩ := hp.declaredMethod.1 hdeclared
  refine ⟨method, hmethod, hsubsignature, ?_⟩
  -- the search goes through the superclasses and then through the superinterfaces
  rw [List.mem_append] at howner
  simpa [isSubclass] using howner

theorem Coherent.inherited_of_resolve (hp : p.Coherent) {ref : MethodRef}
    (h : p.resolve ref = some m) : p.Inherited ref.start ref.subsignature m :=
  hp.inherited_of_mem (List.mem_of_head? h)

theorem Coherent.inherited_of_dispatch (hp : p.Coherent) (h : p.dispatch c s = some m) :
    p.Inherited c s m :=
  hp.inherited_of_mem (List.mem_of_find?_eq_some h)

theorem concrete_of_dispatch (h : p.dispatch c s = some m) : p.isConcrete m = true :=
  List.find?_some h

/-- Static methods can run, because abstract methods are not static. -/
theorem Coherent.concrete_of_static (hp : p.Coherent) {method : Method} (hm : p.method? m = some method)
    (hstatic : method.isStatic = true) : p.isConcrete m = true := by
  have habstract : method.isAbstract = false := by
    by_contra h
    have hnot := hp.notStatic hm (by simpa using h)
    simp [hstatic] at hnot
  simp [isConcrete, hm, habstract]

/-- Whatever an instance call is found to run can run. -/
theorem Target.concrete (h : p.Target call ty m) : p.isConcrete m = true := by
  have hdispatched : p.dispatchOnType ty call.target.subsignature = some m → p.isConcrete m = true := by
    intro hdispatch
    rw [dispatchOnType_eq_bind] at hdispatch
    obtain ⟨start, _, hstart⟩ := Option.bind_eq_some_iff.1 hdispatch
    exact concrete_of_dispatch hstart
  cases h with
  | special _ hdispatch => exact concrete_of_dispatch hdispatch
  | virtual _ hdispatch => exact hdispatched hdispatch
  | interface _ hdispatch => exact hdispatched hdispatch

/-- A static call that passed validation runs a static method. -/
theorem CallValid.concrete_of_resolve (h : p.CallValid call) (hp : p.Coherent) (hkind : call.kind = .static)
    (hresolve : p.resolve call.target = some m) : p.isConcrete m = true := by
  obtain ⟨method, hmethod, hstatic, _⟩ := h.target m hresolve
  exact hp.concrete_of_static hmethod (hstatic.2 hkind)

theorem exists_of_concrete (h : p.isConcrete m = true) :
    ∃ method, p.method? m = some method ∧ method.isAbstract = false := by
  unfold isConcrete at h
  cases hm : p.method? m with
  | none => simp [hm] at h
  | some method => exact ⟨method, rfl, by simpa [hm] using h⟩

end Program

/-! ## §2 Derivable calls -/

namespace Derivable

variable {p : Program} {entry m : MethodId} {e : CallEdge}

theorem concrete_of_calls (hp : p.Built) (h : Derivable p entry (.calls e)) :
    p.isConcrete e.callee = true := by
  obtain ⟨himmediate⟩ := h
  cases himmediate with
  | callStatic _ hstmt hkind hresolve =>
    exact (hp.callValid hstmt).concrete_of_resolve hp.coherent hkind hresolve
  -- dispatch skips abstract declarations
  | callInstance _ _ _ _ _ htarget => exact htarget.concrete

/-- **Reachable methods can run**: there are two ways to become reachable, to be the entry method and to be
    called. -/
theorem concrete_of_reachable (hp : p.Built) (hmain : p.main = some entry)
    (h : Derivable p entry (.reachable m)) : p.isConcrete m = true := by
  obtain ⟨himmediate⟩ := h
  cases himmediate with
  | entry =>
    obtain ⟨method, hmethod, hstatic⟩ := hp.complete.valid.main _ hmain
    exact hp.coherent.concrete_of_static hmethod hstatic
  | callee hcalls => exact hcalls.concrete_of_calls hp

end Derivable

/-! ## §3 Where the search starts -/

/-- The class where the search for the method of a call starts: the class of the reference, or the class of
    an object that the receiver points to. -/
inductive Result.SearchStart (r : Result) (p : Program) (call : Invoke) : ClassId → Prop
  | reference : call.kind = .static ∨ call.kind = .special → SearchStart r p call call.target.start
  | receiver {v : VarId} {o : ObjId} {obj : Obj} {c : ClassId} :
      call.kind = .virtual ∨ call.kind = .interface → call.receiver = some v →
      o ∈ r.pointsTo (.var v) → r.heap.obj? o = some obj → p.methodClass? obj.ty = some c →
      SearchStart r p call c

namespace Result

variable {p : Program} {entry : MethodId} {r : Result} {e : CallEdge}

/-- An object that can be derived for a variable is one that the variable points to. -/
theorem Exact.exists_object (h : r.Exact p entry) {v : VarId} {site : Location} {ty : Ty}
    (hfact : Derivable p entry (.pointsTo (.var v) site)) (hty : p.allocated? site = some ty) :
    ∃ o obj, o ∈ r.pointsTo (.var v) ∧ r.heap.obj? o = some obj ∧ obj.ty = ty := by
  obtain ⟨o, hsite, ho⟩ := ((h.facts _).2 hfact).of_pointsTo_var
  obtain ⟨obj, hobj, rfl⟩ := Option.map_eq_some_iff.1 hsite
  -- the type of an object is the one that is allocated at its site
  have htyped := h.typed hobj
  rw [hty, Option.some.injEq] at htyped
  exact ⟨o, obj, ho, hobj, htyped.symm⟩

/-- The target of an instance call is inherited by a class where its search starts. -/
theorem Exact.inherited_of_target (h : r.Exact p entry) (hp : p.Coherent) {call : Invoke} {v : VarId}
    {site : Location} {ty : Ty} {m : MethodId} (hreceiver : call.receiver = some v)
    (hfact : Derivable p entry (.pointsTo (.var v) site)) (hty : p.allocated? site = some ty)
    (htarget : p.Target call ty m) :
    ∃ c, r.SearchStart p call c ∧ p.Inherited c call.target.subsignature m := by
  obtain ⟨o, obj, ho, hobj, rfl⟩ := h.exists_object hfact hty
  have hdispatched : call.kind = .virtual ∨ call.kind = .interface →
      p.dispatchOnType obj.ty call.target.subsignature = some m →
      ∃ c, r.SearchStart p call c ∧ p.Inherited c call.target.subsignature m := by
    intro hkind hdispatch
    rw [Program.dispatchOnType_eq_bind] at hdispatch
    obtain ⟨c, hc, hstart⟩ := Option.bind_eq_some_iff.1 hdispatch
    exact ⟨c, .receiver hkind hreceiver ho hobj hc, hp.inherited_of_dispatch hstart⟩
  cases htarget with
  -- the search for a special call does not look at the object
  | special hkind hdispatch => exact ⟨_, .reference (Or.inr hkind), hp.inherited_of_dispatch hdispatch⟩
  | virtual hkind hdispatch => exact hdispatched (Or.inl hkind) hdispatch
  | interface hkind hdispatch => exact hdispatched (Or.inr hkind) hdispatch

/-- A call edge leads from a call of a reachable method to a method that a class inherits where the search
    starts. -/
theorem Exact.exists_searchStart (h : r.Exact p entry) (hp : p.Coherent) (he : e ∈ r.calls.edges) :
    e.site.method ∈ r.calls.methods ∧ ∃ call c, p.stmt? e.site = some (.invoke call) ∧
      call.kind = e.kind ∧ r.SearchStart p call c ∧ p.Inherited c call.target.subsignature e.callee := by
  obtain ⟨himmediate⟩ := (h.facts (.calls e)).1 he
  cases himmediate with
  | callStatic hmethod hstmt hkind hresolve =>
    exact ⟨(h.facts _).2 hmethod, _, _, hstmt, hkind, .reference (Or.inl hkind),
      hp.inherited_of_resolve hresolve⟩
  | callInstance hmethod hstmt hreceiver hfact hty htarget =>
    obtain ⟨c, hstart, hinherited⟩ := h.inherited_of_target hp hreceiver hfact hty htarget
    exact ⟨(h.facts _).2 hmethod, _, c, hstmt, rfl, hstart, hinherited⟩

end Result

/-! ## §4 A program -/

/-- Calls that declare a root class with a method that returns its receiver, an interface with a method that
    has a body, a class `A` that implements it, and an entry method. The entry method calls these methods on
    an object of `A` and on an array, in all ways that look at the receiver or dispatch from the reference.
    What comes back is assigned to the variable of the object, so that the array arrives there late. Arrays
    do not have the method of the interface. -/
def Builder.greeterCalls : List Builder.Call :=
  [.addClass "Object" none, .addInterface "Greeter" [], .addClass "A" (some ⟨0⟩),
   .addImplementation ⟨2⟩ ⟨1⟩, .addMethod ⟨0⟩ "Object self()" false, .append ⟨0⟩ (.ret (some ⟨0⟩)),
   .addMethod ⟨1⟩ "void greet()" false, .addMethod ⟨0⟩ "void main()" true, .localVar ⟨2⟩ "a",
   .localVar ⟨2⟩ "all", .append ⟨2⟩ (.new ⟨2⟩ (.ofClass ⟨2⟩)),
   .append ⟨2⟩ (.new ⟨3⟩ (.array (.ofClass ⟨2⟩))),
   .append ⟨2⟩ (.invoke ⟨.interface, ⟨⟨1⟩, ⟨"void", "greet", []⟩⟩, some ⟨2⟩, [], none⟩),
   .append ⟨2⟩ (.invoke ⟨.virtual, ⟨⟨0⟩, ⟨"Object", "self", []⟩⟩, some ⟨3⟩, [], some ⟨2⟩⟩),
   .append ⟨2⟩ (.invoke ⟨.special, ⟨⟨2⟩, ⟨"Object", "self", []⟩⟩, some ⟨2⟩, [], none⟩),
   .append ⟨2⟩ (.invoke ⟨.virtual, ⟨⟨2⟩, ⟨"void", "greet", []⟩⟩, some ⟨3⟩, [], none⟩),
   .setMain ⟨2⟩]

namespace Program

/-- The program that these calls declare. -/
def greeter : Program := (Builder.after Builder.greeterCalls).program.indexed

theorem greeter_built : greeter.Built := built_indexed (by decide +kernel)

theorem greeter_main : greeter.main = some ⟨2⟩ := by decide +kernel

/-- The newest work item first. -/
theorem edges_greeter {order : WorkOrder} (horder : order = .lifo) :
    (greeter.solve order ⟨2⟩).calls.edges =
      [⟨.virtual, ⟨⟨2⟩, 3⟩, ⟨0⟩⟩, ⟨.special, ⟨⟨2⟩, 4⟩, ⟨0⟩⟩, ⟨.interface, ⟨⟨2⟩, 2⟩, ⟨1⟩⟩] := by
  subst horder
  decide +kernel

/-! ## §5 The analysis -/

variable {p : Program} {entry : MethodId}

/-- **Callees**: in the result for a built program, every reachable method can run, and every call edge leads
    from a call of its kind in a reachable method to a method with the subsignature of the call. That method
    is declared by the class where the search starts or by a class that it inherits from. -/
theorem analyze_callees (hp : p.Built) (hmain : p.main = some entry) (options : Options) :
    ∃ run, p.analyze options = .ok run ∧
      (∀ m ∈ run.result.calls.methods, ∃ method, p.method? m = some method ∧
        method.isAbstract = false) ∧
      ∀ e ∈ run.result.calls.edges, e.site.method ∈ run.result.calls.methods ∧
        ∃ call method c, p.stmt? e.site = some (.invoke call) ∧ call.kind = e.kind ∧
          p.method? e.callee = some method ∧ method.subsignature = call.target.subsignature ∧
          run.result.SearchStart p call c ∧ p.isSubclass c method.owner = true := by
  have hwell := hp.wellFormed
  obtain ⟨run, hrun, hresult⟩ := analyze_eq hmain options
  have hexact := solve_exact hwell (hwell.mainExists hmain) options.order
  rw [← hresult] at hexact
  refine ⟨run, hrun, ?_, ?_⟩
  · intro m hm
    have hderivable := (hexact.facts (.reachable m)).1 hm
    exact exists_of_concrete (hderivable.concrete_of_reachable hp hmain)
  · intro e he
    obtain ⟨hcaller, call, c, hstmt, hkind, hstart, method, hmethod, hsubsignature, howner⟩ :=
      hexact.exists_searchStart hp.coherent he
    exact ⟨hcaller, call, method, c, hstmt, hkind, hmethod, hsubsignature, hstart, howner⟩

theorem analyze_callees_greeter :
    ∃ run, greeter.analyze { order := .lifo } = .ok run ∧
      run.result.calls.edges =
        [⟨.virtual, ⟨⟨2⟩, 3⟩, ⟨0⟩⟩, ⟨.special, ⟨⟨2⟩, 4⟩, ⟨0⟩⟩, ⟨.interface, ⟨⟨2⟩, 2⟩, ⟨1⟩⟩] ∧
      (∀ m ∈ run.result.calls.methods, ∃ method, greeter.method? m = some method ∧
        method.isAbstract = false) ∧
      ∀ e ∈ run.result.calls.edges, e.site.method ∈ run.result.calls.methods ∧
        ∃ call method c, greeter.stmt? e.site = some (.invoke call) ∧ call.kind = e.kind ∧
          greeter.method? e.callee = some method ∧
          method.subsignature = call.target.subsignature ∧
          run.result.SearchStart greeter call c ∧ greeter.isSubclass c method.owner = true := by
  obtain ⟨run, hrun, hedges⟩ := analyze_callees greeter_built greeter_main { order := .lifo }
  exact ⟨run, hrun, (edges_of_analyze greeter_main hrun).trans (edges_greeter rfl), hedges⟩

end Program

end PointsTo
