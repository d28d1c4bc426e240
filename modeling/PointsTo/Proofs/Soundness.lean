import Mathlib.Data.List.Zip
import PointsTo.Proofs.Execution
import PointsTo.Proofs.Fixpoint

/-!
# Results are sound

A result covers a state of an execution if every object of the state has an abstract object, whatever is
stored anywhere in the state is in the points-to set of the place where it is stored, and the frames are
accounted for by reachable methods and call edges. The initial state is covered, and the rules say just
what is needed for every statement to lead from covered states to covered states.

- `Result.Covers`: the abstraction relation.
- `Result.Covers.execute`: every statement preserves it.
- `Program.analyze_sound`: the result of an analysis covers every state of every execution.
-/

namespace PointsTo

/-! ## §1 The abstraction relation -/

/-- The abstract object of the object at an address. -/
def Memory.object? (c : Memory) (r : Result) (a : Nat) : Option ObjId :=
  (c.heap[a]?).bind fun cell => r.heap.at? cell.site

namespace Result

/-- Should the value refer to an object, then the pointer points to the abstract object. -/
def Allows (r : Result) (c : Memory) (pointer : Pointer) (value : Value) : Prop :=
  ∀ a, value = some a → ∃ o, c.object? r a = some o ∧ o ∈ r.pointsTo pointer

/-- The result accounts for everything in a state of an execution. -/
structure Covers (r : Result) (p : Program) (c : Memory) : Prop where
  methods : ∀ frame ∈ c.frames, frame.method ∈ r.calls.methods
  /-- The call that created a frame was made by a frame of the calling method and is in the call
      graph. -/
  callers : ∀ frame ∈ c.frames, ∀ j site, frame.caller = some (j, site) →
    (∃ caller, c.frames[j]? = some caller ∧ caller.method = site.method) ∧
    ∃ call, p.stmt? site = some (.invoke call) ∧ ⟨call.kind, site, frame.method⟩ ∈ r.calls.edges
  /-- Every object has an abstract object with the same allocation site and type. -/
  objects : ∀ cell ∈ c.heap, ∃ o, r.heap.at? cell.site = some o ∧
    r.heap.obj? o = some ⟨cell.site, cell.ty⟩
  vars : ∀ frame ∈ c.frames, ∀ v, r.Allows c (.var v) (frame.env v)
  statics : ∀ f, r.Allows c (.staticField f) (c.statics f)
  fields : ∀ cell ∈ c.heap, ∀ o, r.heap.at? cell.site = some o →
    ∀ f, r.Allows c (.field o f) (cell.fields f)
  slots : ∀ cell ∈ c.heap, ∀ o, r.heap.at? cell.site = some o →
    ∀ i, r.Allows c (.element o) (cell.slots i)

variable {r : Result} {p : Program} {entry : MethodId} {c c' : Memory} {pointer : Pointer}
  {value : Value}

theorem allows_none : r.Allows c pointer none := by
  intro a ha
  exact absurd ha.symm (Option.some_ne_none a)

theorem Allows.mono (h : r.Allows c pointer value)
    (hobject : ∀ a o, c.object? r a = some o → c'.object? r a = some o) :
    r.Allows c' pointer value := by
  intro a ha
  obtain ⟨o, ho, hmem⟩ := h a ha
  exact ⟨o, hobject a o ho, hmem⟩

/-- Values flow along edges. -/
theorem Fixpoint.allows (h : r.Fixpoint p entry) {source target : Pointer}
    (hflow : r.flow.hasFlow source target = true) (hvalue : r.Allows c source value) :
    r.Allows c target value := by
  intro a ha
  obtain ⟨o, ho, hmem⟩ := hvalue a ha
  exact ⟨o, ho, h.flow hflow hmem⟩

theorem allows_assigned {α : Type} [DecidableEq α] {f : α → Value} {place : α → Pointer} {x : α}
    (h : ∀ y, r.Allows c (place y) (f y)) (hx : r.Allows c (place x) value) (y : α) :
    r.Allows c (place y) (assigned f x value y) := by
  unfold assigned
  split
  · rename_i heq
    exact heq ▸ hx
  · exact h y

theorem mem_modify {α : Type} {l : List α} {i : Nat} {f : α → α} {x : α} (h : x ∈ l.modify i f) :
    x ∈ l ∨ ∃ y, l[i]? = some y ∧ x = f y := by
  obtain ⟨j, hj⟩ := List.mem_iff_getElem?.1 h
  rw [List.getElem?_modify] at hj
  split at hj
  · rename_i hij
    subst hij
    obtain ⟨y, hy, rfl⟩ := Option.map_eq_some_iff.1 hj
    exact Or.inr ⟨y, hy, rfl⟩
  · exact Or.inl (List.mem_of_getElem? (by simpa using hj))

/-! ## §2 Changes keep states covered -/

namespace Covers

theorem initial (h : r.Fixpoint p entry) : r.Covers p (Memory.initial entry) where
  methods frame hframe := by
    rw [List.mem_singleton.1 hframe]
    exact h.entry
  callers frame hframe j site hcaller := by
    rw [List.mem_singleton.1 hframe] at hcaller
    exact absurd hcaller.symm (Option.some_ne_none _)
  objects cell hcell := absurd hcell List.not_mem_nil
  vars frame hframe v := by
    rw [List.mem_singleton.1 hframe]
    exact allows_none
  statics _ := allows_none
  fields cell hcell := absurd hcell List.not_mem_nil
  slots cell hcell := absurd hcell List.not_mem_nil

/-- Writing a value that the variable may have. -/
theorem assign (hc : r.Covers p c) {i : Nat} {v : VarId} (hvalue : r.Allows c (.var v) value) :
    r.Covers p (c.assign i v value) where
  methods frame hframe := by
    rcases mem_modify hframe with hold | ⟨old, hold, rfl⟩
    · exact hc.methods frame hold
    · exact hc.methods old (List.mem_of_getElem? hold)
  callers frame hframe j site hcaller := by
    -- a write changes neither the method of a frame nor its caller
    have hold : ∃ old ∈ c.frames, old.method = frame.method ∧ old.caller = frame.caller := by
      rcases mem_modify hframe with hold | ⟨old, hold, rfl⟩
      · exact ⟨frame, hold, rfl, rfl⟩
      · exact ⟨old, List.mem_of_getElem? hold, rfl, rfl⟩
    obtain ⟨old, hmem, hmethod, hsame⟩ := hold
    obtain ⟨⟨caller, hj, hsite⟩, hcall⟩ := hc.callers old hmem j site (hsame.trans hcaller)
    refine ⟨?_, hmethod ▸ hcall⟩
    show ∃ caller, (c.frames.modify i _)[j]? = some caller ∧ _
    rw [List.getElem?_modify, hj]
    exact ⟨_, rfl, by split <;> exact hsite⟩
  objects := hc.objects
  vars frame hframe w := by
    rcases mem_modify hframe with hold | ⟨old, hold, rfl⟩
    · exact hc.vars frame hold w
    · exact allows_assigned (hc.vars old (List.mem_of_getElem? hold)) hvalue w
  statics := hc.statics
  fields := hc.fields
  slots := hc.slots

/-- Creating an object of a site that has an abstract object. -/
theorem allocate (hc : r.Covers p c) {site : Location} {ty : Ty} {o : ObjId}
    (hat : r.heap.at? site = some o) (hobj : r.heap.obj? o = some ⟨site, ty⟩) :
    r.Covers p (c.allocate site ty) := by
  have hobject : ∀ a o, c.object? r a = some o → (c.allocate site ty).object? r a = some o := by
    intro a o ho
    obtain ⟨cell, hcell, hsite⟩ := Option.bind_eq_some_iff.1 ho
    refine Option.bind_eq_some_iff.2 ⟨cell, ?_, hsite⟩
    exact getElem?_of_isPrefix (List.prefix_append _ _) hcell
  -- the new object has nothing in its fields and slots, so they need not be looked at
  have hcells : ∀ cell ∈ (c.allocate site ty).heap, cell ∈ c.heap ∨ cell = { site, ty } := by
    intro cell hcell
    exact (List.mem_append.1 hcell).imp_right List.mem_singleton.1
  refine ⟨hc.methods, hc.callers, ?_, ?_, ?_, ?_, ?_⟩
  · intro cell hcell
    rcases hcells cell hcell with hold | rfl
    · exact hc.objects cell hold
    · exact ⟨o, hat, hobj⟩
  · exact fun frame hframe v => (hc.vars frame hframe v).mono hobject
  · exact fun f => (hc.statics f).mono hobject
  · intro cell hcell o' ho' f
    rcases hcells cell hcell with hold | rfl
    · exact (hc.fields cell hold o' ho' f).mono hobject
    · exact allows_none
  · intro cell hcell o' ho' i
    rcases hcells cell hcell with hold | rfl
    · exact (hc.slots cell hold o' ho' i).mono hobject
    · exact allows_none

/-- A variable that is not null refers to an object that its points-to set has. -/
theorem deref (hc : r.Covers p c) {frame : Frame} (hframe : frame ∈ c.frames) {v : VarId}
    {cell : Cell} (h : c.deref? frame v = some cell) :
    cell ∈ c.heap ∧ ∃ o, r.heap.at? cell.site = some o ∧ o ∈ r.pointsTo (.var v) := by
  obtain ⟨a, ha, hcell⟩ := Option.bind_eq_some_iff.1 h
  obtain ⟨o, ho, hmem⟩ := hc.vars frame hframe v a ha
  rw [Memory.object?, hcell, Option.bind_some] at ho
  exact ⟨List.mem_of_getElem? hcell, o, ho, hmem⟩

/-- Changing the contents of the object that a variable refers to. -/
theorem modify (hc : r.Covers p c) {frame : Frame} (hframe : frame ∈ c.frames) {v : VarId}
    {f : Cell → Cell} (hsite : ∀ cell, (f cell).site = cell.site) (hty : ∀ cell, (f cell).ty = cell.ty)
    (hfields : ∀ cell ∈ c.heap, ∀ o, r.heap.at? cell.site = some o → o ∈ r.pointsTo (.var v) →
      ∀ g, r.Allows c (.field o g) ((f cell).fields g))
    (hslots : ∀ cell ∈ c.heap, ∀ o, r.heap.at? cell.site = some o → o ∈ r.pointsTo (.var v) →
      ∀ i, r.Allows c (.element o) ((f cell).slots i)) :
    r.Covers p (c.modify frame v f) := by
  unfold Memory.modify
  split
  · exact hc
  · rename_i a ha
    -- abstract objects depend on sites only, and these stay
    have hobject : ∀ a' o, c.object? r a' = some o →
        ({ c with heap := c.heap.modify a f } : Memory).object? r a' = some o := by
      intro a' o ho
      obtain ⟨cell, hcell, hat⟩ := Option.bind_eq_some_iff.1 ho
      refine Option.bind_eq_some_iff.2 ⟨if a = a' then f cell else cell, ?_, ?_⟩
      · rw [List.getElem?_modify, hcell]
        split <;> rfl
      · split
        · rwa [hsite]
        · exact hat
    -- the object changed is one that the variable points to
    have hchanged : ∀ cell, c.heap[a]? = some cell →
        cell ∈ c.heap ∧ ∃ o, r.heap.at? cell.site = some o ∧ o ∈ r.pointsTo (.var v) := by
      intro cell hcell
      exact hc.deref hframe (by rw [Memory.deref?, ha, Option.bind_some, hcell])
    refine ⟨hc.methods, hc.callers, ?_, ?_, ?_, ?_, ?_⟩
    · intro cell hcell
      rcases mem_modify hcell with hold | ⟨old, hold, rfl⟩
      · exact hc.objects cell hold
      · rw [hsite, hty]
        exact hc.objects old (List.mem_of_getElem? hold)
    · exact fun frame hframe v => (hc.vars frame hframe v).mono hobject
    · exact fun f => (hc.statics f).mono hobject
    · intro cell hcell o ho g
      rcases mem_modify hcell with hold | ⟨old, hold, rfl⟩
      · exact (hc.fields cell hold o ho g).mono hobject
      · obtain ⟨hmem, o', ho', hpoints⟩ := hchanged old hold
        rw [hsite] at ho
        cases ho.symm.trans ho'
        exact (hfields old hmem o ho hpoints g).mono hobject
    · intro cell hcell o ho i
      rcases mem_modify hcell with hold | ⟨old, hold, rfl⟩
      · exact (hc.slots cell hold o ho i).mono hobject
      · obtain ⟨hmem, o', ho', hpoints⟩ := hchanged old hold
        rw [hsite] at ho
        cases ho.symm.trans ho'
        exact (hslots old hmem o ho hpoints i).mono hobject

end Covers

/-! ## §3 Calls and returns -/

/-- What a call runs: the declaration that it refers to, or the target for its receiver. -/
theorem callee?_cases {frame : Frame} {call : Invoke} {m : MethodId} {receiver : Value}
    (h : c.callee? p frame call = some (m, receiver)) :
    call.kind = .static ∧ p.resolve call.target = some m ∧ receiver = none ∨
      ∃ v a, call.receiver = some v ∧ frame.env v = some a ∧ receiver = some a ∧
        ∀ cell, c.heap[a]? = some cell → p.Target call cell.ty m := by
  unfold Memory.callee? at h
  split at h
  case h_1 hkind =>
    obtain ⟨m', hm', heq⟩ := Option.map_eq_some_iff.1 h
    cases heq
    exact Or.inl ⟨hkind, hm', rfl⟩
  case h_2 hkind =>
    simp only [Option.bind_eq_bind, Option.bind_eq_some_iff, Option.pure_def, Option.some.injEq,
      Prod.mk.injEq] at h
    obtain ⟨a, ⟨v, hv, ha⟩, m', hm', rfl, rfl⟩ := h
    exact Or.inr ⟨v, a, hv, ha, rfl, fun _ _ => .special hkind hm'⟩
  all_goals
    rename_i hkind
    simp only [Option.bind_eq_bind, Option.bind_eq_some_iff, Option.pure_def, Option.some.injEq,
      Prod.mk.injEq] at h
    obtain ⟨a, ⟨v, hv, ha⟩, cell, hcell, m', hm', rfl, rfl⟩ := h
    refine Or.inr ⟨v, a, hv, ha, rfl, fun cell' hcell' => ?_⟩
    cases hcell.symm.trans hcell'
  · exact .virtual hkind hm'
  · exact .interface hkind hm'

/-- A call that is made is in the call graph, and its receiver is that of the method called. -/
theorem Covers.callee (h : r.Fixpoint p entry) (hc : r.Covers p c) {frame : Frame}
    (hframe : frame ∈ c.frames) {site : Location} {call : Invoke} {m : MethodId} {receiver : Value}
    (hsite : site.method = frame.method) (hstmt : p.stmt? site = some (.invoke call))
    (hcallee : c.callee? p frame call = some (m, receiver)) :
    ⟨call.kind, site, m⟩ ∈ r.calls.edges ∧ ∀ {method self}, p.method? m = some method →
      method.self = some self → r.Allows c (.var self) receiver := by
  have hmethod : site.method ∈ r.calls.methods := hsite ▸ hc.methods frame hframe
  rcases callee?_cases hcallee with ⟨hkind, hresolve, rfl⟩ | ⟨v, a, hv, ha, rfl, htarget⟩
  · exact ⟨hkind ▸ h.callStatic hmethod hstmt hkind hresolve, fun _ _ => allows_none⟩
  · obtain ⟨o, ho, hpoints⟩ := hc.vars frame hframe v a ha
    obtain ⟨cell, hcell, hat⟩ := Option.bind_eq_some_iff.1 ho
    obtain ⟨obj, hobj, hcalls⟩ := h.callInstance hmethod hstmt hv hpoints
    -- the abstract object has the type of the object, so the same method is found for it
    obtain ⟨o', hat', hobj'⟩ := hc.objects cell (List.mem_of_getElem? hcell)
    cases hat.symm.trans hat'
    cases hobj.symm.trans hobj'
    obtain ⟨hedge, hself⟩ := hcalls (htarget cell hcell)
    refine ⟨hedge, fun hm hs a' ha' => ?_⟩
    cases ha'
    exact ⟨o, ho, hself hm hs⟩

/-- The parameters of a method are given values that the rules let flow into them. -/
theorem allows_bindings (h : r.Fixpoint p entry) {frame : Frame} {call : Invoke} {method : Method}
    {receiver : Value} (hframe : ∀ v, r.Allows c (.var v) (frame.env v))
    (hpasses : r.Passes call method)
    (hself : ∀ self, method.self = some self → r.Allows c (.var self) receiver) (v : VarId) :
    r.Allows c (.var v) (Memory.bindings method receiver (call.args.map frame.env) v) := by
  unfold Memory.bindings
  split
  · rename_i hv
    exact hself v hv
  · intro a ha
    -- a parameter that is listed twice has the value of its first argument, which flows to it too
    obtain ⟨before, rest, hsplit, _⟩ := List.lookup_eq_some_iff.1 (Option.join_eq_some_iff.1 ha)
    have hmem : (v, some a) ∈ method.params.zip (call.args.map frame.env) := by
      rw [hsplit]
      exact List.mem_append_right before List.mem_cons_self
    rw [List.zip_map_right, List.mem_map] at hmem
    obtain ⟨⟨param, arg⟩, hzip, heq⟩ := hmem
    simp only [Prod.map_apply, id_eq, Prod.mk.injEq] at heq
    obtain ⟨rfl, henv⟩ := heq
    have hswap : (arg, param) ∈ call.args.zip method.params := by
      rw [← List.zip_swap]
      exact List.mem_map.2 ⟨(param, arg), hzip, rfl⟩
    exact h.allows (hpasses.argument hswap) (hframe arg) a henv

theorem Covers.enter (h : r.Fixpoint p entry) (hc : r.Covers p c) {i : Nat} {frame : Frame}
    (hi : c.frames[i]? = some frame) {site : Location} {call : Invoke}
    (hsite : site.method = frame.method) (hstmt : p.stmt? site = some (.invoke call)) :
    r.Covers p (c.enter p i frame site call) := by
  have hframe := List.mem_of_getElem? hi
  unfold Memory.enter
  split
  · exact hc
  · rename_i m receiver hcallee
    obtain ⟨hedge, hself⟩ := hc.callee h hframe hsite hstmt hcallee
    -- the call edge says all that is needed about the new frame
    obtain ⟨hreachable, call', method', hstmt', _, hmethod', hpasses⟩ := h.callee hedge
    cases hstmt.symm.trans hstmt'
    split
    · exact hc
    · rename_i method hmethod
      cases hmethod.symm.trans hmethod'
      refine ⟨?_, ?_, hc.objects, ?_, hc.statics, hc.fields, hc.slots⟩
      · intro frame' hframe'
        rcases List.mem_append.1 hframe' with hold | hnew
        · exact hc.methods frame' hold
        · rw [List.mem_singleton.1 hnew]
          exact hreachable
      · intro frame' hframe' j site' hcaller
        rcases List.mem_append.1 hframe' with hold | hnew
        · obtain ⟨⟨caller, hj, hmethod⟩, hcall⟩ := hc.callers frame' hold j site' hcaller
          exact ⟨⟨caller, getElem?_of_isPrefix (List.prefix_append _ _) hj, hmethod⟩, hcall⟩
        · rw [List.mem_singleton.1 hnew] at hcaller ⊢
          cases hcaller
          exact ⟨⟨frame, getElem?_of_isPrefix (List.prefix_append _ _) hi, hsite.symm⟩,
            call, hstmt, hedge⟩
      · intro frame' hframe' v
        rcases List.mem_append.1 hframe' with hold | hnew
        · exact hc.vars frame' hold v
        · rw [List.mem_singleton.1 hnew]
          exact allows_bindings h (hc.vars frame hframe) hpasses (fun _ hs => hself hmethod hs) v

/-- A returned value goes to the result of the call that the call graph has for the frame. -/
theorem Covers.handBack (h : r.Fixpoint p entry) (hc : r.Covers p c) {frame : Frame}
    (hframe : frame ∈ c.frames) {loc : Location} {v : VarId} (hloc : loc.method = frame.method)
    (hstmt : p.stmt? loc = some (.ret (some v))) : r.Covers p (c.handBack p frame (frame.env v)) := by
  unfold Memory.handBack
  split
  · exact hc
  · rename_i j site hcaller
    -- the frame remembers its call, and the call graph has the edge for it
    obtain ⟨_, call, hcall, hedge⟩ := hc.callers frame hframe j site hcaller
    simp only [hcall]
    split
    · exact hc
    · rename_i result hresult
      obtain ⟨_, call', method, hcall', _, hmethod, hpasses⟩ := h.callee hedge
      cases hcall.symm.trans hcall'
      obtain ⟨method', hmethod', hbody⟩ := Program.stmt?_eq_some_iff.1 hstmt
      rw [hloc, hmethod, Option.some.injEq] at hmethod'
      subst hmethod'
      have hflow := hpasses.result (List.mem_of_getElem? hbody) hresult
      exact hc.assign (h.allows hflow (hc.vars frame hframe v))

/-! ## §4 Statements and executions -/

/-- **Statements**: whatever statement of its method a frame executes, the state stays covered. -/
theorem Covers.execute (h : r.Fixpoint p entry) (hc : r.Covers p c) {i : Nat} {frame : Frame}
    (hi : c.frames[i]? = some frame) {loc : Location} {stmt : Stmt} (slot : Nat)
    (hloc : loc.method = frame.method) (hstmt : p.stmt? loc = some stmt) :
    r.Covers p (c.execute p i frame loc slot stmt) := by
  have hframe := List.mem_of_getElem? hi
  have hmethod : loc.method ∈ r.calls.methods := hloc ▸ hc.methods frame hframe
  have hvars := hc.vars frame hframe
  cases stmt with
  | new lhs ty =>
    obtain ⟨o, hat, hobj, ho⟩ := h.new hmethod hstmt
    refine (hc.allocate hat hobj).assign fun a ha => ⟨o, ?_, ho⟩
    cases ha
    simp [Memory.object?, Memory.allocate, hat]
  | copy lhs rhs => exact hc.assign (h.allows (h.copy hmethod hstmt) (hvars rhs))
  | cast lhs rhs ty => exact hc.assign (h.allows (h.cast hmethod hstmt) (hvars rhs))
  | loadField lhs base f =>
    cases base with
    | none => exact hc.assign (h.allows (h.loadStatic hmethod hstmt) (hc.statics f))
    | some base =>
      simp only [Memory.execute]
      split
      · exact hc
      · rename_i cell hcell
        obtain ⟨hmem, o, hat, ho⟩ := hc.deref hframe hcell
        exact hc.assign (h.allows (h.loadField hmethod hstmt ho) (hc.fields cell hmem o hat f))
  | storeField base f rhs =>
    cases base with
    | none =>
      have hvalue := h.allows (h.storeStatic hmethod hstmt) (hvars rhs)
      exact { hc with statics := allows_assigned hc.statics hvalue }
    | some base =>
      refine hc.modify hframe (fun _ => rfl) (fun _ => rfl) ?_ fun cell hmem o hat _ =>
        hc.slots cell hmem o hat
      intro cell hmem o hat ho
      have hvalue := h.allows (h.storeField hmethod hstmt ho) (hvars rhs)
      exact allows_assigned (hc.fields cell hmem o hat) hvalue
  | loadArray lhs base index =>
    simp only [Memory.execute]
    split
    · exact hc
    · rename_i cell hcell
      obtain ⟨hmem, o, hat, ho⟩ := hc.deref hframe hcell
      exact hc.assign (h.allows (h.loadArray hmethod hstmt ho) (hc.slots cell hmem o hat slot))
  | storeArray base index rhs =>
    refine hc.modify hframe (fun _ => rfl) (fun _ => rfl) (fun cell hmem o hat _ =>
      hc.fields cell hmem o hat) ?_
    intro cell hmem o hat ho
    have hvalue := h.allows (h.storeArray hmethod hstmt ho) (hvars rhs)
    exact allows_assigned (hc.slots cell hmem o hat) hvalue
  | invoke call => exact hc.enter h hi hloc hstmt
  | ret returned =>
    cases returned with
    | none => exact hc
    | some v => exact hc.handBack h hframe hloc hstmt
  | other => exact hc

theorem Covers.perform (h : r.Fixpoint p entry) (hc : r.Covers p c) (move : Move) :
    r.Covers p (c.perform p move) := by
  unfold Memory.perform
  split
  · exact hc
  · rename_i frame hi
    split
    · exact hc
    · rename_i stmt hstmt
      exact hc.execute h hi move.slot rfl hstmt

/-- A fixpoint covers every state of every execution. -/
theorem Fixpoint.covers_run (h : r.Fixpoint p entry) (moves : List Move) :
    r.Covers p (Memory.run p entry moves) := by
  -- by induction on the moves, from any covered state
  have hrun : ∀ c, r.Covers p c → r.Covers p (moves.foldl (Memory.perform p) c) := by
    induction moves with
    | nil => exact fun _ hc => hc
    | cons move rest ih => exact fun c hc => ih _ (hc.perform h move)
  exact hrun _ (Covers.initial h)

end Result

/-- **Soundness**: the result of an analysis covers every state that any sequence of moves leads to
    from the entry method. -/
theorem Program.analyze_sound {p : Program} {entry : MethodId} (hp : p.Built)
    (hmain : p.main = some entry) (options : Options) :
    ∃ run, p.analyze options = .ok run ∧
      ∀ moves, run.result.Covers p (Memory.run p entry moves) := by
  have hwell := hp.wellFormed
  obtain ⟨run, hrun, hresult⟩ := analyze_eq hmain options
  have hfix := solve_fixpoint hwell (hwell.mainExists hmain) options.order
  rw [← hresult] at hfix
  exact ⟨run, hrun, fun moves => hfix.covers_run moves⟩

theorem Program.analyze_sound_getter :
    ∃ run, getter.analyze {} = .ok run ∧
      ∀ moves, run.result.Covers getter (Memory.run getter ⟨1⟩ moves) :=
  analyze_sound getter_built getter_main {}

-- the entry method of `getter` stores the object in its own field, calls `get` and reads it back
example :
    ((Memory.run .getter ⟨1⟩ [⟨0, 0, 0⟩, ⟨0, 1, 0⟩, ⟨0, 2, 0⟩, ⟨1, 0, 0⟩, ⟨1, 1, 0⟩]).frames[0]?).bind
      (·.env ⟨3⟩) = some 0 := by
  decide +kernel

end PointsTo
