import PointsTo.Analysis.Solver
import PointsTo.Proofs.Interning

/-!
# Inference rules

The analysis computes the consequences of "the entry method is reachable" under a fixed set of rules.
The rules are stated here without reference to a run: objects are named by their allocation site, and
pointers by the places that result (`Place`).

- `Immediate p entry F fact`: the fact follows from facts in `F` by one rule.
- `Closed p entry F`: `F` is a solution, a set of facts that no rule leads out of.
- `Derivable p entry fact`: the fact has a finite derivation.
- `Derivable.closed`, `Derivable.holds`: the derivable facts are the least solution.
-/

namespace PointsTo

/-! ## §1 Places and facts -/

/-- A pointer whose object, if it has one, is named by its allocation site. -/
inductive Place
  | var (id : VarId)
  | field (site : Location) (id : FieldId)
  | element (site : Location)
  | staticField (id : FieldId)
deriving DecidableEq

/-- What the analysis can find out. -/
inductive Fact
  /-- The method is reachable. -/
  | reachable (m : MethodId)
  /-- The call site calls the method. -/
  | calls (edge : CallEdge)
  /-- Whatever the first place points to, the second points to as well. -/
  | flows (source target : Place)
  /-- The place points to the objects allocated at the site. -/
  | pointsTo (place : Place) (site : Location)

/-- The type of the objects that are allocated at a location. -/
def Program.allocated? (p : Program) (loc : Location) : Option Ty :=
  match p.stmt? loc with
  | some (.new _ ty) => some ty
  | _ => none

theorem Program.allocated?_eq {p : Program} {loc : Location} {lhs : VarId} {ty : Ty}
    (h : p.stmt? loc = some (.new lhs ty)) : p.allocated? loc = some ty := by
  simp [allocated?, h]

/-- The method that an instance call runs on an object of the given type. -/
inductive Program.Target (p : Program) (call : Invoke) (ty : Ty) (m : MethodId) : Prop
  | special : call.kind = .special →
      p.dispatch call.target.start call.target.subsignature = some m → p.Target call ty m
  | virtual : call.kind = .virtual →
      p.dispatchOnType ty call.target.subsignature = some m → p.Target call ty m
  | interface : call.kind = .interface →
      p.dispatchOnType ty call.target.subsignature = some m → p.Target call ty m

theorem Program.target_iff {p : Program} {call : Invoke} {ty : Ty} {m : MethodId} :
    p.Target call ty m ↔ call.kind ≠ .static ∧ p.callee? call (some ty) = some m := by
  constructor
  · rintro (⟨hkind, hm⟩ | ⟨hkind, hm⟩ | ⟨hkind, hm⟩) <;> simp [callee?, hkind, hm]
  · rintro ⟨hkind, hm⟩
    unfold callee? at hm
    split at hm
    · contradiction
    · exact .special (by assumption) hm
    · exact .virtual (by assumption) hm
    · exact .interface (by assumption) hm

/-! ## §2 The rules -/

/-- The facts that follow from the facts in `F` by one rule. -/
inductive Immediate (p : Program) (entry : MethodId) (F : Fact → Prop) : Fact → Prop
  | entry : Immediate p entry F (.reachable entry)
  | new {loc lhs ty} : F (.reachable loc.method) → p.stmt? loc = some (.new lhs ty) →
      Immediate p entry F (.pointsTo (.var lhs) loc)
  | copy {loc lhs rhs} : F (.reachable loc.method) → p.stmt? loc = some (.copy lhs rhs) →
      Immediate p entry F (.flows (.var rhs) (.var lhs))
  | cast {loc lhs rhs ty} : F (.reachable loc.method) → p.stmt? loc = some (.cast lhs rhs ty) →
      Immediate p entry F (.flows (.var rhs) (.var lhs))
  | loadStatic {loc lhs f} : F (.reachable loc.method) →
      p.stmt? loc = some (.loadField lhs none f) →
      Immediate p entry F (.flows (.staticField f) (.var lhs))
  | storeStatic {loc f rhs} : F (.reachable loc.method) →
      p.stmt? loc = some (.storeField none f rhs) →
      Immediate p entry F (.flows (.var rhs) (.staticField f))
  | loadField {loc lhs base f site} : F (.reachable loc.method) →
      p.stmt? loc = some (.loadField lhs (some base) f) → F (.pointsTo (.var base) site) →
      Immediate p entry F (.flows (.field site f) (.var lhs))
  | storeField {loc base f rhs site} : F (.reachable loc.method) →
      p.stmt? loc = some (.storeField (some base) f rhs) → F (.pointsTo (.var base) site) →
      Immediate p entry F (.flows (.var rhs) (.field site f))
  | loadArray {loc lhs base index site} : F (.reachable loc.method) →
      p.stmt? loc = some (.loadArray lhs base index) → F (.pointsTo (.var base) site) →
      Immediate p entry F (.flows (.element site) (.var lhs))
  | storeArray {loc base index rhs site} : F (.reachable loc.method) →
      p.stmt? loc = some (.storeArray base index rhs) → F (.pointsTo (.var base) site) →
      Immediate p entry F (.flows (.var rhs) (.element site))
  /-- A static call runs the declaration that it refers to. -/
  | callStatic {loc call callee} : F (.reachable loc.method) → p.stmt? loc = some (.invoke call) →
      call.kind = .static → p.resolve call.target = some callee →
      Immediate p entry F (.calls ⟨.static, loc, callee⟩)
  /-- An instance call runs a method for each object that its receiver points to. -/
  | callInstance {loc call receiver site ty callee} : F (.reachable loc.method) →
      p.stmt? loc = some (.invoke call) → call.receiver = some receiver →
      F (.pointsTo (.var receiver) site) → p.allocated? site = some ty →
      p.Target call ty callee → Immediate p entry F (.calls ⟨call.kind, loc, callee⟩)
  /-- The method that runs for an object gets that object as its receiver. -/
  | bind {loc call receiver site ty callee method self} : F (.reachable loc.method) →
      p.stmt? loc = some (.invoke call) → call.receiver = some receiver →
      F (.pointsTo (.var receiver) site) → p.allocated? site = some ty →
      p.Target call ty callee → p.method? callee = some method → method.self = some self →
      Immediate p entry F (.pointsTo (.var self) site)
  | callee {edge} : F (.calls edge) → Immediate p entry F (.reachable edge.callee)
  | argument {loc call callee method arg param} : F (.calls ⟨call.kind, loc, callee⟩) →
      p.stmt? loc = some (.invoke call) → p.method? callee = some method →
      (arg, param) ∈ call.args.zip method.params →
      Immediate p entry F (.flows (.var arg) (.var param))
  | result {loc call callee method returned result} : F (.calls ⟨call.kind, loc, callee⟩) →
      p.stmt? loc = some (.invoke call) → p.method? callee = some method →
      Stmt.ret (some returned) ∈ method.body → call.result = some result →
      Immediate p entry F (.flows (.var returned) (.var result))
  | flow {source target site} : F (.flows source target) → F (.pointsTo source site) →
      Immediate p entry F (.pointsTo target site)

/-- A solution of the rules: a set of facts with all their immediate consequences. -/
def Closed (p : Program) (entry : MethodId) (F : Fact → Prop) : Prop :=
  ∀ fact, Immediate p entry F fact → F fact

/-- The facts with a finite derivation. -/
inductive Derivable (p : Program) (entry : MethodId) : Fact → Prop
  | rule {fact} : Immediate p entry (Derivable p entry) fact → Derivable p entry fact

theorem Derivable.closed (p : Program) (entry : MethodId) : Closed p entry (Derivable p entry) :=
  fun _ => Derivable.rule

mutual

/-- Every solution contains the derivable facts. -/
theorem Derivable.holds {p : Program} {entry : MethodId} {F : Fact → Prop} (hF : Closed p entry F)
    {fact : Fact} : Derivable p entry fact → F fact
  | .rule h => hF _ (Immediate.holds hF h)

theorem Immediate.holds {p : Program} {entry : MethodId} {F : Fact → Prop} (hF : Closed p entry F)
    {fact : Fact} : Immediate p entry (Derivable p entry) fact → Immediate p entry F fact
  | .entry => .entry
  | .new hm hs => .new (hm.holds hF) hs
  | .copy hm hs => .copy (hm.holds hF) hs
  | .cast hm hs => .cast (hm.holds hF) hs
  | .loadStatic hm hs => .loadStatic (hm.holds hF) hs
  | .storeStatic hm hs => .storeStatic (hm.holds hF) hs
  | .loadField hm hs ho => .loadField (hm.holds hF) hs (ho.holds hF)
  | .storeField hm hs ho => .storeField (hm.holds hF) hs (ho.holds hF)
  | .loadArray hm hs ho => .loadArray (hm.holds hF) hs (ho.holds hF)
  | .storeArray hm hs ho => .storeArray (hm.holds hF) hs (ho.holds hF)
  | .callStatic hm hs hk hc => .callStatic (hm.holds hF) hs hk hc
  | .callInstance hm hs hr ho hty hc => .callInstance (hm.holds hF) hs hr (ho.holds hF) hty hc
  | .bind hm hs hr ho hty hc hd hself => .bind (hm.holds hF) hs hr (ho.holds hF) hty hc hd hself
  | .callee he => .callee (he.holds hF)
  | .argument he hs hd hz => .argument (he.holds hF) hs hd hz
  | .result he hs hd hr hres => .result (he.holds hF) hs hd hr hres
  | .flow hf ho => .flow (hf.holds hF) (ho.holds hF)

end

/-! ## §3 Listed places -/

/-- The places that a set of facts calls for: those that point somewhere, the ends of a flow, and the
    variables that take the result of a call. -/
inductive Listed (p : Program) (F : Fact → Prop) : Place → Prop
  | pointing {place site} : F (.pointsTo place site) → Listed p F place
  | source {source target} : F (.flows source target) → Listed p F source
  | target {source target} : F (.flows source target) → Listed p F target
  | result {loc call callee result} : F (.calls ⟨call.kind, loc, callee⟩) →
      p.stmt? loc = some (.invoke call) → call.result = some result → Listed p F (.var result)

/-! ## §4 Names -/

namespace Heap

variable {h h' : Heap} {pointer pointer' : Pointer} {place : Place} {o : ObjId} {site : Location}

/-- The site that names an object. -/
def site? (h : Heap) (o : ObjId) : Option Location := (h.obj? o).map Obj.site

/-- The place that names a pointer. -/
def place? (h : Heap) : Pointer → Option Place
  | .var v => some (.var v)
  | .field o f => (h.site? o).map (.field · f)
  | .element o => (h.site? o).map .element
  | .staticField f => some (.staticField f)

theorem site?_of_obj? {obj : Obj} (hobj : h.obj? o = some obj) : h.site? o = some obj.site :=
  Option.map_eq_some_iff.2 ⟨obj, hobj, rfl⟩

theorem site?_of_isPrefix (hpre : h.objects.toList <+: h'.objects.toList)
    (hsite : h.site? o = some site) : h'.site? o = some site := by
  obtain ⟨obj, hobj, rfl⟩ := Option.map_eq_some_iff.1 hsite
  exact site?_of_obj? (obj?_of_isPrefix hpre hobj)

theorem place?_of_isPrefix (hpre : h.objects.toList <+: h'.objects.toList)
    (hplace : h.place? pointer = some place) : h'.place? pointer = some place := by
  cases pointer with
  | var v => exact hplace
  | staticField f => exact hplace
  | field o f =>
    obtain ⟨site, hsite, rfl⟩ := Option.map_eq_some_iff.1 hplace
    exact Option.map_eq_some_iff.2 ⟨site, site?_of_isPrefix hpre hsite, rfl⟩
  | element o =>
    obtain ⟨site, hsite, rfl⟩ := Option.map_eq_some_iff.1 hplace
    exact Option.map_eq_some_iff.2 ⟨site, site?_of_isPrefix hpre hsite, rfl⟩

theorem at?_of_site? (hnodup : h.siteList.Nodup) (hsite : h.site? o = some site) :
    h.at? site = some o := by
  obtain ⟨obj, hobj, rfl⟩ := Option.map_eq_some_iff.1 hsite
  exact at?_of_obj? hnodup hobj

theorem site?_of_at? (hat : h.at? site = some o) : h.site? o = some site := by
  obtain ⟨obj, hobj, rfl⟩ := exists_obj?_of_at? hat
  exact site?_of_obj? hobj

theorem site?_injective (hnodup : h.siteList.Nodup) {o o' : ObjId} (hsite : h.site? o = some site)
    (hsite' : h.site? o' = some site) : o = o' :=
  Option.some.inj ((at?_of_site? hnodup hsite).symm.trans (at?_of_site? hnodup hsite'))

theorem eq_var_of_place? {v : VarId} (h' : h.place? pointer = some (.var v)) : pointer = .var v := by
  cases pointer <;> simp_all [place?]

theorem eq_staticField_of_place? {f : FieldId} (h' : h.place? pointer = some (.staticField f)) :
    pointer = .staticField f := by
  cases pointer <;> simp_all [place?]

theorem exists_field_of_place? {f : FieldId} (h' : h.place? pointer = some (.field site f)) :
    ∃ o, pointer = .field o f ∧ h.site? o = some site := by
  cases pointer <;> simp_all [place?]

theorem exists_element_of_place? (h' : h.place? pointer = some (.element site)) :
    ∃ o, pointer = .element o ∧ h.site? o = some site := by
  cases pointer <;> simp_all [place?]

/-- A place names at most one pointer. -/
theorem place?_injective (hnodup : h.siteList.Nodup) (hplace : h.place? pointer = some place)
    (hplace' : h.place? pointer' = some place) : pointer = pointer' := by
  cases place with
  | var v => rw [eq_var_of_place? hplace, eq_var_of_place? hplace']
  | staticField f => rw [eq_staticField_of_place? hplace, eq_staticField_of_place? hplace']
  | field site f =>
    obtain ⟨o, rfl, hsite⟩ := exists_field_of_place? hplace
    obtain ⟨o', rfl, hsite'⟩ := exists_field_of_place? hplace'
    rw [site?_injective hnodup hsite hsite']
  | element site =>
    obtain ⟨o, rfl, hsite⟩ := exists_element_of_place? hplace
    obtain ⟨o', rfl, hsite'⟩ := exists_element_of_place? hplace'
    rw [site?_injective hnodup hsite hsite']

end Heap

end PointsTo
