import PointsTo.Proofs.OrderIndependence
import PointsTo.Proofs.Outline

/-!
# More statements lead to more facts

The rules look at statements one at a time, never at their order or at how often one of them occurs. So
if every statement of one program occurs in the same method of another program with the same outline,
then what can be derived in the first can be derived in the second, at any location there that holds the
same statement. Locations are the only thing that changes, because they name objects and calls.

- `Location.Twin`, `Place.Twin`, `Fact.Twin`: locations with the same statement, and what is named by
  them.
- `Program.Below.derivable`: the twins of a derivable fact are derivable.
- `Program.analyze_mono`: the result of the second analysis carries that of the first, and the results
  mirror each other if both programs have the same statements.
-/

namespace PointsTo

/-! ## §1 Twins -/

/-- Locations of one method that hold the same statement in two programs. -/
structure Location.Twin (p q : Program) (loc loc' : Location) : Prop where
  method : loc'.method = loc.method
  stmt : ∃ stmt, p.stmt? loc = some stmt ∧ q.stmt? loc' = some stmt

/-- Places that are equal up to a change between twins. -/
inductive Place.Twin (p q : Program) : Place → Place → Prop
  | var (v : VarId) : Place.Twin p q (.var v) (.var v)
  | field {site site' : Location} (f : FieldId) : site.Twin p q site' →
      Place.Twin p q (.field site f) (.field site' f)
  | element {site site' : Location} : site.Twin p q site' →
      Place.Twin p q (.element site) (.element site')
  | staticField (f : FieldId) : Place.Twin p q (.staticField f) (.staticField f)

/-- Facts that are equal up to a change between twins. -/
inductive Fact.Twin (p q : Program) : Fact → Fact → Prop
  | reachable (m : MethodId) : Fact.Twin p q (.reachable m) (.reachable m)
  | calls {site site' : Location} (kind : CallKind) (callee : MethodId) : site.Twin p q site' →
      Fact.Twin p q (.calls ⟨kind, site, callee⟩) (.calls ⟨kind, site', callee⟩)
  | flows {source source' target target' : Place} : source.Twin p q source' →
      target.Twin p q target' → Fact.Twin p q (.flows source target) (.flows source' target')
  | pointsTo {place place' : Place} {site site' : Location} : place.Twin p q place' →
      site.Twin p q site' → Fact.Twin p q (.pointsTo place site) (.pointsTo place' site')

section Twins

variable {p q : Program}

theorem Location.Twin.symm {loc loc' : Location} (h : loc.Twin p q loc') : loc'.Twin q p loc := by
  obtain ⟨hmethod, stmt, hp, hq⟩ := h
  exact ⟨hmethod.symm, stmt, hq, hp⟩

theorem Place.Twin.symm {place place' : Place} (h : place.Twin p q place') :
    place'.Twin q p place := by
  cases h with
  | var v => exact .var v
  | field f hsite => exact .field f hsite.symm
  | element hsite => exact .element hsite.symm
  | staticField f => exact .staticField f

theorem Fact.Twin.symm {fact fact' : Fact} (h : fact.Twin p q fact') : fact'.Twin q p fact := by
  cases h with
  | reachable m => exact .reachable m
  | calls kind callee hsite => exact .calls kind callee hsite.symm
  | flows hsource htarget => exact .flows hsource.symm htarget.symm
  | pointsTo hplace hsite => exact .pointsTo hplace.symm hsite.symm

/-- Twins allocate objects of the same type. -/
theorem Location.Twin.allocated?_eq {loc loc' : Location} (h : loc.Twin p q loc') :
    q.allocated? loc' = p.allocated? loc := by
  obtain ⟨_, stmt, hp, hq⟩ := h
  simp only [Program.allocated?, hp, hq]

end Twins

/-! ## §2 Derivations -/

/-- The second program has the outline of the first and, in each method, all its statements. -/
structure Program.Below (p q : Program) : Prop where
  outline : p.outline = q.outline
  stmt : ∀ {loc stmt}, p.stmt? loc = some stmt → ∃ i, q.stmt? ⟨loc.method, i⟩ = some stmt

namespace Program.Below

variable {p q : Program} {entry : MethodId}

theorem exists_twin (h : p.Below q) {loc : Location} {stmt : Stmt} (hs : p.stmt? loc = some stmt) :
    ∃ loc', loc.Twin p q loc' := by
  obtain ⟨i, hi⟩ := h.stmt hs
  exact ⟨⟨loc.method, i⟩, rfl, stmt, hs, hi⟩

theorem target (h : p.Below q) {call : Invoke} {ty : Ty} {m : MethodId} (hm : p.Target call ty m) :
    q.Target call ty m := by
  rw [target_iff] at hm ⊢
  rwa [← callee?_eq_of_outline h.outline]

/-- The declaration of a method is the same, and none of its statements is missing. -/
theorem exists_method (h : p.Below q) {m : MethodId} {method : Method}
    (hm : p.method? m = some method) : ∃ method', q.method? m = some method' ∧
      method'.params = method.params ∧ method'.self = method.self ∧
      ∀ stmt ∈ method.body, stmt ∈ method'.body := by
  obtain ⟨method', hm', hsame⟩ := exists_method_of_outline h.outline hm
  have hparams : method'.outline.params = method.outline.params := congrArg Method.params hsame
  have hself : method'.outline.self = method.outline.self := congrArg Method.self hsame
  refine ⟨method', hm', hparams, hself, ?_⟩
  intro stmt hmem
  obtain ⟨i, hi⟩ := List.mem_iff_getElem?.1 hmem
  have hs : p.stmt? ⟨m, i⟩ = some stmt := stmt?_eq_some_iff.2 ⟨method, hm, hi⟩
  obtain ⟨j, hj⟩ := h.stmt hs
  obtain ⟨method'', hm'', hj'⟩ := stmt?_eq_some_iff.1 hj
  rw [hm', Option.some.injEq] at hm''
  subst hm''
  exact List.mem_of_getElem? hj'

/-- The fact has a twin, and all its twins are derivable in the second program. -/
def Mirrored (p q : Program) (entry : MethodId) (fact : Fact) : Prop :=
  (∃ fact', fact.Twin p q fact') ∧ ∀ fact', fact.Twin p q fact' → Derivable q entry fact'

/-- The twins of a statement can be entered in the second program. -/
theorem Mirrored.enter {loc loc' : Location} {stmt : Stmt}
    (hm : Mirrored p q entry (.reachable loc.method)) (hs : p.stmt? loc = some stmt)
    (htwin : loc.Twin p q loc') :
    Derivable q entry (.reachable loc'.method) ∧ q.stmt? loc' = some stmt := by
  obtain ⟨hmethod, stmt', hp, hq⟩ := htwin
  rw [hs, Option.some.injEq] at hp
  subst hp
  rw [hmethod]
  exact ⟨hm.2 _ (.reachable loc.method), hq⟩

theorem enter (h : p.Below q) {loc : Location} {stmt : Stmt}
    (hm : Mirrored p q entry (.reachable loc.method)) (hs : p.stmt? loc = some stmt) :
    ∃ loc', Derivable q entry (.reachable loc'.method) ∧ q.stmt? loc' = some stmt := by
  obtain ⟨loc', htwin⟩ := h.exists_twin hs
  exact ⟨loc', hm.enter hs htwin⟩

theorem mirrored_reachable {m : MethodId} (h : Derivable q entry (.reachable m)) :
    Mirrored p q entry (.reachable m) := by
  refine ⟨⟨_, .reachable m⟩, fun fact' htwin => ?_⟩
  cases htwin
  exact h

/-- A call site that calls the same method in both programs. -/
theorem called (h : p.Below q) {kind : CallKind} {loc : Location} {callee : MethodId} {stmt : Stmt}
    (he : Mirrored p q entry (.calls ⟨kind, loc, callee⟩)) (hs : p.stmt? loc = some stmt) :
    ∃ loc', q.stmt? loc' = some stmt ∧ Derivable q entry (.calls ⟨kind, loc', callee⟩) := by
  obtain ⟨loc', htwin⟩ := h.exists_twin hs
  have hcalls := he.2 _ (.calls kind callee htwin)
  obtain ⟨_, stmt', hp, hq⟩ := htwin
  rw [hs, Option.some.injEq] at hp
  subst hp
  exact ⟨loc', hq, hcalls⟩

theorem mirrored_calls {kind : CallKind} {loc : Location} {callee : MethodId}
    (hloc : ∃ loc', loc.Twin p q loc')
    (h : ∀ loc', loc.Twin p q loc' → Derivable q entry (.calls ⟨kind, loc', callee⟩)) :
    Mirrored p q entry (.calls ⟨kind, loc, callee⟩) := by
  obtain ⟨loc', hloc'⟩ := hloc
  refine ⟨⟨_, .calls kind callee hloc'⟩, fun fact' htwin => ?_⟩
  cases htwin with
  | calls _ _ hsite => exact h _ hsite

theorem mirrored_flows {x y : Place} (hx : ∃ x', x.Twin p q x') (hy : ∃ y', y.Twin p q y')
    (h : ∀ x' y', x.Twin p q x' → y.Twin p q y' → Derivable q entry (.flows x' y')) :
    Mirrored p q entry (.flows x y) := by
  obtain ⟨x', hx'⟩ := hx
  obtain ⟨y', hy'⟩ := hy
  refine ⟨⟨_, .flows hx' hy'⟩, fun fact' htwin => ?_⟩
  cases htwin with
  | flows hsource htarget => exact h _ _ hsource htarget

/-- A variable has no twin but itself. -/
theorem mirrored_flows_vars {v w : VarId} (h : Derivable q entry (.flows (.var v) (.var w))) :
    Mirrored p q entry (.flows (.var v) (.var w)) := by
  refine mirrored_flows ⟨_, .var v⟩ ⟨_, .var w⟩ fun x' y' hx hy => ?_
  cases hx
  cases hy
  exact h

theorem mirrored_pointsTo_var {v : VarId} {site : Location} (hsite : ∃ site', site.Twin p q site')
    (h : ∀ site', site.Twin p q site' → Derivable q entry (.pointsTo (.var v) site')) :
    Mirrored p q entry (.pointsTo (.var v) site) := by
  obtain ⟨site', hsite'⟩ := hsite
  refine ⟨⟨_, .pointsTo (.var v) hsite'⟩, fun fact' htwin => ?_⟩
  cases htwin with
  | pointsTo hplace htwin' =>
    cases hplace
    exact h _ htwin'

theorem Mirrored.exists_site {place : Place} {site : Location}
    (h : Mirrored p q entry (.pointsTo place site)) : ∃ site', site.Twin p q site' := by
  obtain ⟨⟨_, htwin⟩, _⟩ := h
  cases htwin with
  | pointsTo _ hsite => exact ⟨_, hsite⟩

/-- The facts all of whose twins are derivable in the second program solve the rules of the first. -/
theorem closed (h : p.Below q) : Closed p entry (Mirrored p q entry) := by
  intro fact himmediate
  -- one case for each rule: find a twin of the statement, then apply the rule in the second program
  cases himmediate with
  | entry => exact mirrored_reachable (.rule .entry)
  | new hm hs =>
    refine mirrored_pointsTo_var (h.exists_twin hs) fun site' hsite => ?_
    -- the location becomes the name of an object, so every twin has to be entered
    obtain ⟨hm', hs'⟩ := hm.enter hs hsite
    exact .rule (.new hm' hs')
  | copy hm hs =>
    obtain ⟨loc', hm', hs'⟩ := h.enter hm hs
    exact mirrored_flows_vars (.rule (.copy hm' hs'))
  | cast hm hs =>
    obtain ⟨loc', hm', hs'⟩ := h.enter hm hs
    exact mirrored_flows_vars (.rule (.cast hm' hs'))
  | @loadStatic loc lhs f hm hs =>
    obtain ⟨loc', hm', hs'⟩ := h.enter hm hs
    refine mirrored_flows ⟨_, .staticField f⟩ ⟨_, .var lhs⟩ fun x' y' hx hy => ?_
    cases hx
    cases hy
    exact .rule (.loadStatic hm' hs')
  | @storeStatic loc f rhs hm hs =>
    obtain ⟨loc', hm', hs'⟩ := h.enter hm hs
    refine mirrored_flows ⟨_, .var rhs⟩ ⟨_, .staticField f⟩ fun x' y' hx hy => ?_
    cases hx
    cases hy
    exact .rule (.storeStatic hm' hs')
  | @loadField loc lhs base f site hm hs ho =>
    obtain ⟨loc', hm', hs'⟩ := h.enter hm hs
    obtain ⟨site', hsite⟩ := ho.exists_site
    refine mirrored_flows ⟨_, .field f hsite⟩ ⟨_, .var lhs⟩ fun x' y' hx hy => ?_
    cases hy
    cases hx with
    | field _ hx => exact .rule (.loadField hm' hs' (ho.2 _ (.pointsTo (.var base) hx)))
  | @storeField loc base f rhs site hm hs ho =>
    obtain ⟨loc', hm', hs'⟩ := h.enter hm hs
    obtain ⟨site', hsite⟩ := ho.exists_site
    refine mirrored_flows ⟨_, .var rhs⟩ ⟨_, .field f hsite⟩ fun x' y' hx hy => ?_
    cases hx
    cases hy with
    | field _ hy => exact .rule (.storeField hm' hs' (ho.2 _ (.pointsTo (.var base) hy)))
  | @loadArray loc lhs base index site hm hs ho =>
    obtain ⟨loc', hm', hs'⟩ := h.enter hm hs
    obtain ⟨site', hsite⟩ := ho.exists_site
    refine mirrored_flows ⟨_, .element hsite⟩ ⟨_, .var lhs⟩ fun x' y' hx hy => ?_
    cases hy
    cases hx with
    | element hx => exact .rule (.loadArray hm' hs' (ho.2 _ (.pointsTo (.var base) hx)))
  | @storeArray loc base index rhs site hm hs ho =>
    obtain ⟨loc', hm', hs'⟩ := h.enter hm hs
    obtain ⟨site', hsite⟩ := ho.exists_site
    refine mirrored_flows ⟨_, .var rhs⟩ ⟨_, .element hsite⟩ fun x' y' hx hy => ?_
    cases hx
    cases hy with
    | element hy => exact .rule (.storeArray hm' hs' (ho.2 _ (.pointsTo (.var base) hy)))
  | callStatic hm hs hk hc =>
    rw [resolve_eq_of_outline h.outline] at hc
    refine mirrored_calls (h.exists_twin hs) fun loc' hloc => ?_
    obtain ⟨hm', hs'⟩ := hm.enter hs hloc
    exact .rule (.callStatic hm' hs' hk hc)
  | @callInstance loc call receiver site ty callee hm hs hr ho hty hc =>
    obtain ⟨site', hsite⟩ := ho.exists_site
    rw [← hsite.allocated?_eq] at hty
    refine mirrored_calls (h.exists_twin hs) fun loc' hloc => ?_
    obtain ⟨hm', hs'⟩ := hm.enter hs hloc
    exact .rule (.callInstance hm' hs' hr (ho.2 _ (.pointsTo (.var receiver) hsite)) hty (h.target hc))
  | @bind loc call receiver site ty callee method self hm hs hr ho hty hc hd hself =>
    obtain ⟨loc', hm', hs'⟩ := h.enter hm hs
    obtain ⟨method', hd', _, hsame, _⟩ := h.exists_method hd
    refine mirrored_pointsTo_var ho.exists_site fun site' hsite => ?_
    rw [← hsite.allocated?_eq] at hty
    exact .rule (.bind hm' hs' hr (ho.2 _ (.pointsTo (.var receiver) hsite)) hty (h.target hc) hd'
      (hsame.trans hself))
  | @callee edge he =>
    obtain ⟨⟨_, htwin⟩, hall⟩ := he
    have hcalls := hall _ htwin
    cases htwin with
    | calls kind callee _ =>
      have hcallee := Derivable.rule (Immediate.callee hcalls)
      exact mirrored_reachable hcallee
  | @argument loc call callee method arg param he hs hd hz =>
    obtain ⟨loc', hs', hcalls⟩ := h.called he hs
    obtain ⟨method', hd', hparams, _, _⟩ := h.exists_method hd
    exact mirrored_flows_vars (.rule (.argument hcalls hs' hd' (hparams ▸ hz)))
  | @result loc call callee method returned result he hs hd hr hres =>
    obtain ⟨loc', hs', hcalls⟩ := h.called he hs
    obtain ⟨method', hd', _, _, hbody⟩ := h.exists_method hd
    exact mirrored_flows_vars (.rule (.result hcalls hs' hd' (hbody _ hr) hres))
  | @flow source target site hf ho =>
    -- the twin of the source is any that the flow has
    obtain ⟨⟨_, hflow⟩, hflows⟩ := hf
    cases hflow with
    | flows hsource htarget =>
      obtain ⟨site', hsite⟩ := ho.exists_site
      refine ⟨⟨_, .pointsTo htarget hsite⟩, fun fact' htwin => ?_⟩
      cases htwin with
      | pointsTo htarget' hsite' =>
        exact .rule (.flow (hflows _ (.flows hsource htarget')) (ho.2 _ (.pointsTo hsource hsite')))

/-- **Derivations carry over**: a derivable fact has a twin, and all its twins are derivable in the
    second program. -/
theorem derivable (h : p.Below q) {fact : Fact} (hfact : Derivable p entry fact) :
    Mirrored p q entry fact :=
  hfact.holds h.closed

end Program.Below

/-! ## §3 Moved locations -/

/-- The location in the same method at the index that a map gives. -/
def Location.move (φ : MethodId → Nat → Nat) (loc : Location) : Location :=
  ⟨loc.method, φ loc.method loc.index⟩

/-- The place whose object, if it has one, is named by the moved location. -/
def Place.move (φ : MethodId → Nat → Nat) : Place → Place
  | .var v => .var v
  | .field site f => .field (site.move φ) f
  | .element site => .element (site.move φ)
  | .staticField f => .staticField f

/-- The fact about the moved locations. -/
def Fact.move (φ : MethodId → Nat → Nat) : Fact → Fact
  | .reachable m => .reachable m
  | .calls edge => .calls { edge with site := edge.site.move φ }
  | .flows source target => .flows (source.move φ) (target.move φ)
  | .pointsTo place site => .pointsTo (place.move φ) (site.move φ)

section Moves

variable {p q : Program} {φ : MethodId → Nat → Nat}

/-- The map leads from every statement of the first program to the same statement of the second. -/
def Program.Moves (p q : Program) (φ : MethodId → Nat → Nat) : Prop :=
  ∀ loc stmt, p.stmt? loc = some stmt → q.stmt? (loc.move φ) = some stmt

theorem Location.Twin.move (hφ : p.Moves q φ) {loc loc' : Location} (h : loc.Twin p q loc') :
    loc.Twin p q (loc.move φ) := by
  obtain ⟨_, stmt, hp, _⟩ := h
  exact ⟨rfl, stmt, hp, hφ loc stmt hp⟩

theorem Place.Twin.move (hφ : p.Moves q φ) {place place' : Place} (h : place.Twin p q place') :
    place.Twin p q (place.move φ) := by
  cases h with
  | var v => exact .var v
  | field f hsite => exact .field f (hsite.move hφ)
  | element hsite => exact .element (hsite.move hφ)
  | staticField f => exact .staticField f

/-- A fact that has a twin at all has its moved version as a twin. -/
theorem Fact.Twin.move (hφ : p.Moves q φ) {fact fact' : Fact} (h : fact.Twin p q fact') :
    fact.Twin p q (fact.move φ) := by
  cases h with
  | reachable m => exact .reachable m
  | calls kind callee hsite => exact .calls kind callee (hsite.move hφ)
  | flows hsource htarget => exact .flows (hsource.move hφ) (htarget.move hφ)
  | pointsTo hplace hsite => exact .pointsTo (hplace.move hφ) (hsite.move hφ)

end Moves

/-! ## §4 Results -/

namespace Result

variable {p q : Program} {entry : MethodId} {r r' : Result} {φ : MethodId → Nat → Nat}

/-- Whatever the first result says, the second says about the moved locations. -/
structure Carries (φ : MethodId → Nat → Nat) (r r' : Result) : Prop where
  facts : r.ContainedIn fun fact => r'.Says (fact.move φ)
  objects : ∀ o obj, r.heap.obj? o = some obj →
    ∃ o', r'.heap.obj? o' = some { obj with site := obj.site.move φ }

/-- The results say the same up to a change between twins. -/
structure Mirrors (p q : Program) (r r' : Result) : Prop where
  says_iff : ∀ {fact fact'}, fact.Twin p q fact' → (r.Says fact ↔ r'.Says fact')
  /-- There are no facts without twins in either result. -/
  facts : r.ContainedIn fun fact => ∃ fact', fact.Twin p q fact' ∧ r'.Says fact'
  facts' : r'.ContainedIn fun fact' => ∃ fact, fact.Twin p q fact' ∧ r.Says fact
  objects : ∀ {site site'}, site.Twin p q site' → ∀ ty,
    (∃ o, r.heap.obj? o = some ⟨site, ty⟩) ↔ ∃ o', r'.heap.obj? o' = some ⟨site', ty⟩

theorem ContainedIn.mono {F G : Fact → Prop} (h : r.ContainedIn F) (hFG : ∀ fact, F fact → G fact) :
    r.ContainedIn G where
  methods m hm := hFG _ (h.methods m hm)
  calls e he := hFG _ (h.calls e he)
  flows e he := by
    obtain ⟨a, b, x, y, ha, hb, hx, hy, hfact⟩ := h.flows e he
    exact ⟨a, b, x, y, ha, hb, hx, hy, hFG _ hfact⟩
  pointsTo a o ho := by
    obtain ⟨x, site, hx, hsite, hfact⟩ := h.pointsTo a o ho
    exact ⟨x, site, hx, hsite, hFG _ hfact⟩

/-- The objects are those that the allocations in reachable methods call for. -/
theorem Exact.exists_obj_iff (h : r.Exact p entry) {site : Location} {ty : Ty} :
    (∃ o, r.heap.obj? o = some ⟨site, ty⟩) ↔
      Derivable p entry (.reachable site.method) ∧ p.allocated? site = some ty := by
  constructor
  · rintro ⟨o, hobj⟩
    exact ⟨((h.sites site).1 (Exact.mem_siteList_of_obj? hobj)).1, h.typed hobj⟩
  · rintro ⟨hmethod, hty⟩
    have hmem := (h.sites site).2 ⟨hmethod, by rw [hty]; rfl⟩
    cases hat : r.heap.at? site with
    | none => exact absurd hmem (Heap.at?_eq_none_iff.1 hat)
    | some o =>
      obtain ⟨⟨site', ty'⟩, hobj, rfl⟩ := Heap.exists_obj?_of_at? hat
      -- the type of the object is the one that is allocated at its site
      have htyped := h.typed hobj
      rw [hty, Option.some.injEq] at htyped
      exact ⟨o, htyped ▸ hobj⟩

theorem Exact.carries (h : r.Exact p entry) (h' : r'.Exact q entry)
    (hcontained : r.ContainedIn (Derivable p entry)) (hbelow : p.Below q) (hφ : p.Moves q φ) :
    r.Carries φ r' where
  facts := hcontained.mono fun fact hfact => by
    obtain ⟨⟨_, htwin⟩, hall⟩ := hbelow.derivable hfact
    exact (h'.facts _).2 (hall _ (htwin.move hφ))
  objects o obj hobj := by
    obtain ⟨hmethod, hty⟩ := h.exists_obj_iff.1 ⟨o, hobj⟩
    apply h'.exists_obj_iff.2
    refine ⟨(hbelow.derivable hmethod).2 _ (.reachable _), ?_⟩
    unfold Program.allocated? at hty
    split at hty
    · rename_i lhs ty hs
      rw [Program.allocated?_eq (hφ _ _ hs)]
      exact hty
    · exact absurd hty.symm (Option.some_ne_none _)

theorem Exact.mirrors (h : r.Exact p entry) (h' : r'.Exact q entry)
    (hcontained : r.ContainedIn (Derivable p entry))
    (hcontained' : r'.ContainedIn (Derivable q entry)) (hbelow : p.Below q) (habove : q.Below p) :
    r.Mirrors p q r' where
  says_iff {fact fact'} htwin := by
    rw [h.facts, h'.facts]
    exact ⟨fun hfact => (hbelow.derivable hfact).2 _ htwin,
      fun hfact => (habove.derivable hfact).2 _ htwin.symm⟩
  facts := hcontained.mono fun fact hfact => by
    obtain ⟨⟨fact', htwin⟩, hall⟩ := hbelow.derivable hfact
    exact ⟨fact', htwin, (h'.facts _).2 (hall _ htwin)⟩
  facts' := hcontained'.mono fun fact' hfact => by
    obtain ⟨⟨fact, htwin⟩, hall⟩ := habove.derivable hfact
    exact ⟨fact, htwin.symm, (h.facts _).2 (hall _ htwin)⟩
  objects {site site'} htwin ty := by
    rw [h.exists_obj_iff, h'.exists_obj_iff, htwin.allocated?_eq, htwin.method]
    exact and_congr_left fun _ => ⟨fun hfact => (hbelow.derivable hfact).2 _ (.reachable _),
      fun hfact => (habove.derivable hfact).2 _ (.reachable _)⟩

end Result

namespace Program

variable {p q : Program} {entry : MethodId} {φ : MethodId → Nat → Nat}

theorem analyze_exact (hp : p.WellFormed) (hmain : p.main = some entry) (options : Options) :
    ∃ run, p.analyze options = .ok run ∧ run.result.Exact p entry ∧
      run.result.ContainedIn (Derivable p entry) := by
  have hlt := hp.mainExists hmain
  obtain ⟨run, hrun, hresult⟩ := analyze_eq hmain options
  refine ⟨run, hrun, ?_⟩
  rw [hresult]
  exact ⟨solve_exact hp hlt options.order,
    (solve_finished hp (Derivable.closed p entry) hlt options.order).supported.containedIn⟩

/-- **Monotonicity**: if a map leads from every statement of a program to the same statement of another
    program with the same outline, then the result of the second analysis carries that of the first
    along the map. If the second program has no other statements, whatever their order and number, the
    results mirror each other. -/
theorem analyze_mono (hp : p.Built) (hq : q.Built) (houtline : p.outline = q.outline)
    (hφ : p.Moves q φ) (hmain : p.main = some entry) (options options' : Options) :
    ∃ run run', p.analyze options = .ok run ∧ q.analyze options' = .ok run' ∧
      run.result.Carries φ run'.result ∧
      ((∀ m i stmt, q.stmt? ⟨m, i⟩ = some stmt → ∃ j, p.stmt? ⟨m, j⟩ = some stmt) →
        run.result.Mirrors p q run'.result) := by
  have hbelow : p.Below q := ⟨houtline, fun hs => ⟨_, hφ _ _ hs⟩⟩
  have hmain' : q.main = some entry := main_eq_of_outline houtline ▸ hmain
  obtain ⟨run, hrun, hexact, hcontained⟩ := analyze_exact hp.wellFormed hmain options
  obtain ⟨run', hrun', hexact', hcontained'⟩ := analyze_exact hq.wellFormed hmain' options'
  refine ⟨run, run', hrun, hrun', hexact.carries hexact' hcontained hbelow hφ, fun hback => ?_⟩
  exact hexact.mirrors hexact' hcontained hcontained' hbelow ⟨houtline.symm, fun hs => hback _ _ _ hs⟩

/-! ## §5 A repeated statement -/

/-- The program `getter` with the allocation of its entry method written once more at the end. -/
def repeated : Program :=
  (Builder.after (Builder.getterCalls ++ [.append ⟨1⟩ (.new ⟨2⟩ (.ofClass ⟨1⟩))])).program.indexed

theorem repeated_built : repeated.Built := built_indexed (by decide +kernel)

theorem repeated_outline : repeated.outline = getter.outline := by
  simp [repeated, getter, outline_indexed, Builder.after, Builder.perform, Builder.outline_append]

/-- A map leads to the same statements if it does so for the statements listed. -/
theorem moves_of_statements
    (h : ∀ x ∈ p.statements, q.stmt? (x.1.move φ) = some x.2) : p.Moves q φ :=
  fun loc stmt hs => h (loc, stmt) (mem_statements.2 hs)

/-- Without the repetition only the site of one object is lost, and the repetition only adds facts. -/
theorem analyze_mono_repeated :
    (∃ run run', repeated.analyze { order := .lifo } = .ok run ∧ getter.analyze {} = .ok run' ∧
      run.result.Carries (fun _ i => if i = 3 then 0 else i) run'.result ∧
      run.result.Mirrors repeated getter run'.result) ∧
    ∃ run run', getter.analyze {} = .ok run ∧ repeated.analyze { order := .lifo } = .ok run' ∧
      run.result.Carries (fun _ i => i) run'.result := by
  constructor
  · have hmoves : repeated.Moves getter fun _ i => if i = 3 then 0 else i :=
      moves_of_statements (by decide +kernel)
    have hmain : repeated.main = some ⟨1⟩ := by decide +kernel
    have hback : ∀ x ∈ getter.statements, repeated.stmt? x.1 = some x.2 := by decide +kernel
    obtain ⟨run, run', hrun, hrun', hcarries, hmirrors⟩ := analyze_mono repeated_built getter_built
      repeated_outline hmoves hmain { order := .lifo } {}
    refine ⟨run, run', hrun, hrun', hcarries, hmirrors fun m i stmt hs => ?_⟩
    exact ⟨i, hback (⟨m, i⟩, stmt) (mem_statements.2 hs)⟩
  · have hmoves : getter.Moves repeated fun _ i => i := moves_of_statements (by decide +kernel)
    obtain ⟨run, run', hrun, hrun', hcarries, _⟩ := analyze_mono getter_built repeated_built
      repeated_outline.symm hmoves getter_main {} { order := .lifo }
    exact ⟨run, run', hrun, hrun', hcarries⟩

end Program

end PointsTo
