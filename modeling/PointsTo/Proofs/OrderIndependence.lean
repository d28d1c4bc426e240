import PointsTo.Proofs.Leastness

/-!
# Results do not depend on the order of work

Two runs of the analysis number objects and pointers in different orders, but an object is determined by
its allocation site. Renaming objects through their sites turns the result of one run into the result of
the other, because both say exactly what can be derived.

- `Result.counterpart?`: the renaming.
- `Result.Matches`: two results are equal up to the renaming.
- `Program.analyze_matches`: all results of the analysis of a program match.
-/

namespace PointsTo

namespace Result

variable {p : Program} {entry : MethodId} {r r' : Result}

/-! ## §1 Renaming -/

/-- The object of the second result that has the allocation site of an object of the first. -/
def counterpart? (r r' : Result) (o : ObjId) : Option ObjId :=
  (r.heap.obj? o).bind fun obj => r'.heap.at? obj.site

/-- The pointer of the second result that corresponds to a pointer of the first. -/
def renamed? (r r' : Result) : Pointer → Option Pointer
  | .var v => some (.var v)
  | .field o f => (r.counterpart? r' o).map (.field · f)
  | .element o => (r.counterpart? r' o).map .element
  | .staticField f => some (.staticField f)

/-- Two results are equal up to the renaming of objects through their allocation sites. -/
structure Matches (r r' : Result) : Prop where
  /-- The counterpart of an object has the same allocation site and the same type. -/
  objects : ∀ {o obj}, r.heap.obj? o = some obj →
    ∃ o', r.counterpart? r' o = some o' ∧ r'.heap.obj? o' = some obj
  onto : ∀ {o' obj}, r'.heap.obj? o' = some obj → ∃ o, r.counterpart? r' o = some o'
  injective : ∀ {o₁ o₂ o'}, r.counterpart? r' o₁ = some o' → r.counterpart? r' o₂ = some o' → o₁ = o₂
  /-- The renaming maps the pointers, also those that point nowhere, exactly onto the pointers. -/
  renames : ∀ x ∈ r.flow.pointers, ∃ x' ∈ r'.flow.pointers, r.renamed? r' x = some x'
  pointers : ∀ x' ∈ r'.flow.pointers, ∃ x ∈ r.flow.pointers, r.renamed? r' x = some x'
  pointsTo : ∀ {x x'}, r.renamed? r' x = some x' →
    ∀ o', o' ∈ r'.pointsTo x' ↔ ∃ o ∈ r.pointsTo x, r.counterpart? r' o = some o'
  flows : ∀ {x x' y y'}, r.renamed? r' x = some x' → r.renamed? r' y = some y' →
    r'.flow.hasFlow x' y' = r.flow.hasFlow x y
  calls : ∀ e, e ∈ r'.calls.edges ↔ e ∈ r.calls.edges
  methods : ∀ m, m ∈ r'.calls.methods ↔ m ∈ r.calls.methods
  entries : r'.calls.entries = r.calls.entries
  /-- All counts but the number of propagations agree. -/
  statistics : { r'.statistics with iterations := r.iterations } = r.statistics

/-- Objects correspond if they have the same site. -/
theorem counterpart?_eq_some_iff (hnodup : r'.heap.siteList.Nodup) {o o' : ObjId} :
    r.counterpart? r' o = some o' ↔
      ∃ site, r.heap.site? o = some site ∧ r'.heap.site? o' = some site := by
  constructor
  · intro h
    obtain ⟨obj, hobj, hat⟩ := Option.bind_eq_some_iff.1 h
    exact ⟨obj.site, Heap.site?_of_obj? hobj, Heap.site?_of_at? hat⟩
  · rintro ⟨site, hsite, hsite'⟩
    obtain ⟨obj, hobj, rfl⟩ := Option.map_eq_some_iff.1 hsite
    exact Option.bind_eq_some_iff.2 ⟨obj, hobj, Heap.at?_of_site? hnodup hsite'⟩

/-- Pointers correspond if they name the same place. -/
theorem renamed?_eq_some_iff (hnodup : r'.heap.siteList.Nodup) {x x' : Pointer} :
    r.renamed? r' x = some x' ↔
      ∃ place, r.heap.place? x = some place ∧ r'.heap.place? x' = some place := by
  constructor
  · intro h
    cases x with
    | var v =>
      cases h
      exact ⟨_, rfl, rfl⟩
    | staticField f =>
      cases h
      exact ⟨_, rfl, rfl⟩
    | field o f =>
      obtain ⟨o', ho', rfl⟩ := Option.map_eq_some_iff.1 h
      obtain ⟨site, hsite, hsite'⟩ := (counterpart?_eq_some_iff hnodup).1 ho'
      exact ⟨.field site f, by simp [Heap.place?, hsite], by simp [Heap.place?, hsite']⟩
    | element o =>
      obtain ⟨o', ho', rfl⟩ := Option.map_eq_some_iff.1 h
      obtain ⟨site, hsite, hsite'⟩ := (counterpart?_eq_some_iff hnodup).1 ho'
      exact ⟨.element site, by simp [Heap.place?, hsite], by simp [Heap.place?, hsite']⟩
  · rintro ⟨place, hx, hx'⟩
    cases place with
    | var v => rw [Heap.eq_var_of_place? hx, Heap.eq_var_of_place? hx', renamed?]
    | staticField f =>
      rw [Heap.eq_staticField_of_place? hx, Heap.eq_staticField_of_place? hx', renamed?]
    | field site f =>
      obtain ⟨o, rfl, hsite⟩ := Heap.exists_field_of_place? hx
      obtain ⟨o', rfl, hsite'⟩ := Heap.exists_field_of_place? hx'
      rw [renamed?, (counterpart?_eq_some_iff hnodup).2 ⟨site, hsite, hsite'⟩]
      rfl
    | element site =>
      obtain ⟨o, rfl, hsite⟩ := Heap.exists_element_of_place? hx
      obtain ⟨o', rfl, hsite'⟩ := Heap.exists_element_of_place? hx'
      rw [renamed?, (counterpart?_eq_some_iff hnodup).2 ⟨site, hsite, hsite'⟩]
      rfl

/-! ## §2 Exact results in terms of derivable facts -/

namespace Exact

theorem mem_pointsTo_iff (h : r.Exact p entry) {x : Pointer} {o : ObjId} {place : Place}
    {site : Location} (hx : r.heap.place? x = some place) (ho : r.heap.site? o = some site) :
    o ∈ r.pointsTo x ↔ Derivable p entry (.pointsTo place site) := by
  rw [← h.facts]
  constructor
  · exact fun hmem => ⟨x, o, hx, ho, hmem⟩
  · rintro ⟨x', o', hx', ho', hmem⟩
    rwa [Heap.place?_injective h.nodup hx hx', Heap.site?_injective h.nodup ho ho']

theorem hasFlow_iff (h : r.Exact p entry) {x y : Pointer} {a b : Place}
    (hx : r.heap.place? x = some a) (hy : r.heap.place? y = some b) :
    r.flow.hasFlow x y = true ↔ Derivable p entry (.flows a b) := by
  rw [← h.facts]
  constructor
  · exact fun hflow => ⟨x, y, hx, hy, hflow⟩
  · rintro ⟨x', y', hx', hy', hflow⟩
    rwa [Heap.place?_injective h.nodup hx hx', Heap.place?_injective h.nodup hy hy']

theorem mem_siteList_of_obj? {o : ObjId} {obj : Obj} (hobj : r.heap.obj? o = some obj) :
    obj.site ∈ r.heap.siteList := by
  rw [Heap.siteList]
  rw [Heap.obj?_eq] at hobj
  exact List.mem_map_of_mem (List.mem_of_getElem? hobj)

/-- An exact result has an object with the same site and type as any object of another one. -/
theorem exists_obj (h : r.Exact p entry) (h' : r'.Exact p entry) {o : ObjId} {obj : Obj}
    (hobj : r.heap.obj? o = some obj) : ∃ o', r'.heap.obj? o' = some obj := by
  have hsite : obj.site ∈ r'.heap.siteList :=
    (h'.sites _).2 ((h.sites _).1 (mem_siteList_of_obj? hobj))
  -- the sites of both results are the allocations in methods that are derivably reachable
  cases hat : r'.heap.at? obj.site with
  | none => exact absurd hsite (Heap.at?_eq_none_iff.1 hat)
  | some o' =>
    obtain ⟨obj', hobj', hsame⟩ := Heap.exists_obj?_of_at? hat
    -- both objects carry the type that is allocated at their site
    have hty := h'.typed hobj'
    rw [hsame, h.typed hobj, Option.some.injEq] at hty
    have heq : obj' = obj := by
      cases obj
      cases obj'
      simp_all
    exact ⟨o', heq ▸ hobj'⟩

theorem exists_node (h : r.Exact p entry) (h' : r'.Exact p entry) {x : Pointer}
    (hx : x ∈ r.flow.pointers) : ∃ place, r.heap.place? x = some place ∧
      ∃ x' ∈ r'.flow.pointers, r'.heap.place? x' = some place := by
  obtain ⟨place, hplace, hlisted⟩ := h.nodes x (FlowGraph.mem_pointers.1 hx)
  obtain ⟨x', hx', hplace'⟩ := h'.listed place hlisted
  exact ⟨place, hplace, x', FlowGraph.mem_pointers.2 hx', hplace'⟩

end Exact

/-! ## §3 Counts -/

/-- Lists without repetitions that have the same members are equally long. -/
theorem length_eq_of_mem_iff {α : Type} {l l' : List α} (hl : l.Nodup) (hl' : l'.Nodup)
    (h : ∀ a, a ∈ l ↔ a ∈ l') : l.length = l'.length :=
  ((List.perm_ext_iff_of_nodup hl hl').2 h).length_eq

/-- The places that the nodes stand for. -/
def places (r : Result) : List (Option Place) := r.flow.pointerList.map r.heap.place?

theorem Exact.nodup_places (h : r.Exact p entry) : r.places.Nodup := by
  -- the names are equal options, so the names themselves have to be found first
  refine h.pointersNodup.map_on fun x hx y _ heq => ?_
  obtain ⟨place, hplace, _⟩ := h.nodes x hx
  exact Heap.place?_injective h.nodup hplace (heq ▸ hplace)

theorem Exact.mem_places_iff (h : r.Exact p entry) {name : Option Place} :
    name ∈ r.places ↔ ∃ place, name = some place ∧ Listed p (Derivable p entry) place := by
  rw [places, List.mem_map]
  constructor
  · rintro ⟨x, hx, rfl⟩
    exact h.nodes x hx
  · rintro ⟨place, rfl, hlisted⟩
    exact h.listed place hlisted

/-- The pairs of places that the edges stand for. -/
def links (r : Result) : List (Option Place × Option Place) :=
  r.flow.edges.toList.map fun e =>
    ((r.flow.pointer? e.1).bind r.heap.place?, (r.flow.pointer? e.2).bind r.heap.place?)

theorem Exact.placeOf (h : r.Exact p entry) {id : PointerId} {x : Pointer}
    (hx : r.flow.pointer? id = some x) : ∃ place, r.heap.place? x = some place ∧
      (r.flow.pointer? id).bind r.heap.place? = some place := by
  obtain ⟨place, hplace, _⟩ := h.nodes x (FlowGraph.mem_pointerList_of_pointer? hx)
  exact ⟨place, hplace, by rw [hx, Option.bind_some, hplace]⟩

/-- Different nodes stand for different places. -/
theorem Exact.id_injective (h : r.Exact p entry) {i j : PointerId} {x y : Pointer}
    (hi : r.flow.pointer? i = some x) (hj : r.flow.pointer? j = some y)
    (heq : (r.flow.pointer? i).bind r.heap.place? = (r.flow.pointer? j).bind r.heap.place?) :
    i = j := by
  obtain ⟨a, hx, ha⟩ := h.placeOf hi
  obtain ⟨b, hy, hb⟩ := h.placeOf hj
  rw [ha, hb, Option.some.injEq] at heq
  subst heq
  have hsame := Heap.place?_injective h.nodup hx hy
  subst hsame
  have hfind := FlowGraph.find?_of_pointer? h.pointersNodup hi
  rw [FlowGraph.find?_of_pointer? h.pointersNodup hj, Option.some.injEq] at hfind
  exact hfind.symm

theorem Exact.nodup_links (h : r.Exact p entry) : r.links.Nodup := by
  refine (Ascending.nodup_toList _).map_on fun e he e' he' heq => ?_
  obtain ⟨a, b, ha, hb⟩ := h.edges e he
  obtain ⟨a', b', ha', hb'⟩ := h.edges e' he'
  rw [Prod.mk.injEq] at heq
  exact Prod.ext (h.id_injective ha ha' heq.1) (h.id_injective hb hb' heq.2)

theorem Exact.mem_links_iff (h : r.Exact p entry) {link : Option Place × Option Place} :
    link ∈ r.links ↔ ∃ x y, link = (some x, some y) ∧ Derivable p entry (.flows x y) := by
  rw [links, List.mem_map]
  constructor
  · rintro ⟨e, he, rfl⟩
    obtain ⟨a, b, ha, hb⟩ := h.edges e he
    obtain ⟨x, hx, hax⟩ := h.placeOf ha
    obtain ⟨y, hy, hby⟩ := h.placeOf hb
    have hflow : r.flow.hasFlow a b = true := FlowGraph.hasFlow_iff.2
      ⟨e.1, e.2, FlowGraph.find?_of_pointer? h.pointersNodup ha,
        FlowGraph.find?_of_pointer? h.pointersNodup hb, he⟩
    exact ⟨x, y, by rw [hax, hby], (h.hasFlow_iff hx hy).1 hflow⟩
  · rintro ⟨x, y, rfl, hfact⟩
    obtain ⟨a, b, ha, hb, hflow⟩ := (h.facts _).2 hfact
    obtain ⟨i, j, hi, hj, hedge⟩ := FlowGraph.hasFlow_iff.1 hflow
    refine ⟨(i, j), hedge, ?_⟩
    simp [FlowGraph.pointer?_of_find? hi, FlowGraph.pointer?_of_find? hj, ha, hb]

theorem Exact.statistics (h : r.Exact p entry) (h' : r'.Exact p entry) :
    { r'.statistics with iterations := r.iterations } = r.statistics := by
  have hmethods : r'.calls.methods.length = r.calls.methods.length :=
    length_eq_of_mem_iff h'.methodsNodup h.methodsNodup fun m =>
      (h'.facts (.reachable m)).trans (h.facts (.reachable m)).symm
  have hcalls : r'.calls.edges.length = r.calls.edges.length :=
    length_eq_of_mem_iff h'.callsNodup h.callsNodup fun e =>
      (h'.facts (.calls e)).trans (h.facts (.calls e)).symm
  -- nodes and edges are numbered differently in the two results, so their names are counted
  have hnodes : r'.flow.size = r.flow.size := by
    have hlength := length_eq_of_mem_iff h'.nodup_places h.nodup_places fun name =>
      h'.mem_places_iff.trans h.mem_places_iff.symm
    simpa [places, FlowGraph.length_pointerList] using hlength
  have hedges : r'.flow.edgeCount = r.flow.edgeCount := by
    have hlength := length_eq_of_mem_iff h'.nodup_links h.nodup_links fun link =>
      h'.mem_links_iff.trans h.mem_links_iff.symm
    simpa [links, FlowGraph.edgeCount, Ascending.size] using hlength
  have hobjects : r'.heap.size = r.heap.size := by
    have hlength := length_eq_of_mem_iff h'.nodup h.nodup fun site =>
      (h'.sites site).trans (h.sites site).symm
    simpa [Heap.length_siteList] using hlength
  simp [Result.statistics, hmethods, hcalls, hnodes, hedges, hobjects]

/-! ## §4 Matching -/

/-- Exact results match. -/
theorem Exact.matches (h : r.Exact p entry) (h' : r'.Exact p entry) : r.Matches r' where
  objects {o obj} hobj := by
    obtain ⟨o', hobj'⟩ := h.exists_obj h' hobj
    exact ⟨o', (counterpart?_eq_some_iff h'.nodup).2
      ⟨_, Heap.site?_of_obj? hobj, Heap.site?_of_obj? hobj'⟩, hobj'⟩
  onto {o' obj} hobj' := by
    obtain ⟨o, hobj⟩ := h'.exists_obj h hobj'
    exact ⟨o, (counterpart?_eq_some_iff h'.nodup).2
      ⟨_, Heap.site?_of_obj? hobj, Heap.site?_of_obj? hobj'⟩⟩
  injective {o₁ o₂ o'} h₁ h₂ := by
    obtain ⟨site₁, hsite₁, hsite⟩ := (counterpart?_eq_some_iff h'.nodup).1 h₁
    obtain ⟨site₂, hsite₂, hsite'⟩ := (counterpart?_eq_some_iff h'.nodup).1 h₂
    rw [hsite, Option.some.injEq] at hsite'
    subst hsite'
    exact Heap.site?_injective h.nodup hsite₁ hsite₂
  renames x hx := by
    obtain ⟨place, hplace, x', hx', hplace'⟩ := h.exists_node h' hx
    exact ⟨x', hx', (renamed?_eq_some_iff h'.nodup).2 ⟨place, hplace, hplace'⟩⟩
  pointers x' hx' := by
    obtain ⟨place, hplace', x, hx, hplace⟩ := h'.exists_node h hx'
    exact ⟨x, hx, (renamed?_eq_some_iff h'.nodup).2 ⟨place, hplace, hplace'⟩⟩
  pointsTo {x x'} hrenamed o' := by
    obtain ⟨place, hplace, hplace'⟩ := (renamed?_eq_some_iff h'.nodup).1 hrenamed
    constructor
    · -- through the derivable fact that the object of the second result stands for
      intro ho'
      obtain ⟨site, hsite'⟩ := h'.located x' o' ho'
      have hfact := (h'.mem_pointsTo_iff hplace' hsite').1 ho'
      obtain ⟨a, o, ha, hsite, ho⟩ := (h.facts _).2 hfact
      have hsame := Heap.place?_injective h.nodup ha hplace
      exact ⟨o, hsame ▸ ho, (counterpart?_eq_some_iff h'.nodup).2 ⟨site, hsite, hsite'⟩⟩
    · rintro ⟨o, ho, hcounterpart⟩
      obtain ⟨site, hsite, hsite'⟩ := (counterpart?_eq_some_iff h'.nodup).1 hcounterpart
      exact (h'.mem_pointsTo_iff hplace' hsite').2 ((h.mem_pointsTo_iff hplace hsite).1 ho)
  flows {x x' y y'} hx hy := by
    obtain ⟨a, ha, ha'⟩ := (renamed?_eq_some_iff h'.nodup).1 hx
    obtain ⟨b, hb, hb'⟩ := (renamed?_eq_some_iff h'.nodup).1 hy
    rw [Bool.eq_iff_iff, h.hasFlow_iff ha hb, h'.hasFlow_iff ha' hb']
  calls e := (h'.facts (.calls e)).trans (h.facts (.calls e)).symm
  methods m := (h'.facts (.reachable m)).trans (h.facts (.reachable m)).symm
  entries := h'.entries.trans h.entries.symm
  statistics := h.statistics h'

end Result

namespace Program

variable {p : Program} {entry : MethodId}

/-- **Order independence**: any two analyses of a program give matching results, whatever the order of
    work and the report asked for. -/
theorem analyze_matches (hp : p.Built) (hmain : p.main = some entry) (options options' : Options) :
    ∃ run run', p.analyze options = .ok run ∧ p.analyze options' = .ok run' ∧
      run.result.Matches run'.result := by
  have hwell := hp.wellFormed
  have hlt := hwell.mainExists hmain
  obtain ⟨run, hrun, hresult⟩ := analyze_eq hmain options
  obtain ⟨run', hrun', hresult'⟩ := analyze_eq hmain options'
  have hexact := solve_exact hwell hlt options.order
  have hexact' := solve_exact hwell hlt options'.order
  rw [← hresult] at hexact
  rw [← hresult'] at hexact'
  exact ⟨run, run', hrun, hrun', hexact.matches hexact'⟩

theorem analyze_matches_getter :
    ∃ run run', getter.analyze { order := .fifo } = .ok run ∧
      getter.analyze { order := .lifo } = .ok run' ∧ run.result.Matches run'.result :=
  analyze_matches getter_built getter_main { order := .fifo } { order := .lifo }

end Program

end PointsTo
