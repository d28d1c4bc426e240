import PointsTo.Proofs.Consistency

/-!
# Coherent lookups

What a reader of a program sees are lookups: an identifier gives an entry, a name gives an identifier. The
laws of consistent tables are stated here for lookups, and so is what follows for names: a lookup by name
finds what has the name, and nothing else.

A table of class names can also be kept along the way, next to the classes. It is the same as a search of
the classes, whatever is declared.

- `Program.Coherent`, `Program.ExactLookups`: the laws for lookups.
- `Directory`: a program under construction with a table of class names.
- `Directory.after_eq`: the table is exact after every sequence of calls.
- `Builder.after_coherent`: the laws hold after every sequence of calls, and in every built program.
-/

namespace PointsTo

namespace Program

variable {p : Program}

/-! ## §1 The laws for lookups -/

/-- The tables of a program, as lookups show them, say the same thing wherever they say it twice. -/
structure Coherent (p : Program) : Prop where
  /-- Classes have distinct names. -/
  className_inj : ∀ {c c' cls cls'}, p.class? c = some cls → p.class? c' = some cls' →
    cls.name = cls'.name → c = c'
  /-- What a class lists as an interface is one. -/
  interfaces : ∀ {c cls iface}, p.class? c = some cls → iface ∈ cls.interfaces →
    ∃ target, p.class? iface = some target ∧ target.isInterface = true
  /-- Interfaces extend no class. -/
  roots : ∀ {c cls}, p.class? c = some cls → cls.isInterface = true → cls.superclass = none
  /-- A field is listed by its class, once, and by no other class. -/
  fieldOwner : ∀ {f field}, p.field? f = some field → ∃ cls, p.class? field.owner = some cls
  mem_fields : ∀ {c cls f}, p.class? c = some cls →
    (f ∈ cls.fields ↔ ∃ field, p.field? f = some field ∧ field.owner = c)
  nodup_fields : ∀ {c cls}, p.class? c = some cls → cls.fields.Nodup
  /-- The fields of a class have distinct names. -/
  fieldName_inj : ∀ {f f' field field'}, p.field? f = some field → p.field? f' = some field' →
    field.owner = field'.owner → field.name = field'.name → f = f'
  /-- A class maps a subsignature to a method precisely if the method names both. -/
  declaredMethod : ∀ {c s m}, p.declaredMethod? c s = some m ↔
    ∃ method, p.method? m = some method ∧ method.owner = c ∧ method.subsignature = s
  /-- The methods that a class lists form a map: no subsignature occurs twice. -/
  nodup_methods : ∀ {c cls}, p.class? c = some cls → (cls.methods.map Prod.fst).Nodup
  /-- Every method is mapped by one class, under one subsignature. -/
  declaredOnce : ∀ {m method}, p.method? m = some method →
    ∃! entry : ClassId × Subsignature, p.declaredMethod? entry.1 entry.2 = some m
  /-- A variable is listed by its method, once, and by no other method. -/
  varMethod : ∀ {v var}, p.var? v = some var → ∃ method, p.method? var.method = some method
  mem_vars : ∀ {m method v}, p.method? m = some method →
    (v ∈ method.vars ↔ ∃ var, p.var? v = some var ∧ var.method = m)
  nodup_vars : ∀ {m method}, p.method? m = some method → method.vars.Nodup
  /-- The variables of a method have distinct names. -/
  varName_inj : ∀ {v v' var var'}, p.var? v = some var → p.var? v' = some var' →
    var.method = var'.method → var.name = var'.name → v = v'
  /-- Precisely the methods that are not static have a receiver. -/
  self_isSome : ∀ {m method}, p.method? m = some method →
    (method.self.isSome = true ↔ method.isStatic = false)
  /-- There is a parameter for each parameter type of the subsignature. -/
  length_params : ∀ {m method}, p.method? m = some method →
    method.params.length = method.subsignature.paramCount
  /-- The receiver and the parameters are distinct variables of the method. -/
  nodup_formals : ∀ {m method}, p.method? m = some method →
    (method.self.toList ++ method.params).Nodup
  formals_subset : ∀ {m method v}, p.method? m = some method →
    v ∈ method.self.toList ++ method.params → p.Owns m v
  /-- Abstract methods are not static. -/
  notStatic : ∀ {m method}, p.method? m = some method → method.isAbstract = true →
    method.isStatic = false

/-- Names are looked up exactly: what is found has the name, and what has the name is found. -/
structure ExactLookups (p : Program) : Prop where
  classByName : ∀ {name c}, p.classByName? name = some c ↔
    ∃ cls, p.class? c = some cls ∧ cls.name = name
  declaredMethodNamed : ∀ {c cls text s}, p.class? c = some cls → Subsignature.parse text = .ok s →
    ∃ answer, p.declaredMethodNamed? c text = some answer ∧ ∀ m, answer = some m ↔
      ∃ method, p.method? m = some method ∧ method.owner = c ∧ method.subsignature = s
  varByName : ∀ {m method name v}, p.method? m = some method →
    (p.varByName? method name = some v ↔
      ∃ var, p.var? v = some var ∧ var.method = m ∧ var.name = name)

/-! ## §2 Consistent tables are coherent -/

/-- In a map, what is listed under a key is what the key maps to. -/
theorem lookup_eq_some_iff_mem {α β : Type} [BEq α] [LawfulBEq α] {l : List (α × β)} {a : α} {b : β}
    (h : (l.map Prod.fst).Nodup) : l.lookup a = some b ↔ (a, b) ∈ l := by
  induction l with
  | nil => simp
  | cons entry rest ih =>
    obtain ⟨k, v⟩ := entry
    obtain ⟨hk, hrest⟩ := List.nodup_cons.1 h
    by_cases ha : a = k
    · -- the key does not occur any further
      subst ha
      have hb : (a, b) ∉ rest := fun hmem => hk (List.mem_map.2 ⟨_, hmem, rfl⟩)
      simp [hb, eq_comm]
    · simp [List.lookup_cons, beq_false_of_ne ha, ha, ih hrest]

/-- What is found is all there is to find, if nothing else fits. -/
theorem find?_eq_some_iff_mem {α : Type} {l : List α} {f : α → Bool} {a : α}
    (h : ∀ {b c}, b ∈ l → c ∈ l → f b = true → f c = true → b = c) :
    l.find? f = some a ↔ a ∈ l ∧ f a = true := by
  constructor
  · exact fun hfind => ⟨List.mem_of_find?_eq_some hfind, List.find?_some hfind⟩
  · rintro ⟨hmem, ha⟩
    cases hfind : l.find? f with
    | none => exact absurd ha (List.find?_eq_none.1 hfind a hmem)
    | some b =>
      exact congrArg some (h (List.mem_of_find?_eq_some hfind) hmem (List.find?_some hfind) ha)

namespace Consistent

theorem mem_fields (h : p.Consistent) {c : ClassId} {cls : Class} (hc : p.class? c = some cls)
    {f : FieldId} : f ∈ cls.fields ↔ ∃ field, p.field? f = some field ∧ field.owner = c := by
  rw [h.fields.mem_list_iff hc]
  constructor
  · rintro ⟨k, field, hfield, howner, rfl⟩
    exact ⟨field, hfield, congrArg Id.mk howner⟩
  · rintro ⟨field, hfield, rfl⟩
    exact ⟨f.index, field, hfield, rfl, rfl⟩

theorem mem_methods (h : p.Consistent) {c : ClassId} {cls : Class} (hc : p.class? c = some cls)
    {s : Subsignature} {m : MethodId} : (s, m) ∈ cls.methods ↔
      ∃ method, p.method? m = some method ∧ method.owner = c ∧ method.subsignature = s := by
  rw [h.methods.mem_list_iff hc]
  constructor
  · rintro ⟨k, method, hmethod, howner, heq⟩
    cases heq
    exact ⟨method, hmethod, congrArg Id.mk howner, rfl⟩
  · rintro ⟨method, hmethod, rfl, rfl⟩
    exact ⟨m.index, method, hmethod, rfl, rfl⟩

theorem mem_vars (h : p.Consistent) {m : MethodId} {method : Method} (hm : p.method? m = some method)
    {v : VarId} : v ∈ method.vars ↔ ∃ var, p.var? v = some var ∧ var.method = m := by
  rw [h.vars.mem_list_iff hm]
  constructor
  · rintro ⟨k, var, hvar, howner, rfl⟩
    exact ⟨var, hvar, congrArg Id.mk howner⟩
  · rintro ⟨var, hvar, rfl⟩
    exact ⟨v.index, var, hvar, rfl, rfl⟩

/-- No subsignature is listed twice. -/
theorem nodup_methods (h : p.Consistent) {c : ClassId} {cls : Class} (hc : p.class? c = some cls) :
    (cls.methods.map Prod.fst).Nodup := by
  have hnodup : cls.methods.Nodup :=
    h.methods.nodup_list (fun heq => congrArg (Id.index ∘ Prod.snd) heq) hc
  apply hnodup.map_on
  rintro ⟨s, m⟩ hs ⟨s', m'⟩ hs' rfl
  -- two methods of one class with one subsignature are the same
  obtain ⟨method, hm, howner, hsub⟩ := (h.mem_methods hc).1 hs
  obtain ⟨method', hm', howner', hsub'⟩ := (h.mem_methods hc).1 hs'
  have hindex := h.methods.position_unique hm hm' (by simp only [howner, howner', hsub, hsub'])
  exact congrArg (fun k => (s, Id.mk k)) hindex

theorem className_inj (h : p.Consistent) {c c' : ClassId} {cls cls' : Class}
    (hc : p.class? c = some cls) (hc' : p.class? c' = some cls') (hname : cls.name = cls'.name) :
    c = c' := by
  have hnames : ∀ {d : ClassId} {cls : Class}, p.class? d = some cls →
      (p.classes.map Class.name).toList[d.index]? = some cls.name := by
    intro d cls hd
    have hd' : p.classes[d.index]? = some cls := hd
    simp [hd']
  obtain ⟨hlt, _⟩ := List.getElem?_eq_some_iff.1 (hnames hc)
  have hindex := (List.getElem?_inj hlt h.classes.names).1
    ((hnames hc).trans (hname ▸ (hnames hc').symm))
  exact congrArg Id.mk hindex

theorem declaredMethod?_eq_some_iff (h : p.Consistent) {c : ClassId} {s : Subsignature}
    {m : MethodId} : p.declaredMethod? c s = some m ↔
      ∃ method, p.method? m = some method ∧ method.owner = c ∧ method.subsignature = s := by
  have hlisted : ∀ {cls}, p.class? c = some cls → (cls.methods.lookup s = some m ↔
      ∃ method, p.method? m = some method ∧ method.owner = c ∧ method.subsignature = s) := by
    intro cls hc
    rw [lookup_eq_some_iff_mem (h.nodup_methods hc), h.mem_methods hc]
  constructor
  · intro hlookup
    obtain ⟨cls, hc, hs⟩ := Option.bind_eq_some_iff.1 hlookup
    exact (hlisted hc).1 hs
  · intro hmethod
    obtain ⟨method, hm, howner, _⟩ := id hmethod
    obtain ⟨cls, hc⟩ := h.methods.exists_owner hm
    rw [howner] at hc
    have hs := (hlisted hc).2 hmethod
    exact Option.bind_eq_some_iff.2 ⟨cls, hc, hs⟩

theorem varName_inj (h : p.Consistent) {v v' : VarId} {var var' : Var} (hv : p.var? v = some var)
    (hv' : p.var? v' = some var') (hmethod : var.method = var'.method)
    (hname : var.name = var'.name) : v = v' := by
  have hindex := h.vars.position_unique hv hv' (by simp only [hmethod, hname])
  exact congrArg Id.mk hindex

/-- The laws, as lookups show them. -/
theorem coherent (h : p.Consistent) : p.Coherent where
  className_inj := h.className_inj
  interfaces hc hiface := by
    have hkind := h.classes.interfaces _ (Array.mem_of_getElem? hc) _ hiface
    rw [Array.getElem?_map] at hkind
    obtain ⟨target, htarget, hinterface⟩ := Option.map_eq_some_iff.1 hkind
    exact ⟨target, htarget, by simp [Class.isInterface, hinterface]⟩
  roots hc hinterface :=
    h.classes.roots _ (Array.mem_of_getElem? hc) (by simpa [Class.isInterface] using hinterface)
  fieldOwner hf := h.fields.exists_owner hf
  mem_fields hc := h.mem_fields hc
  nodup_fields hc := h.fields.nodup_list (fun heq => congrArg Id.index heq) hc
  fieldName_inj hf hf' howner hname := by
    have hindex := h.fields.position_unique hf hf' (by simp only [howner, hname])
    exact congrArg Id.mk hindex
  declaredMethod := h.declaredMethod?_eq_some_iff
  nodup_methods := h.nodup_methods
  declaredOnce {m method} hm := by
    refine ⟨(method.owner, method.subsignature),
      h.declaredMethod?_eq_some_iff.2 ⟨method, hm, rfl, rfl⟩, ?_⟩
    rintro ⟨c, s⟩ hlookup
    obtain ⟨method', hm', rfl, rfl⟩ := h.declaredMethod?_eq_some_iff.1 hlookup
    cases hm.symm.trans hm'
    rfl
  varMethod hv := h.vars.exists_owner hv
  mem_vars hm := h.mem_vars hm
  nodup_vars hm := h.vars.nodup_list (fun heq => congrArg Id.index heq) hm
  varName_inj := h.varName_inj
  self_isSome hm := by
    rw [(h.formed _ (Array.mem_of_getElem? hm)).self_isSome]
    simp
  length_params hm := (h.formed _ (Array.mem_of_getElem? hm)).length_params
  nodup_formals hm := by
    have hnodup := h.vars.nodup_list (fun heq => congrArg Id.index heq) hm
    exact hnodup.sublist (h.formed _ (Array.mem_of_getElem? hm)).formals.sublist
  formals_subset hm hv :=
    (h.mem_vars hm).1 ((h.formed _ (Array.mem_of_getElem? hm)).formals.subset hv)
  notStatic hm := (h.formed _ (Array.mem_of_getElem? hm)).notStatic

/-- The name of a class is looked up exactly. -/
theorem classByName?_eq_some_iff (h : p.Consistent) {name : String} {c : ClassId} :
    p.classByName? name = some c ↔ ∃ cls, p.class? c = some cls ∧ cls.name = name := by
  have hfound : ∀ {c'}, p.classByName? name = some c' →
      ∃ cls, p.class? c' = some cls ∧ cls.name = name := by
    intro c' hc'
    obtain ⟨i, hi, rfl⟩ := Option.map_eq_some_iff.1 hc'
    obtain ⟨hlt, hname, _⟩ := Array.findIdx?_eq_some_iff_getElem.1 hi
    exact ⟨_, Array.getElem?_eq_getElem hlt, by simpa using hname⟩
  refine ⟨hfound, ?_⟩
  rintro ⟨cls, hc, hname⟩
  cases hlookup : p.classByName? name with
  | none =>
    have hfresh := fresh_class hlookup
    exact absurd (by simpa [hname] using ⟨cls, Array.mem_of_getElem? hc, hname⟩) hfresh
  | some c' =>
    -- the first class with the name is the only one
    obtain ⟨cls', hc', hname'⟩ := hfound hlookup
    exact congrArg some (h.className_inj hc' hc (hname'.trans hname.symm))

/-- Names are looked up exactly. -/
theorem exactLookups (h : p.Consistent) : p.ExactLookups where
  classByName := h.classByName?_eq_some_iff
  declaredMethodNamed {c cls text s} hc hparse := by
    refine ⟨p.declaredMethod? c s, ?_, fun m => h.declaredMethod?_eq_some_iff⟩
    simp [declaredMethodNamed?, hparse, ofDeclared, hc]
  varByName {m method name v} hm := by
    rw [varByName?, find?_eq_some_iff_mem, h.mem_vars hm]
    · constructor
      · rintro ⟨⟨var, hv, howner⟩, hname⟩
        exact ⟨var, hv, howner, by simpa [hv] using hname⟩
      · rintro ⟨var, hv, howner, hname⟩
        exact ⟨⟨var, hv, howner⟩, by simp [hv, hname]⟩
    · intro w w' hw hw' hname hname'
      obtain ⟨var, hv, howner⟩ := (h.mem_vars hm).1 hw
      obtain ⟨var', hv', howner'⟩ := (h.mem_vars hm).1 hw'
      apply h.varName_inj hv hv' (howner.trans howner'.symm)
      simp only [hv, hv', Option.any_some, beq_iff_eq] at hname hname'
      exact hname.trans hname'.symm

end Consistent

end Program

/-! ## §3 A table of class names -/

/-- A program under construction, together with a table of class names. The table is consulted, and kept
    up to date, whenever a class is declared. -/
structure Directory where
  /-- What has been declared so far. -/
  program : Program := {}
  /-- The classes by name. -/
  names : String → Option ClassId := fun _ => none

namespace Directory

/-- Declares a class, unless the table knows its name already. -/
def declareClass (d : Directory) (name : String) (kind : ClassKind) (superclass : Option ClassId) :
    Directory × Option ClassId :=
  match d.names name with
  | some _ => (d, none)
  | none =>
    let id : ClassId := ⟨d.program.classes.size⟩
    let isRoot := superclass.isNone && kind != .interface
    ({ program := { d.program with
        classes := d.program.classes.push { name, kind, superclass }
        objectClass := d.program.objectClass.or (if isRoot then some id else none) }
       names := Function.update d.names name (some id) },
      some id)

/-- What a call leaves behind. Only the declaration of a class concerns the table. -/
def perform (d : Directory) : Builder.Call → Directory
  | .addClass name superclass => (d.declareClass name .concrete superclass).1
  | .addAbstractClass name superclass => (d.declareClass name .abstract superclass).1
  | .addInterface name superinterfaces =>
    match d.declareClass name .interface none with
    | (d, none) => d
    | (d, some id) =>
      { d with program := (Builder.addImplementations ⟨d.program⟩ id superinterfaces).1.program }
  | call => { d with program := (Builder.perform ⟨d.program⟩ call).program }

/-- What a sequence of calls leaves behind. -/
def after (calls : List Builder.Call) : Directory := calls.foldl perform {}

/-- The directory of a program, with the names that are found by searching its classes. -/
def ofProgram (p : Program) : Directory := ⟨p, p.classByName?⟩

end Directory

namespace Program

theorem classByName?_eq (p : Program) (name : String) :
    p.classByName? name = ((p.classes.map Class.name).findIdx? (· == name)).map Id.mk := by
  simp [classByName?, Function.comp_def]

/-- A new class is found under its name, and all others as before. -/
theorem classByName?_declare (p : Program) (root : Option ClassId) (cls : Class)
    (hfresh : p.classByName? cls.name = none) :
    ({ p with classes := p.classes.push cls, objectClass := root } : Program).classByName? =
      Function.update p.classByName? cls.name (some ⟨p.classes.size⟩) := by
  funext name
  by_cases hname : name = cls.name
  · subst hname
    rw [Function.update_self]
    simp only [classByName?, Option.map_eq_none_iff] at hfresh
    simp [classByName?, Array.findIdx?_push, hfresh]
  · rw [Function.update_of_ne hname]
    simp [classByName?, Array.findIdx?_push, Ne.symm hname]

variable {p q : Program}

/-- An amendment does not touch names of classes. -/
theorem Amend.classByName? (h : p.Amend q) : q.classByName? = p.classByName? := by
  funext name
  rw [classByName?_eq, classByName?_eq]
  cases h <;> simp [map_modify_of_unseen]

/-- A table of names outlives amendments. -/
theorem Amends.ofProgram (h : p.Amends q) :
    { Directory.ofProgram p with program := q } = Directory.ofProgram q := by
  have hnames : q.classByName? = p.classByName? := by
    induction h with
    | refl => rfl
    | tail _ hlast ih => rw [hlast.classByName?, ih]
  rw [Directory.ofProgram, Directory.ofProgram, hnames]

end Program

namespace Directory

theorem declareClass_ofProgram (b : Builder) (name : String) (kind : ClassKind)
    (superclass : Option ClassId) :
    (ofProgram b.program).declareClass name kind superclass =
      (ofProgram (b.declareClass name kind superclass).1.program,
        (b.declareClass name kind superclass).2.toOption) := by
  have hnames : (ofProgram b.program).names name = b.program.classByName? name := rfl
  cases hname : b.program.classByName? name with
  | some c =>
    simp only [declareClass, Builder.declareClass, hnames, hname]
    rfl
  | none =>
    simp only [declareClass, Builder.declareClass, hname, ofProgram, Except.toOption]
    rw [Program.classByName?_declare b.program _ { name, kind, superclass } hname]

/-- Whatever a call does, the table of names stays the one that belongs to the program. -/
theorem perform_ofProgram (b : Builder) (call : Builder.Call) :
    (ofProgram b.program).perform call = ofProgram (b.perform call).program := by
  cases call with
  | addClass name superclass => exact congrArg Prod.fst (declareClass_ofProgram b name _ superclass)
  | addAbstractClass name superclass =>
    exact congrArg Prod.fst (declareClass_ofProgram b name _ superclass)
  | addInterface name superinterfaces =>
    have hdeclare := declareClass_ofProgram b name .interface none
    simp only [perform, Builder.perform, Builder.addInterface, hdeclare]
    obtain ⟨b', answer⟩ := b.declareClass name .interface none
    cases answer with
    | error e => rfl
    | ok id =>
      -- the interface stays declared, and its name known, even if one of its superinterfaces is rejected
      have hamends := (Builder.amends_addImplementations b' id superinterfaces).ofProgram
      simp only [Except.toOption]
      refine hamends.trans ?_
      split <;> rename_i heq <;> rw [heq]
  | addImplementation c iface => exact (Builder.amends_addImplementation b c iface).ofProgram
  | setObjectClass c => exact (Program.Amends.ofProgram (.single (.choose _ _)))
  | addField c name isStatic => exact (Builder.amends_addField b c name isStatic).ofProgram
  | addMethod c subsignature isStatic =>
    exact (Builder.amends_declareMethod b c subsignature isStatic false (by simp)).ofProgram
  | addAbstractMethod c subsignature =>
    exact (Builder.amends_declareMethod b c subsignature false true fun _ => rfl).ofProgram
  | setMain m => exact (Program.Amends.ofProgram (.single (.choose _ _)))
  | localVar m name => exact (Builder.amends_localVar b m name).ofProgram
  | append m stmt => exact (Builder.amends_append b m stmt).ofProgram

/-- **The table of names is exact**: it says what a search of the classes finds. -/
theorem after_eq (calls : List Builder.Call) :
    after calls = ofProgram (Builder.after calls).program := by
  have hfoldl : ∀ (l : List Builder.Call) (b : Builder),
      l.foldl perform (ofProgram b.program) = ofProgram (l.foldl Builder.perform b).program := by
    intro l
    induction l with
    | nil => exact fun _ => rfl
    | cons call rest ih =>
      intro b
      rw [List.foldl_cons, List.foldl_cons, perform_ofProgram]
      exact ih (b.perform call)
  have hempty : ofProgram {} = {} := by
    have hnames : ({} : Program).classByName? = fun _ => none := by
      funext name
      simp [Program.classByName?]
    rw [ofProgram, hnames]
  exact (congrArg (calls.foldl perform) hempty.symm).trans (hfoldl calls {})

end Directory

/-! ## §4 After any sequence of calls -/

/-- **The tables of a builder are coherent.** After every sequence of calls, whether they were rejected or
    not and whatever identifiers they were made with, a table of class names kept along the way knows
    precisely the declared classes, and the tables agree with each other. In a built program names are
    therefore looked up exactly. -/
theorem Builder.after_coherent (calls : List Builder.Call) :
    (Directory.after calls).program = (after calls).program ∧
    (∀ name c, (Directory.after calls).names name = some c ↔
      ∃ cls, (after calls).program.class? c = some cls ∧ cls.name = name) ∧
    (after calls).program.Coherent ∧
    ∀ p, (after calls).build = .ok p →
      (Directory.after calls).names = p.classByName? ∧ p.Coherent ∧ p.ExactLookups := by
  have hconsistent := consistent_after calls
  rw [Directory.after_eq]
  refine ⟨rfl, fun name c => hconsistent.classByName?_eq_some_iff, hconsistent.coherent, ?_⟩
  intro p hbuild
  -- a program without faults is finished by indexing it, which leaves the tables of names alone
  have hindexed : p = (after calls).program.indexed := by
    unfold build at hbuild
    split at hbuild
    · simp at hbuild
    · exact (Except.ok.inj hbuild).symm
  subst hindexed
  exact ⟨rfl, hconsistent.indexed.coherent, hconsistent.indexed.exactLookups⟩

/-- Calls of which many are rejected: a class is declared twice, an interface extends a class and another
    one something that does not exist, a field and a method are declared twice, and the variables of a
    method are asked for by the names that they were declared with. -/
def Builder.clashingCalls : List Builder.Call :=
  [.addClass "A" none, .addAbstractClass "A" none, .addInterface "I" [⟨0⟩],
   .addInterface "J" [⟨1⟩, ⟨9⟩], .addImplementation ⟨0⟩ ⟨0⟩, .addImplementation ⟨0⟩ ⟨2⟩,
   .addField ⟨0⟩ "f" false, .addField ⟨0⟩ "f" true, .addField ⟨5⟩ "f" true,
   .addMethod ⟨0⟩ "void m(A)" false, .addAbstractMethod ⟨0⟩ "void  m( A )", .addMethod ⟨0⟩ "m" true,
   .localVar ⟨0⟩ "this", .localVar ⟨0⟩ "p0", .localVar ⟨0⟩ "x", .localVar ⟨3⟩ "x"]

/-- The program of these calls is coherent. -/
theorem Builder.after_coherent_clashing :
    ∃ p, (after clashingCalls).build = .ok p ∧ p.Coherent ∧ p.ExactLookups := by
  have hfault : (after clashingCalls).program.fault? = none := by decide +kernel
  have hbuild : (after clashingCalls).build = .ok (after clashingCalls).program.indexed := by
    simp [build, hfault]
  exact ⟨_, hbuild, ((after_coherent clashingCalls).2.2.2 _ hbuild).2⟩

end PointsTo
