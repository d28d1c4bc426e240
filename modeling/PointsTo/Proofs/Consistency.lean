import PointsTo.Proofs.Edits
import PointsTo.Proofs.Listing
import PointsTo.Proofs.Outline

/-!
# Consistent tables

The tables of a program say many things twice. A field names its class and the class lists its fields, a
method names its class and the class lists its methods by subsignature, a variable names its method and
the method lists its variables. The tables are consistent if the two always agree, and if those who share
an owner have different names. Classes have different names altogether.

A builder looks a name up before it declares something, and it does so in the lists. That this is enough
is part of the laws themselves: as long as the lists are complete, a name that is not found there is new.

- `Program.Consistent`: the laws.
- `Program.Amend.consistent`, `Program.Edit.consistent`: every edit keeps them.
- `Builder.consistent_after`: they hold after every sequence of calls.
- `Program.Consistent.indexed`: indexing keeps them.
-/

namespace PointsTo

/-! ## §1 Laws that every edit keeps -/

/-- The variables that a method starts with are what its declaration says. -/
structure Method.Formed (method : Method) : Prop where
  self_isSome : method.self.isSome = !method.isStatic
  length_params : method.params.length = method.subsignature.paramCount
  formals : method.self.toList ++ method.params <+: method.vars
  notStatic : method.isAbstract = true → method.isStatic = false

/-- Classes have distinct names, list interfaces only, and extend nothing if they are interfaces. -/
structure ClassTable (classes : Array Class) : Prop where
  names : (classes.map Class.name).toList.Nodup
  interfaces : ∀ cls ∈ classes, ∀ iface ∈ cls.interfaces,
    (classes.map Class.kind)[iface.index]? = some .interface
  roots : ∀ cls ∈ classes, cls.kind = .interface → cls.superclass = none

namespace Program

/-- The tables of a program agree with each other. -/
structure Consistent (p : Program) : Prop where
  classes : ClassTable p.classes
  fields : Listing (fun _ k => (⟨k⟩ : FieldId)) (p.classes.map Class.fields)
    (p.fields.map fun field => (field.owner.index, field.name))
  methods : Listing (fun s k => (s, (⟨k⟩ : MethodId))) (p.classes.map Class.methods)
    (p.methods.map fun method => (method.owner.index, method.subsignature))
  vars : Listing (fun _ k => (⟨k⟩ : VarId)) (p.methods.map Method.vars)
    (p.vars.map fun var => (var.method.index, var.name))
  formed : ∀ method ∈ p.methods, method.Formed

theorem consistent_empty : ({} : Program).Consistent where
  classes := by constructor <;> simp
  fields := by simpa using Listing.empty
  methods := by simpa using Listing.empty
  vars := by simpa using Listing.empty
  formed := by simp

variable {p q : Program}

/-! ## §2 New entries have new keys -/

theorem fresh_class {name : String} (hfresh : p.classByName? name = none) :
    name ∉ (p.classes.map Class.name).toList := by
  simpa [classByName?] using hfresh

theorem Consistent.fresh_field (h : p.Consistent) {c : ClassId} {cls : Class} {name : String}
    (hc : p.class? c = some cls) (hfresh : p.declaredField? c name = none) :
    (c.index, name) ∉ p.fields.map fun field => (field.owner.index, field.name) := by
  apply h.fields.fresh hc
  intro k field hfield hlisted
  simp only [declaredField?, hc, Option.bind_some, List.find?_eq_none] at hfresh
  simpa [field?, hfield] using hfresh _ hlisted

theorem Consistent.fresh_method (h : p.Consistent) {c : ClassId} {cls : Class} {s : Subsignature}
    (hc : p.class? c = some cls) (hfresh : p.declaredMethod? c s = none) :
    (c.index, s) ∉ p.methods.map fun method => (method.owner.index, method.subsignature) := by
  apply h.methods.fresh hc
  intro k method hmethod hlisted
  simp only [declaredMethod?, hc, Option.bind_some, List.lookup_eq_none_iff] at hfresh
  simpa using hfresh _ hlisted

theorem Consistent.fresh_var (h : p.Consistent) {m : MethodId} {method : Method} {name : String}
    (hm : p.method? m = some method) (hfresh : p.varByName? method name = none) :
    (m.index, name) ∉ p.vars.map fun var => (var.method.index, var.name) := by
  apply h.vars.fresh hm
  intro k var hvar hlisted
  simp only [varByName?, List.find?_eq_none] at hfresh
  simpa [var?, hvar] using hfresh _ hlisted

end Program

/-- The variables that a method is declared with have different names. -/
theorem nodup_formalNames (isStatic : Bool) (arity : Nat) : (formalNames isStatic arity).Nodup := by
  have hparams : ((List.range arity).map fun i => "p" ++ toString i).Nodup := by
    apply List.nodup_range.map
    intro i j hij
    have hdigits : Nat.toDigits 10 i = Nat.toDigits 10 j := by
      simpa using congrArg String.toList hij
    rw [← Nat.ofDigitChars_ten_toDigits (n := i), hdigits, Nat.ofDigitChars_ten_toDigits]
  cases isStatic with
  | true => simpa [formalNames] using hparams
  | false =>
    refine List.nodup_cons.2 ⟨?_, hparams⟩
    -- the name of a parameter starts with another letter than that of the receiver
    intro hmem
    obtain ⟨i, _, heq⟩ := List.mem_map.1 hmem
    simpa using congrArg String.toList heq

/-- The variables of a declared method, one for each name. -/
theorem vars_declared (c : ClassId) (s : Subsignature) (isStatic isAbstract : Bool) (next : Nat) :
    (Method.declared c s isStatic isAbstract next).vars =
      ((formalNames isStatic s.paramCount).zipIdx next).map fun entry => (⟨entry.2⟩ : VarId) := by
  have hpositions := congrArg (List.map (@Id.mk .vars))
    (List.zipIdx_map_snd next (formalNames isStatic s.paramCount))
  rw [List.map_map] at hpositions
  refine Eq.trans ?_ hpositions.symm
  cases isStatic <;> simp [Method.declared, formalNames, Id.consecutive, List.range'_succ]

theorem formed_declared (c : ClassId) (s : Subsignature) {isStatic isAbstract : Bool} (next : Nat)
    (h : isAbstract = true → isStatic = false) :
    (Method.declared c s isStatic isAbstract next).Formed where
  self_isSome := by cases isStatic <;> rfl
  length_params := by simp [Method.declared, Id.consecutive]
  formals := List.prefix_rfl
  notStatic := h

/-! ## §3 Every edit keeps the laws -/

theorem ClassTable.push {classes : Array Class} (h : ClassTable classes) {cls : Class}
    (hname : cls.name ∉ (classes.map Class.name).toList) (hinterfaces : cls.interfaces = [])
    (hroot : cls.kind = .interface → cls.superclass = none) : ClassTable (classes.push cls) where
  names := by
    rw [Array.map_push, Array.toList_push, ← List.concat_eq_append]
    exact h.names.concat hname
  interfaces := by
    apply forall_mem_push
    · intro other hother iface hiface
      have hkind := h.interfaces other hother iface hiface
      have hlt := (Array.getElem?_eq_some_iff.1 hkind).1
      rw [Array.map_push, Array.getElem?_push_lt hlt, ← Array.getElem?_eq_getElem hlt]
      exact hkind
    · simp [hinterfaces]
  roots := forall_mem_push h.roots hroot

/-- A class is changed in its lists of members, or gets one more interface. -/
theorem ClassTable.modify {classes : Array Class} (h : ClassTable classes) (i : Nat)
    {f : Class → Class}
    (hkeeps : ∀ cls, (f cls).name = cls.name ∧ (f cls).kind = cls.kind ∧
      (f cls).superclass = cls.superclass)
    (hinterfaces : ∀ cls, ∀ iface ∈ (f cls).interfaces, iface ∈ cls.interfaces ∨
      (classes.map Class.kind)[iface.index]? = some .interface) : ClassTable (classes.modify i f) where
  names := by
    rw [Program.map_modify_of_unseen fun cls => (hkeeps cls).1]
    exact h.names
  interfaces := by
    rw [Program.map_modify_of_unseen fun cls => (hkeeps cls).2.1]
    apply forall_mem_modify h.interfaces
    intro cls hcls iface hiface
    rcases hinterfaces cls iface hiface with hold | hnew
    · exact hcls iface hold
    · exact hnew
  roots := by
    apply forall_mem_modify h.roots
    intro cls hcls
    rw [(hkeeps cls).2.1, (hkeeps cls).2.2]
    exact hcls

/-- Further variables do not concern what a method starts with. -/
theorem Method.Formed.extend {method : Method} (h : method.Formed) (vars : List VarId) :
    ({ method with vars := method.vars ++ vars } : Method).Formed :=
  ⟨h.self_isSome, h.length_params, h.formals.trans (List.prefix_append _ _), h.notStatic⟩

namespace Program

variable {p q : Program}

/-- An amendment keeps the laws. -/
theorem Amend.consistent (h : p.Amend q) (hp : p.Consistent) : q.Consistent := by
  cases h with
  | @implement c iface target htarget hinterface =>
    refine ⟨?_, ?_, ?_, hp.vars, hp.formed⟩ <;> dsimp only
    · apply hp.classes.modify
      · exact fun _ => ⟨rfl, rfl, rfl⟩
      · intro cls other hother
        rcases List.mem_append.1 hother with hold | hnew
        · exact Or.inl hold
        · -- the interface that is added has just been looked up
          have hkind : target.kind = .interface := by simpa [Class.isInterface] using hinterface
          rw [List.mem_singleton.1 hnew, Array.getElem?_map, ← hkind]
          exact Or.inr (congrArg (Option.map Class.kind) htarget)
    · simpa [map_modify_of_unseen] using hp.fields
    · simpa [map_modify_of_unseen] using hp.methods
  | choose root main => exact ⟨hp.classes, hp.fields, hp.methods, hp.vars, hp.formed⟩
  | @declareField c owner name isStatic howner hfresh =>
    refine ⟨?_, ?_, ?_, hp.vars, hp.formed⟩ <;> dsimp only
    · apply hp.classes.modify
      · exact fun _ => ⟨rfl, rfl, rfl⟩
      · exact fun _ _ => Or.inl
    · apply hp.fields.addTo howner
      · rfl
      · exact hp.fresh_field howner hfresh
      · exact fun _ => rfl
    · -- the class lists the same methods as before
      simpa [map_modify_of_unseen] using hp.methods
  | @declareMethod c owner s isStatic isAbstract howner hfresh habstract =>
    refine ⟨?_, ?_, ?_, ?_, ?_⟩ <;> dsimp only
    · apply hp.classes.modify
      · exact fun _ => ⟨rfl, rfl, rfl⟩
      · exact fun _ _ => Or.inl
    · simpa [map_modify_of_unseen] using hp.fields
    · apply hp.methods.addTo howner
      · rfl
      · exact hp.fresh_method howner hfresh
      · exact fun _ => rfl
    · -- the method is a new owner, and its receiver and parameters come with it
      have hdeclare := hp.vars.declare (nodup_formalNames isStatic s.paramCount)
      simpa [vars_declared, formalVars, Function.comp_def] using hdeclare
    · exact forall_mem_push hp.formed (formed_declared c s p.vars.size habstract)
  | @declareVar m method name hmethod hfresh =>
    refine ⟨hp.classes, hp.fields, ?_, ?_, ?_⟩ <;> dsimp only
    · simpa [map_modify_of_unseen] using hp.methods
    · apply hp.vars.addTo hmethod
      · rfl
      · exact hp.fresh_var hmethod hfresh
      · exact fun _ => rfl
    · exact forall_mem_modify hp.formed fun method hformed => hformed.extend _
  | appendStmt m stmt =>
    refine ⟨hp.classes, hp.fields, ?_, ?_, ?_⟩ <;> dsimp only
    · simpa [map_modify_of_unseen] using hp.methods
    · simpa [map_modify_of_unseen] using hp.vars
    · refine forall_mem_modify hp.formed ?_
      exact fun _ h => ⟨h.self_isSome, h.length_params, h.formals, h.notStatic⟩

/-- An edit keeps the laws. -/
theorem Edit.consistent (h : p.Edit q) (hp : p.Consistent) : q.Consistent := by
  cases h with
  | declareClass root hfresh hroot =>
    refine ⟨?_, ?_, ?_, hp.vars, hp.formed⟩
    · exact hp.classes.push (fresh_class hfresh) rfl hroot
    · simpa using hp.fields.declareEmpty
    · simpa using hp.methods.declareEmpty
  | amend h => exact h.consistent hp

/-- The laws are not about what indexing computes. -/
theorem consistent_unindexed : p.unindexed.Consistent ↔ p.Consistent := by
  have hformed : (∀ method ∈ p.unindexed.methods, method.Formed) ↔
      ∀ method ∈ p.methods, method.Formed := by
    simp only [unindexed, Array.forall_mem_map]
    exact forall₂_congr fun method _ =>
      ⟨fun h => ⟨h.self_isSome, h.length_params, h.formals, h.notStatic⟩,
        fun h => ⟨h.self_isSome, h.length_params, h.formals, h.notStatic⟩⟩
  have hmethods : p.unindexed.methods.map (fun method => (method.owner.index, method.subsignature)) =
      p.methods.map fun method => (method.owner.index, method.subsignature) := by
    simp [unindexed, Function.comp_def]
  have hlists : p.unindexed.methods.map Method.vars = p.methods.map Method.vars := by
    simp [unindexed, Function.comp_def]
  have hvars : p.unindexed.vars.map (fun var => (var.method.index, var.name)) =
      p.vars.map fun var => (var.method.index, var.name) := by
    simp [unindexed, Function.comp_def, Var.outline]
  constructor
  · intro h
    exact ⟨h.classes, h.fields, hmethods ▸ h.methods, hlists ▸ hvars ▸ h.vars, hformed.1 h.formed⟩
  · intro h
    exact ⟨h.classes, h.fields, hmethods ▸ h.methods, hlists ▸ hvars ▸ h.vars, hformed.2 h.formed⟩

theorem Consistent.indexed (h : p.Consistent) : p.indexed.Consistent := by
  rw [← consistent_unindexed, unindexed_indexed, consistent_unindexed]
  exact h

end Program

/-- The tables agree after every sequence of calls. -/
theorem Builder.consistent_after (calls : List Builder.Call) : (after calls).program.Consistent :=
  after_edits Program.consistent_empty Program.Edit.consistent calls

end PointsTo
