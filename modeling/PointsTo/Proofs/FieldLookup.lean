import PointsTo.Proofs.Coherence
import PointsTo.Proofs.Supertypes

/-!
# Looking fields up

While a program is under construction, the superclass of a class may be declared later or never, and superclass
chains may be cycles or run into cycles. A field is looked up along such a chain all the same. The search gives
up after as many classes as there are, whether it has come to the end of the chain or not.

Nothing is lost by giving up. If some class of the chain declares the field, then so does a first one, and no
class comes twice before it: what follows a repeated class is what followed it before, so the declaring class
would have been met earlier. Hence there are fewer classes before it than there are classes.

- `Program.chain`: the classes that superclass links lead to, one by one, with no bound.
- `Program.chain_add`: chains go on from any of their classes as the chain of that class does.
- `Program.lt_of_first`: the first place of a class on a chain.
- `Program.FindsField`: what a search without a bound would find.
- `Strict.lookupField`, `Strict.lookupField_eq`: the search, class by class.
- `Builder.lookupField_exact`: it finds what is there, after every sequence of calls.
-/

namespace PointsTo

namespace Program

variable {p : Program} {c d : ClassId} {name : String} {f : FieldId} {i j k n : Nat}

/-! ## §1 Chains -/

/-- The class that a number of superclass links lead to. There is none after a class that extends nothing, nor
    after a link to something that is no class. -/
def chain (p : Program) (c : ClassId) : Nat → Option ClassId
  | 0 => (p.class? c).map fun _ => c
  | n + 1 => (p.superclassOf c).bind fun parent => p.chain parent n

theorem chain_zero {cls : Class} (hc : p.class? c = some cls) : p.chain c 0 = some c := by
  simp [chain, hc]

theorem chain_succ {parent : ClassId} (hparent : p.superclassOf c = some parent) (n : Nat) :
    p.chain c (n + 1) = p.chain parent n := by
  simp [chain, hparent]

/-- Without an entry there is no chain. -/
theorem chain_eq_none (hc : p.class? c = none) (n : Nat) : p.chain c n = none := by
  cases n <;> simp [chain, superclassOf, hc]

/-- **Chains go on alike**: what comes after a class on a chain is the chain of that class. -/
theorem chain_add (i j : Nat) : p.chain c (i + j) = (p.chain c i).bind fun d => p.chain d j := by
  induction i generalizing c with
  | zero =>
    rw [Nat.zero_add]
    cases hc : p.class? c with
    | none => simp [chain_eq_none hc]
    | some cls => simp [chain_zero hc]
  | succ i ih =>
    rw [Nat.succ_add]
    cases hparent : p.superclassOf c with
    | none => simp [chain, hparent]
    | some parent => rw [chain_succ hparent, chain_succ hparent, ih]

theorem index_lt_of_chain (h : p.chain c k = some d) : d.index < p.classes.size := by
  -- the class would have no chain of its own, but it has the empty one
  by_contra hlt
  have hnone : p.class? d = none := Array.getElem?_eq_none (Nat.le_of_not_lt hlt)
  have hself := chain_add (p := p) (c := c) k 0
  rw [Nat.add_zero, h, Option.bind_some, chain_eq_none hnone] at hself
  exact absurd hself (Option.some_ne_none d)

/-- Nothing is missing on the way to a class. -/
theorem exists_chain_of_le (h : p.chain c k = some d) (hj : j ≤ k) : ∃ b, p.chain c j = some b := by
  obtain ⟨i, rfl⟩ := Nat.exists_eq_add_of_le hj
  rw [chain_add] at h
  obtain ⟨b, hb, _⟩ := Option.bind_eq_some_iff.1 h
  exact ⟨b, hb⟩

/-- **First places**: on the way to the first place of a class no class comes twice, so there are more classes
    than the chain has links up to there. -/
theorem lt_of_first (h : p.chain c k = some d) (hfirst : ∀ j < k, p.chain c j ≠ some d) :
    k < p.classes.size := by
  have hdistinct : ∀ i j, i < j → j ≤ k → p.chain c i ≠ p.chain c j := by
    intro i j hij hjk heq
    -- from the second occurrence on, the chain repeats what came after the first one
    have hearlier : p.chain c (i + (k - j)) = some d := by
      rw [chain_add, heq, ← chain_add, Nat.add_sub_cancel' hjk]
      exact h
    exact hfirst (i + (k - j)) (by omega) hearlier
  have hnodup : ((List.range (k + 1)).map (p.chain c)).Nodup := by
    apply List.nodup_range.map_on
    intro i hi j hj heq
    rw [List.mem_range] at hi hj
    rcases Nat.lt_trichotomy i j with hlt | heq' | hlt
    · exact absurd heq (hdistinct i j hlt (Nat.le_of_lt_succ hj))
    · exact heq'
    · exact absurd heq.symm (hdistinct j i hlt (Nat.le_of_lt_succ hi))
  have hclasses : (List.range (k + 1)).map (p.chain c) ⊆ p.classIds.map some := by
    intro b hb
    obtain ⟨j, hj, rfl⟩ := List.mem_map.1 hb
    obtain ⟨b, hb⟩ := exists_chain_of_le h (Nat.le_of_lt_succ (List.mem_range.1 hj))
    rw [hb]
    exact List.mem_map_of_mem (Id.mem_below.2 (index_lt_of_chain hb))
  have hlength := (List.subperm_of_subset hnodup hclasses).length_le
  rwa [List.length_map, List.length_map, List.length_range, length_classIds] at hlength

/-! ## §2 Searches along a chain -/

section Searches

variable {β : Type} {g : ClassId → Option β} {x : β}

/-- The first class of a chain that has something to find is at a given place, and that is found there. -/
def FindsAt (p : Program) (c : ClassId) (g : ClassId → Option β) (k : Nat) (x : β) : Prop :=
  ∃ d, p.chain c k = some d ∧ g d = some x ∧ ∀ j < k, ∀ b, p.chain c j = some b → g b = none

theorem findsAt_zero {cls : Class} (hc : p.class? c = some cls) : p.FindsAt c g 0 x ↔ g c = some x := by
  simp [FindsAt, chain_zero hc]

/-- Beyond the first class, a search goes on from the superclass. -/
theorem findsAt_succ {parent : ClassId} (hparent : p.superclassOf c = some parent) :
    p.FindsAt c g (k + 1) x ↔ g c = none ∧ p.FindsAt parent g k x := by
  obtain ⟨cls, hc, _⟩ := inherits_iff.1 hparent
  constructor
  · rintro ⟨d, hd, hx, hbefore⟩
    rw [chain_succ hparent] at hd
    refine ⟨hbefore 0 (Nat.succ_pos k) c (chain_zero hc), d, hd, hx, ?_⟩
    intro j hj b hb
    exact hbefore (j + 1) (Nat.succ_lt_succ hj) b ((chain_succ hparent j).trans hb)
  · rintro ⟨hnone, d, hd, hx, hbefore⟩
    refine ⟨d, (chain_succ hparent k).trans hd, hx, ?_⟩
    intro j hj b hb
    cases j with
    | zero =>
      rw [chain_zero hc] at hb
      cases hb
      exact hnone
    | succ j =>
      rw [chain_succ hparent] at hb
      exact hbefore j (Nat.lt_of_succ_lt_succ hj) b hb

/-- A search along a chain that is cut off finds the first thing that there is before the cut. -/
theorem findSome?_ancestry (hg : ∀ d, p.class? d = none → g d = none) (n : Nat) (c : ClassId) :
    (p.ancestry n c).findSome? g = some x ↔ ∃ k < n, p.FindsAt c g k x := by
  induction n generalizing c with
  | zero => simp [ancestry]
  | succ n ih =>
    rw [Nat.exists_lt_succ_left]
    cases hparent : p.superclassOf c with
    | none =>
      -- the chain ends here, and what has no entry has nothing to find
      have hend : ∀ k, ¬ p.FindsAt c g (k + 1) x := by
        rintro k ⟨d, hd, _⟩
        simp [chain, hparent] at hd
      cases hc : p.class? c with
      | none => simp [ancestry, hparent, hg c hc, FindsAt, chain_eq_none hc]
      | some cls => simp [ancestry, hparent, hend, findsAt_zero hc]
    | some parent =>
      obtain ⟨cls, hc, _⟩ := inherits_iff.1 hparent
      simp only [ancestry, hparent, List.findSome?_cons, findsAt_zero hc, findsAt_succ hparent]
      cases hgc : g c with
      | none => simpa using ih parent
      | some y => simp

/-- What is found first is found before the search gives up. -/
theorem FindsAt.lt_size (h : p.FindsAt c g k x) : k < p.classes.size := by
  obtain ⟨d, hd, hx, hbefore⟩ := h
  apply lt_of_first hd
  intro j hj heq
  have hnone := hbefore j hj d heq
  exact absurd (hnone.symm.trans hx) (Option.some_ne_none x).symm

end Searches

/-! ## §3 Fields -/

/-- A class lists a field that has the name. -/
def DeclaresField (p : Program) (c : ClassId) (name : String) (f : FieldId) : Prop :=
  ∃ cls field, p.class? c = some cls ∧ f ∈ cls.fields ∧ p.field? f = some field ∧ field.name = name

/-- The field that a class sees under a name: the one that the first class of its chain declares that declares
    one. -/
def FindsField (p : Program) (c : ClassId) (name : String) (f : FieldId) : Prop :=
  ∃ k d, p.chain c k = some d ∧ p.DeclaresField d name f ∧
    ∀ j < k, ∀ b, p.chain c j = some b → ∀ f', ¬ p.DeclaresField b name f'

/-- A class declares at most one field with a name, so the search of a class finds it. -/
theorem Coherent.declaredField?_eq_some_iff (hp : p.Coherent) :
    p.declaredField? c name = some f ↔ p.DeclaresField c name f := by
  unfold declaredField? DeclaresField
  cases hc : p.class? c with
  | none => simp
  | some cls =>
    have hlisted : ∀ {f}, f ∈ cls.fields → ∃ field, p.field? f = some field ∧ field.owner = c :=
      (hp.mem_fields hc).1
    rw [Option.bind_some, find?_eq_some_iff_mem]
    · simp [Option.any_eq_true]
    · intro a b ha hb hname hname'
      obtain ⟨field, hfield, howner⟩ := hlisted ha
      obtain ⟨field', hfield', howner'⟩ := hlisted hb
      simp only [hfield, hfield', Option.any_some, beq_iff_eq] at hname hname'
      exact hp.fieldName_inj hfield hfield' (howner.trans howner'.symm) (hname.trans hname'.symm)

theorem lookupField_eq_some_iff (hp : p.Coherent) :
    p.lookupField c name = some f ↔ p.FindsField c name f := by
  have hforeign : ∀ d, p.class? d = none → p.declaredField? d name = none := by
    intro d hd
    simp [declaredField?, hd]
  have hnone : ∀ b, p.declaredField? b name = none ↔ ∀ f', ¬ p.DeclaresField b name f' := by
    intro b
    simp only [Option.eq_none_iff_forall_ne_some, ne_eq, hp.declaredField?_eq_some_iff]
  have hfinds : (∃ k, p.FindsAt c (p.declaredField? · name) k f) ↔ p.FindsField c name f := by
    simp only [FindsAt, FindsField, hp.declaredField?_eq_some_iff, hnone]
  rw [lookupField, superclasses, findSome?_ancestry hforeign, ← hfinds]
  constructor
  · rintro ⟨k, _, hk⟩
    exact ⟨k, hk⟩
  · rintro ⟨k, hk⟩
    exact ⟨k, hk.lt_size, hk⟩

/-- If a class of a chain declares a field with a name, then one is found. -/
theorem exists_findsField (hd : p.chain c k = some d) (hf : p.DeclaresField d name f) :
    ∃ f', p.FindsField c name f' := by
  -- the first class that declares one
  induction k using Nat.strongRecOn generalizing d f with
  | ind k ih =>
    by_cases hearlier : ∃ j < k, ∃ b f', p.chain c j = some b ∧ p.DeclaresField b name f'
    · obtain ⟨j, hj, b, f', hb, hf'⟩ := hearlier
      exact ih j hj hb hf'
    · push Not at hearlier
      exact ⟨f, k, d, hd, hf, fun j hj b hb f' => hearlier j hj b f' hb⟩

end Program

/-! ## §4 The search, class by class -/

namespace Strict

open Program

/-- The first field of a list that has the name. All that is looked at must have entries. -/
def firstNamed (p : Program) (name : String) : List FieldId → Option (Option FieldId)
  | [] => return none
  | f :: rest => do
    let field ← p.field? f
    if field.name = name then return some f else firstNamed p name rest

/-- Looks at a number of classes, each the superclass of the one before, for a field that has the name. The
    search ends at a missing superclass and at one that has no entry. -/
def searchField (p : Program) (name : String) : Nat → Option ClassId → Option (Option FieldId)
  | 0, _ => return none
  | _ + 1, none => return none
  | n + 1, some c =>
    match p.class? c with
    | none => return none
    | some cls => do
      match ← firstNamed p name cls.fields with
      | some f => return some f
      | none => searchField p name n cls.superclass

/-- The field that a class sees under a name. The search is given as many rounds as there are classes. -/
def lookupField (p : Program) (c : ClassId) (name : String) : Option (Option FieldId) :=
  searchField p name p.classes.size (some c)

variable {p : Program} {name : String}

theorem firstNamed_eq {l : List FieldId} (hl : ∀ f ∈ l, ∃ field, p.field? f = some field) :
    firstNamed p name l = some (l.find? fun f => (p.field? f).any (·.name == name)) := by
  induction l with
  | nil => rfl
  | cons f rest ih =>
    obtain ⟨field, hfield⟩ := hl f List.mem_cons_self
    have hrest := ih fun f' hf' => hl f' (List.mem_cons_of_mem f hf')
    by_cases hname : field.name = name <;> simp [firstNamed, hfield, hname, hrest]

/-- The fields that a class lists have entries, so the one with a name is found among them. -/
theorem firstNamed_fields (hp : p.Coherent) {c : ClassId} {cls : Class} (hc : p.class? c = some cls) :
    firstNamed p name cls.fields = some (p.declaredField? c name) := by
  rw [firstNamed_eq fun f hf => ((hp.mem_fields hc).1 hf).imp fun _ => And.left]
  simp [declaredField?, hc]

/-- A round of the search looks at one more class of the chain. -/
theorem searchField_eq (hp : p.Coherent) (n : Nat) (c : ClassId) :
    searchField p name n (some c) = some ((p.ancestry n c).findSome? (p.declaredField? · name)) := by
  induction n generalizing c with
  | zero => rfl
  | succ n ih =>
    cases hc : p.class? c with
    | none => simp [searchField, ancestry, superclassOf, declaredField?, hc]
    | some cls =>
      have hparent : p.superclassOf c = cls.superclass := by simp [superclassOf, hc]
      simp only [searchField, hc, firstNamed_fields hp hc, Option.bind_eq_bind, Option.bind_some, ancestry, hparent]
      cases hsuper : cls.superclass with
      | none =>
        -- the search stops in the next round, if there is one
        have hstop : searchField p name n none = some none := by cases n <;> rfl
        cases hfound : p.declaredField? c name <;> simp [hstop, hfound]
      | some parent => cases hfound : p.declaredField? c name <;> simp [hfound, ih]

/-- The search has an answer: whatever is looked at has an entry. -/
theorem lookupField_eq (hp : p.Coherent) (c : ClassId) (name : String) :
    lookupField p c name = some (p.lookupField c name) :=
  searchField_eq hp p.classes.size c

end Strict

/-! ## §5 After any sequence of calls -/

/-- **Fields are looked up exactly.** After every sequence of calls, whatever its superclass links are, looking up
    a field has an answer for every class, declared or not. There is a field if some class of the chain of the
    class declares one with the name, however far up, and it is the field of the first such class. -/
theorem Builder.lookupField_exact (calls : List Builder.Call) (c : ClassId) (name : String) :
    ∃ answer, Strict.lookupField (after calls).program c name = some answer ∧
      (after calls).program.lookupField c name = answer ∧
      (answer.isSome = true ↔ ∃ k d f, (after calls).program.chain c k = some d ∧
        (after calls).program.DeclaresField d name f) ∧
      ∀ f, answer = some f ↔ (after calls).program.FindsField c name f := by
  have hcoherent := (consistent_after calls).coherent
  refine ⟨_, Strict.lookupField_eq hcoherent c name, rfl, ?_, fun f => Program.lookupField_eq_some_iff hcoherent⟩
  rw [Option.isSome_iff_exists]
  simp only [Program.lookupField_eq_some_iff hcoherent]
  constructor
  · rintro ⟨f, k, d, hd, hf, _⟩
    exact ⟨k, d, f, hd, hf⟩
  · rintro ⟨k, d, f, hd, hf⟩
    exact Program.exists_findsField hd hf

-- the chain runs into a cycle, and the field is declared by the last class before it repeats itself
example : (Builder.after [.addClass "A" (some ⟨1⟩), .addClass "B" (some ⟨2⟩), .addClass "C" (some ⟨1⟩),
    .addField ⟨2⟩ "f" false]).program.lookupField ⟨0⟩ "f" = some ⟨0⟩ := by
  decide +kernel

end PointsTo
