import Mathlib.Data.List.DropRight
import Mathlib.Data.Set.Function
import PointsTo.Analysis.Result
import PointsTo.Proofs.Coherence
import PointsTo.Proofs.RoundTrip

/-!
# Names of methods

The name of a method is the name of its class and its subsignature, with a colon and a blank between them.
Nothing is escaped, and a class may have any name at all: one that holds colons and brackets, or that looks
like the name of a method itself. Names are nevertheless told apart. The colon before the subsignature is
the last one, because there is none in a subsignature that was read from a text, and all subsignatures of
a program were. So the two parts of a name can be read off it, and they belong to one method only.

What is written about a method holds its name, and tells the method for that reason. A label of the dot
language escapes some characters of the name, in a way that can be undone. The line about a call names two
methods, and tells either of them if the other one is known. It does not tell both at once: classes can be
named so that two calls are written about in the same words.

- `Builder.subsignatures_after`: the subsignatures of a program were read.
- `Program.methodNamed?`: the method with a given name, from the two parts of the name.
- `Program.NamesMethods`: what names and the texts that hold them say about methods.
- `Program.garbled_calls_alike`: what the line about a call does not say.
- `Builder.methodNames_identify`: they say it after every sequence of calls, and in every built program.
-/

namespace PointsTo

/-! ## §1 Subsignatures that were read -/

namespace Builder

/-- The subsignatures of the declared methods. -/
def subsignatures (b : Builder) : Array Subsignature := b.program.methods.map Method.subsignature

theorem subsignatures_declareMethod (b : Builder) (c : ClassId) (text : String)
    (isStatic isAbstract : Bool) :
    (b.declareMethod c text isStatic isAbstract).1.subsignatures = b.subsignatures ∨
      ∃ s, Subsignature.parse text = .ok s ∧
        (b.declareMethod c text isStatic isAbstract).1.subsignatures = b.subsignatures.push s := by
  unfold declareMethod
  split
  · exact .inl rfl
  · rename_i s hparse
    split
    · exact .inl rfl
    · split
      · exact .inl rfl
      · refine .inr ⟨s, hparse, ?_⟩
        let listing : Program := { b.program with
          classes := b.program.classes.modify c.index fun cls =>
            { cls with methods := cls.methods ++ [(s, ⟨b.program.methods.size⟩)] } }
        have hformals := newFormals_declaring listing c s isStatic isAbstract
        simp only [declaring, listing, Array.append_empty] at hformals
        dsimp only
        rw [hformals]
        simp [subsignatures, Method.declared]

/-- A call adds one subsignature at most, and only one that was read. -/
theorem subsignatures_perform (b : Builder) (call : Call) :
    (b.perform call).subsignatures = b.subsignatures ∨
      ∃ text s, Subsignature.parse text = .ok s ∧
        (b.perform call).subsignatures = b.subsignatures.push s := by
  have hsame : ∀ {b' : Builder}, b'.program.methods = b.program.methods →
      b'.subsignatures = b.subsignatures := fun h => congrArg (Array.map Method.subsignature) h
  cases call with
  | addClass name superclass => exact .inl (hsame (methods_declareClass name _ superclass))
  | addAbstractClass name superclass => exact .inl (hsame (methods_declareClass name _ superclass))
  | addInterface name superinterfaces => exact .inl (hsame (methods_addInterface name superinterfaces))
  | addImplementation c iface => exact .inl (hsame (methods_addImplementation c iface))
  | setObjectClass c => exact .inl rfl
  | addField c name isStatic =>
    refine .inl (hsame ?_)
    simp only [perform, addField]
    split
    · rfl
    · split <;> rfl
  | addMethod c text isStatic =>
    exact (subsignatures_declareMethod b c text isStatic _).imp_right fun h => ⟨text, h⟩
  | addAbstractMethod c text =>
    exact (subsignatures_declareMethod b c text _ _).imp_right fun h => ⟨text, h⟩
  | setMain m => exact .inl rfl
  | localVar m name =>
    left
    simp only [perform, localVar]
    split
    · rfl
    · split
      · rfl
      · dsimp only [newVar, subsignatures]
        apply Program.map_modify_of_unseen
        exact fun _ => rfl
  | append m stmt =>
    left
    simp only [perform, append]
    split
    · rfl
    · dsimp only [subsignatures]
      apply Program.map_modify_of_unseen
      exact fun _ => rfl

/-- **The subsignatures of a program were read**, so they are well formed. -/
theorem subsignatures_after (calls : List Call) : ∀ s ∈ (after calls).subsignatures, s.WellFormed := by
  apply after_induction (P := fun b => ∀ s ∈ b.subsignatures, s.WellFormed)
  · intro s hs
    simp [subsignatures] at hs
  · intro b call h
    rcases subsignatures_perform b call with hsame | ⟨text, s, hparse, hpush⟩
    · rw [hsame]
      exact h
    · rw [hpush]
      exact forall_mem_push h (Subsignature.wellFormed_of_parse hparse)

end Builder

/-! ## §2 Reading a name -/

/-- The characters of a written subsignature. -/
theorem Subsignature.Layout.chars (l : Layout) :
    ∀ c ∈ l.text, isListChar c = true ∨ c ∈ ['(', ')'] := by
  intro c hc
  simp only [text, List.mem_append, List.mem_cons] at hc
  rcases hc with hc | hc | hc | hc | hc | rfl | hc | rfl | hc
  · exact .inl (isListChar_of_blank (l.lead.2 c hc))
  · exact .inl (isListChar_of_typeChar (l.returnType.2.typeChars c hc))
  · exact .inl (isListChar_of_blank (l.gap.1.2 c hc))
  · exact .inl (isListChar_of_typeChar (isTypeChar_of_nameChar (l.name.2.nameChars c hc)))
  · exact .inl (isListChar_of_blank (l.beforeOpen.2 c hc))
  · simp
  · exact .inl (l.isListChar_inside c hc)
  · simp
  · exact .inl (isListChar_of_blank (l.trail.2 c hc))

/-- There is no colon in a written subsignature. -/
theorem Subsignature.WellFormed.colon_notMem {s : Subsignature} (h : s.WellFormed) :
    ':' ∉ s.render.toList := by
  obtain ⟨l, hl⟩ := exists_layout_of_parse h.parse_render
  rw [← hl]
  intro hcolon
  exact absurd (l.chars ':' hcolon) (by decide)

/-- A text is divided at the last occurrence of a character by going back from its end. -/
theorem divide_at_last {c : Char} (x : List Char) {y : List Char} (hy : c ∉ y) :
    (x ++ c :: y).rdropWhile (· != c) = x ++ [c] ∧ (x ++ c :: y).rtakeWhile (· != c) = y := by
  have hrun : ∀ d ∈ y.reverse, (d != c) = true := by
    intro d hd
    simpa using fun h : d = c => hy (h ▸ List.mem_reverse.1 hd)
  have hstops : Subsignature.Stops (· != c) (c :: x.reverse) := Subsignature.stops_cons (by simp)
  have hreverse : (x ++ c :: y).reverse = y.reverse ++ c :: x.reverse := by simp
  constructor
  · rw [List.rdropWhile, hreverse, Subsignature.dropWhile_append_stop hrun hstops]
    simp
  · rw [List.rtakeWhile, hreverse, Subsignature.takeWhile_append_stop hrun hstops, List.reverse_reverse]

/-- The two parts of the name of a method: what stands before and after its last colon, each without its
    first and its last character. -/
def nameParts (text : String) : String × String :=
  let inner (cs : List Char) : String := String.ofList cs.tail.dropLast
  (inner (text.toList.rdropWhile (· != ':')), inner (text.toList.rtakeWhile (· != ':')))

theorem nameParts_eq (cls : String) {rest : String} (hrest : ':' ∉ rest.toList) :
    nameParts ("<" ++ cls ++ ": " ++ rest ++ ">") = (cls, rest) := by
  have htext : ("<" ++ cls ++ ": " ++ rest ++ ">").toList =
      '<' :: cls.toList ++ ':' :: (' ' :: rest.toList ++ ['>']) := by
    simp
  have hcolon : ':' ∉ ' ' :: rest.toList ++ ['>'] := by
    simpa using hrest
  obtain ⟨hbefore, hafter⟩ := divide_at_last ('<' :: cls.toList) hcolon
  rw [nameParts, htext, hbefore, hafter]
  simp

namespace Program

/-- The method with a given name, looked up by the class and the subsignature that the name is made of. -/
def methodNamed? (p : Program) (text : String) : Option MethodId := do
  let s ← (Subsignature.parse (nameParts text).2).toOption
  let c ← p.classByName? (nameParts text).1
  p.declaredMethod? c s

variable {p : Program} {m : MethodId} {method : Method}

/-- Every method has a name. -/
theorem Consistent.exists_methodName (hp : p.Consistent) (hm : p.method? m = some method) :
    ∃ cls, p.class? method.owner = some cls ∧
      p.methodName m = "<" ++ cls.name ++ ": " ++ method.subsignature.render ++ ">" := by
  obtain ⟨cls, hcls⟩ := hp.methods.exists_owner hm
  have hcls : p.class? method.owner = some cls := hcls
  exact ⟨cls, hcls, by simp [methodName, methodName?, hm, hcls]⟩

/-- A method is found under its name. -/
theorem Consistent.methodNamed?_methodName (hp : p.Consistent) (hm : p.method? m = some method)
    (hs : method.subsignature.WellFormed) : p.methodNamed? (p.methodName m) = some m := by
  obtain ⟨cls, hcls, hname⟩ := hp.exists_methodName hm
  have hparts : nameParts (p.methodName m) = (cls.name, method.subsignature.render) := by
    rw [hname]
    exact nameParts_eq cls.name hs.colon_notMem
  have hclass : p.classByName? cls.name = some method.owner :=
    hp.classByName?_eq_some_iff.2 ⟨cls, hcls, rfl⟩
  have hdeclared : p.declaredMethod? method.owner method.subsignature = some m :=
    hp.declaredMethod?_eq_some_iff.2 ⟨method, hm, rfl, rfl⟩
  simp [methodNamed?, hparts, hs.parse_render, Except.toOption, hclass, hdeclared]

end Program

/-! ## §3 Texts with the name of a method -/

namespace CallGraph

/-- The text that a label was made of: the character after a backslash, or a line break for an `l`. -/
def readLabel : List Char → List Char
  | '\\' :: 'l' :: rest => '\n' :: readLabel rest
  | '\\' :: c :: rest => c :: readLabel rest
  | c :: rest => c :: readLabel rest
  | [] => []

theorem readLabel_labelChar (c : Char) (rest : List Char) :
    readLabel ((labelChar c).toList ++ rest) = c :: readLabel rest := by
  unfold labelChar
  split_ifs with hquote hslash hbreak
  · simp [readLabel, hquote]
  · simp [readLabel, hslash]
  · simp [readLabel, hbreak]
  · simp [readLabel, hslash]

theorem readLabel_flatMap (cs : List Char) :
    readLabel (cs.flatMap fun c => (labelChar c).toList) = cs := by
  induction cs with
  | nil => rfl
  | cons c rest ih => rw [List.flatMap_cons, readLabel_labelChar, ih]

/-- What a label escapes can be undone. -/
theorem label_injective : Function.Injective label := by
  intro s t h
  have hchars : (label s).toList = (label t).toList := congrArg String.toList h
  simp only [label, String.toList_append, String.toList_join, List.flatMap_map,
    List.append_cancel_left_eq, List.append_cancel_right_eq] at hchars
  have hread := congrArg readLabel hchars
  rw [readLabel_flatMap, readLabel_flatMap] at hread
  exact String.toList_inj.1 hread

end CallGraph

theorem isDigit_of_mem_toString {n : Nat} {c : Char} (hc : c ∈ (toString n).toList) :
    c.isDigit = true := by
  rw [Nat.toString_eq_repr, Nat.toList_repr] at hc
  exact Nat.isDigit_of_mem_toDigits (by decide) (by decide) hc

/-- The line of a node tells its label, whatever its position is. -/
theorem CallGraph.label_of_nodeLine {p : Program} {m m' : MethodId} {i j : Nat}
    (h : nodeLine p m i = nodeLine p m' j) : label (p.methodName m) = label (p.methodName m') := by
  have hchars := congrArg String.toList h
  simp only [nodeLine, line, String.toList_append, List.append_assoc, List.append_cancel_left_eq] at hchars
  have hstops : ∀ cs : List Char, Subsignature.Stops Char.isDigit (" ".toList ++ cs) :=
    fun _ => Subsignature.stops_cons (by decide)
  obtain ⟨_, hrest⟩ := Subsignature.run_unique (fun _ => isDigit_of_mem_toString)
    (fun _ => isDigit_of_mem_toString) (hstops _) (hstops _) hchars
  simp only [List.append_cancel_left_eq, List.append_cancel_right_eq] at hrest
  exact String.toList_inj.1 hrest

/-- There is no square bracket in a location. -/
theorem bracket_notMem_inspect (site : Location) : '[' ∉ (inspect site).toList := by
  have hdigits : ∀ n : Nat, '[' ∉ (toString n).toList := by
    intro n hn
    exact absurd (isDigit_of_mem_toString hn) (by decide)
  have htext : (inspect site).toList = "Location \x7b method: MethodId(".toList ++
      (toString site.method.index).toList ++ "), index: ".toList ++ (toString site.index).toList ++
      " \x7d".toList := by
    simp [inspect, Text.labelled, Text.applied, Text.openBrace, Text.closeBrace, Table.constructorName]
  rw [htext]
  simp only [List.mem_append, not_or]
  exact ⟨⟨⟨⟨by decide, hdigits _⟩, by decide⟩, hdigits _⟩, by decide⟩

/-- What stands before the last square bracket of a text. -/
theorem eq_of_bracket {s t x y : String} (hx : '[' ∉ x.toList) (hy : '[' ∉ y.toList)
    (h : s ++ " [" ++ x = t ++ " [" ++ y) : s = t := by
  have hsplit : ∀ {u v : String}, '[' ∉ v.toList →
      (u ++ " [" ++ v).toList.rdropWhile (· != '[') = u.toList ++ [' '] ++ ['['] := by
    intro u v hv
    have hlast : (u ++ " [" ++ v).toList = (u.toList ++ [' ']) ++ '[' :: v.toList := by simp
    rw [hlast]
    exact (divide_at_last _ hv).1
  have hbefore := hsplit (u := s) hx
  rw [h, hsplit hy] at hbefore
  exact String.toList_inj.1 (by simpa using hbefore.symm)

theorem Event.line_called (p : Program) (heap : Heap) (site : Location) (callee : MethodId) :
    (called site callee).line p heap = Severity.debug.label ++ " " ++ ("new call edge " ++
      p.methodName site.method ++ " [" ++ inspect site ++ "] -> " ++ p.methodName callee) :=
  rfl

/-- The line about a call tells the name of the caller, if the callee is known. -/
theorem Event.callerName_of_line {p : Program} {heap : Heap} {site site' : Location} {callee : MethodId}
    (h : (called site callee).line p heap = (called site' callee).line p heap) :
    p.methodName site.method = p.methodName site'.method := by
  rw [line_called, line_called] at h
  have hsame : "new call edge " ++ p.methodName site.method ++ " [" ++ inspect site =
      "new call edge " ++ p.methodName site'.method ++ " [" ++ inspect site' := by
    simpa using h
  have hcaller := eq_of_bracket (bracket_notMem_inspect site) (bracket_notMem_inspect site') hsame
  simpa using hcaller

/-! ## §4 Names and methods -/

namespace Program

/-- What is written about each of the methods tells which one it is about. -/
def Tells (p : Program) (text : MethodId → String) : Prop :=
  Set.InjOn text { m | m.index < p.methods.size }

/-- The name of a method says which method it is, and so does what is written about the method. -/
structure NamesMethods (p : Program) : Prop where
  /-- Every method has a name, made of the name of its class and its subsignature. -/
  name : ∀ {m method}, p.method? m = some method → ∃ cls, p.class? method.owner = some cls ∧
    p.methodName m = "<" ++ cls.name ++ ": " ++ method.subsignature.render ++ ">"
  /-- The method can be found from its name. -/
  found : ∀ {m method}, p.method? m = some method → p.methodNamed? (p.methodName m) = some m
  /-- No two methods have the same name. -/
  names : p.Tells p.methodName
  /-- The same holds for any text with a name in it. -/
  within : ∀ before after, p.Tells fun m => before ++ p.methodName m ++ after
  /-- Log lines about the start of the analysis, about new methods and about new calls. -/
  started : ∀ heap, p.Tells fun m => (Event.started m).line p heap
  reached : ∀ heap, p.Tells fun m => (Event.reached m).line p heap
  callee : ∀ heap site, p.Tells fun m => (Event.called site m).line p heap
  caller : ∀ {heap callee site site'}, site.method.index < p.methods.size →
    site'.method.index < p.methods.size →
    (Event.called site callee).line p heap = (Event.called site' callee).line p heap →
    site.method = site'.method
  /-- The context of a fault, and the fault of the entry method. -/
  invalid : ∀ cause, p.Tells fun m => (ProgramFault.inMethod (p.methodName m) cause).message
  notStatic : p.Tells fun m => (ProgramFault.mainNotStatic (p.methodName m)).message
  /-- Labels of the dot language, and the lines of nodes at whatever positions. -/
  label : p.Tells fun m => CallGraph.label (p.methodName m)
  node : ∀ {m m' i j}, m.index < p.methods.size → m'.index < p.methods.size →
    CallGraph.nodeLine p m i = CallGraph.nodeLine p m' j → m = m'

end Program

/-- Calls that declare a class `A` and two classes with names that look like parts of lines about calls, each
    with a static method. The second method is the entry method. It calls the first one, which calls the third
    one. -/
def Builder.garbledCalls : List Builder.Call :=
  [.addClass "A" none,
   .addClass "A: void f()> [Location \x7b method: MethodId(0), index: 0 \x7d] -> <X" (some ⟨0⟩),
   .addClass "X: void f()> [Location \x7b method: MethodId(1), index: 0 \x7d] -> <A" (some ⟨0⟩),
   .addMethod ⟨0⟩ "void f()" true, .addMethod ⟨1⟩ "void f()" true, .addMethod ⟨2⟩ "void f()" true,
   .append ⟨0⟩ (.invoke ⟨.static, ⟨⟨2⟩, ⟨"void", "f", []⟩⟩, none, [], none⟩),
   .append ⟨1⟩ (.invoke ⟨.static, ⟨⟨0⟩, ⟨"void", "f", []⟩⟩, none, [], none⟩), .setMain ⟨1⟩]

namespace Program

/-- A program with two calls that are written about in the same words. -/
def garbled : Program := (Builder.after Builder.garbledCalls).program.indexed

/-- The line about a call does not tell both methods: the two calls of this program have neither the caller nor
    the callee in common, and their lines are the same. -/
theorem garbled_calls_alike :
    garbled.Built ∧ garbled.main = some ⟨1⟩ ∧
      (∀ order, (garbled.solve order ⟨1⟩).calls.edges =
        [⟨.static, ⟨⟨1⟩, 0⟩, ⟨0⟩⟩, ⟨.static, ⟨⟨0⟩, 0⟩, ⟨2⟩⟩]) ∧
      ∀ heap, (Event.called ⟨⟨1⟩, 0⟩ ⟨0⟩).line garbled heap =
        (Event.called ⟨⟨0⟩, 0⟩ ⟨2⟩).line garbled heap := by
  have hbuilt : garbled.Built := built_indexed (by decide +kernel)
  refine ⟨hbuilt, by decide +kernel, ?_, ?_⟩
  · intro order
    cases order <;> decide +kernel
  · intro heap
    rw [Event.line_called, Event.line_called]
    decide +kernel

variable {p : Program}

theorem Tells.comp {text : MethodId → String} {f : String → String} (h : p.Tells text)
    (hf : Function.Injective f) : p.Tells fun m => f (text m) :=
  hf.comp_injOn h

theorem Tells.prepend {text : MethodId → String} (h : p.Tells text) (before : String) :
    p.Tells fun m => before ++ text m :=
  h.comp (f := (before ++ ·)) fun s t heq => by simpa using heq

theorem Tells.append {text : MethodId → String} (h : p.Tells text) (after : String) :
    p.Tells fun m => text m ++ after :=
  h.comp (f := (· ++ after)) fun s t heq => by simpa using heq

/-- Methods with subsignatures that were read, in tables that agree, are told apart by their names. -/
theorem Consistent.namesMethods (hp : p.Consistent)
    (hs : ∀ method ∈ p.methods, method.subsignature.WellFormed) : p.NamesMethods := by
  have hfound : ∀ {m method}, p.method? m = some method →
      p.methodNamed? (p.methodName m) = some m :=
    fun hm => hp.methodNamed?_methodName hm (hs _ (Array.mem_of_getElem? hm))
  have hnames : p.Tells p.methodName := by
    intro m hm m' hm' hname
    have hm := hfound (Array.getElem?_eq_getElem hm)
    have hm' := hfound (Array.getElem?_eq_getElem hm')
    exact Option.some.inj (hm.symm.trans (hname ▸ hm'))
  exact
    { name := hp.exists_methodName
      found := hfound
      names := hnames
      within := fun before after => (hnames.prepend before).append after
      started := fun _ => (hnames.prepend "pointer analysis starts from ").prepend (Severity.info.label ++ " ")
      reached := fun _ => (hnames.prepend "new reachable method ").prepend (Severity.debug.label ++ " ")
      callee := by
        intro heap site
        simp only [Event.line_called]
        exact (hnames.prepend _).prepend _
      caller := fun hm hm' h => hnames hm hm' (Event.callerName_of_line h)
      invalid := fun _ => ((hnames.prepend _).append _).append _
      notStatic := (hnames.prepend _).append _
      label := hnames.comp CallGraph.label_injective
      node := fun hm hm' h => hnames hm hm' (CallGraph.label_injective (CallGraph.label_of_nodeLine h)) }

end Program

/-- **Names identify methods.** After every sequence of calls, and in every program that is built, each
    method has a name and can be found from it, whatever the classes are called. So no two methods have the
    same name, and log lines, contexts of faults and labels of nodes tell methods apart. -/
theorem Builder.methodNames_identify (calls : List Builder.Call) :
    (after calls).program.NamesMethods ∧
      ∀ p, (after calls).build = .ok p → p.NamesMethods := by
  have hread : ∀ calls, ∀ method ∈ (after calls).program.methods, method.subsignature.WellFormed := by
    intro calls
    simpa [subsignatures] using subsignatures_after calls
  refine ⟨(consistent_after calls).namesMethods (hread calls), ?_⟩
  intro p hbuild
  obtain ⟨calls', _, rfl⟩ := Program.Built.exists_calls ⟨calls, hbuild⟩
  -- indexing touches neither the classes nor the subsignatures
  refine (consistent_after calls').indexed.namesMethods ?_
  simpa [Program.indexed] using hread calls'

/-- Calls that declare classes with misleading names: one looks like two methods, one is a line break and
    one is what a label writes for a line break. -/
def Builder.deceptiveCalls : List Builder.Call :=
  [.addClass "A" none, .addClass "A: void f()> <A" (some ⟨0⟩), .addClass "\n" (some ⟨0⟩),
    .addClass "\\l" (some ⟨0⟩), .addMethod ⟨0⟩ "void f()" true, .addMethod ⟨1⟩ " void  f ( ) " true,
    .addMethod ⟨2⟩ "void f()" false, .addMethod ⟨3⟩ "void f()" false, .setMain ⟨1⟩]

/-- A program in which classes have misleading names. -/
def deceptive : Program := (Builder.after Builder.deceptiveCalls).program.indexed

theorem Builder.methodNames_identify_deceptive :
    (after deceptiveCalls).build = .ok deceptive ∧
      deceptive.methodName ⟨0⟩ = "<A: void f()>" ∧
      deceptive.methodName ⟨1⟩ = "<A: void f()> <A: void f()>" ∧
      deceptive.methodNamed? (deceptive.methodName ⟨1⟩) = some ⟨1⟩ ∧
      CallGraph.label (deceptive.methodName ⟨2⟩) ≠ CallGraph.label (deceptive.methodName ⟨3⟩) := by
  have hbuild : (after deceptiveCalls).build = .ok deceptive := by
    have hfault : (after deceptiveCalls).program.fault? = none := by decide +kernel
    simp [build, hfault, deceptive]
  have hsize : deceptive.methods.size = 4 := by decide +kernel
  have hnames : deceptive.NamesMethods := (methodNames_identify deceptiveCalls).2 deceptive hbuild
  refine ⟨hbuild, by decide +kernel, by decide +kernel, ?_, ?_⟩
  · exact hnames.found (Array.getElem?_eq_getElem (by simp [hsize]))
  · intro hlabel
    have hsame : (⟨2⟩ : MethodId) = ⟨3⟩ := hnames.label (by simp [hsize]) (by simp [hsize]) hlabel
    exact absurd hsame (by decide)

end PointsTo
