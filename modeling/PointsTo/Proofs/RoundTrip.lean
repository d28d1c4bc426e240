import Mathlib.Data.Set.List
import PointsTo.Proofs.Grammar

/-!
# Writing subsignatures and reading them back

A subsignature is written by putting its parts next to each other, with a blank, a comma or a parenthesis
in between. Nothing is escaped. A part that holds a character of that kind itself is taken apart when the
text is read, and what is read then is another subsignature, or none: `void f(A,B)` is how a method with
one parameter `A,B` is written too.

It goes well precisely if every part is a name of the grammar. Such a subsignature is written as its compact
layout, the one with a single blank, and a layout is read as its value. Only such subsignatures are ever
read, so writing what was read gives every text a normal form.

- `WellFormed`: every part is a name.
- `Layout.compact`: the layout of what is written.
- `WellFormed.parse_render`, `wellFormed_of_parse`: what is written is read back, if and only if it is well
  formed.
- `normalise`: the normal form of a text.
- `parse_render_exact`: all of this together.
-/

namespace PointsTo.Subsignature

/-! ## §1 Well-formed subsignatures -/

/-- Every part is a name of the kind that the grammar has in its place. -/
structure WellFormed (v : Subsignature) : Prop where
  returnType : Over ['.', '$', '[', ']', '<', '>'] v.returnType.toList
  name : Over ['$', '<', '>'] v.name.toList
  params : ∀ param ∈ v.params, ∃ t : TypeText, t.text = param.toList

instance (v : Subsignature) : Decidable v.WellFormed :=
  decidable_of_iff
    (Over ['.', '$', '[', ']', '<', '>'] v.returnType.toList ∧ Over ['$', '<', '>'] v.name.toList ∧
      ∀ param ∈ v.params, isTypeName param.toList = true)
    ⟨fun h => ⟨h.1, h.2.1, fun param hparam => isTypeName_iff.1 (h.2.2 param hparam)⟩,
      fun h => ⟨h.returnType, h.name, fun param hparam => isTypeName_iff.2 (h.params param hparam)⟩⟩

/-- The parts of a layout are names, so its value is well formed. -/
theorem Layout.wellFormed_value (l : Layout) : l.value.WellFormed := by
  refine ⟨?_, ?_, ?_⟩
  · simpa [value] using l.returnType.2
  · simpa [value] using l.name.2
  · intro param hparam
    obtain ⟨t, _, rfl⟩ := List.mem_map.1 hparam
    exact ⟨t, by simp⟩

/-- Whatever is read is well formed. -/
theorem wellFormed_of_parse {s : String} {v : Subsignature} (h : parse s = .ok v) : v.WellFormed := by
  obtain ⟨l, hl⟩ := exists_layout_of_parse h
  have hvalue : v = l.value := Except.ok.inj (h.symm.trans (parse_of_text l hl))
  rw [hvalue]
  exact l.wellFormed_value

/-! ## §2 The compact layout -/

theorem blank_of_mem_nil : ∀ c ∈ ([] : List Char), Text.isBlank c = true := by simp

theorem blank_of_mem_space : ∀ c ∈ [' '], Text.isBlank c = true := List.all_eq_true.1 (by decide)

/-- No blanks at all. -/
def noBlanks : Blanks := ⟨[], blank_of_mem_nil⟩

/-- The layout with one blank after the return type and none elsewhere. -/
def Layout.compact (returnType : { cs : List Char // Over ['.', '$', '[', ']', '<', '>'] cs })
    (name : { cs : List Char // Over ['$', '<', '>'] cs }) (types : List TypeText) : Layout where
  lead := noBlanks
  returnType := returnType
  gap := ⟨⟨[' '], blank_of_mem_space⟩, by simp⟩
  name := name
  beforeOpen := noBlanks
  afterOpen := noBlanks
  params := match types with
    | [] => none
    | first :: rest => some ⟨first, rest.map fun t => ⟨noBlanks, noBlanks, t⟩, noBlanks⟩
  trail := noBlanks

section Compact

variable (returnType : { cs : List Char // Over ['.', '$', '[', ']', '<', '>'] cs })
  (name : { cs : List Char // Over ['$', '<', '>'] cs }) (types : List TypeText)

theorem Layout.types_compact : (compact returnType name types).types = types := by
  cases types with
  | nil => rfl
  | cons first rest => simp [Layout.types, compact, ParamsText.types, Function.comp_def]

/-- Without blanks, the parameters after the first are what a comma before each of them makes of them. -/
theorem text_append_moreText (first : TypeText) (rest : List TypeText) :
    first.text ++ moreText (rest.map fun t => ⟨noBlanks, noBlanks, t⟩) =
      [','].intercalate ((first :: rest).map TypeText.text) := by
  induction rest generalizing first with
  | nil => simp [moreText]
  | cons next rest ih =>
    have hcons : moreText ((next :: rest).map fun t => ⟨noBlanks, noBlanks, t⟩) =
        ',' :: (next.text ++ moreText (rest.map fun t => ⟨noBlanks, noBlanks, t⟩)) := by
      simp [moreText, noBlanks]
    rw [hcons, ih]
    simp [List.intercalate_cons_cons]

theorem Layout.inside_compact :
    (compact returnType name types).inside = [','].intercalate (types.map TypeText.text) := by
  cases types with
  | nil => rfl
  | cons first rest =>
    rw [← text_append_moreText]
    simp [inside, compact, ParamsText.text, noBlanks]

/-- The characters of the compact layout. -/
theorem Layout.text_compact :
    (compact returnType name types).text = returnType.1 ++ ' ' :: (name.1 ++
      '(' :: ([','].intercalate (types.map TypeText.text) ++ [')'])) := by
  rw [← inside_compact returnType name types]
  simp [text, compact, noBlanks]

end Compact

/-! ## §3 What is written is read back -/

/-- The parameters of a well-formed subsignature are type names, one by one. -/
theorem WellFormed.exists_types {v : Subsignature} (h : v.WellFormed) :
    ∃ types : List TypeText, types.map TypeText.text = v.params.map String.toList := by
  have hrange : v.params.map String.toList ∈ Set.range (List.map TypeText.text) := by
    rw [Set.range_list_map]
    intro cs hcs
    obtain ⟨param, hparam, rfl⟩ := List.mem_map.1 hcs
    exact h.params param hparam
  exact hrange

/-- **Writing and reading**: a well-formed subsignature is read back as it was. -/
theorem WellFormed.parse_render {v : Subsignature} (h : v.WellFormed) : parse v.render = .ok v := by
  obtain ⟨types, htypes⟩ := h.exists_types
  -- the text of the compact layout is what is written, and its value is what was to be written
  have htext : (Layout.compact ⟨_, h.returnType⟩ ⟨_, h.name⟩ types).text = v.render.toList := by
    rw [Layout.text_compact, htypes]
    simp [render]
  have hparams : types.map (fun t => String.ofList t.text) = v.params := by
    have hstrings := congrArg (List.map String.ofList) htypes
    simpa [Function.comp_def] using hstrings
  have hvalue : (Layout.compact ⟨_, h.returnType⟩ ⟨_, h.name⟩ types).value = v := by
    simp only [Layout.value, Layout.types_compact, hparams]
    simp [Layout.compact]
  rw [parse_of_text _ htext, hvalue]

theorem parse_render_iff {v : Subsignature} : parse v.render = .ok v ↔ v.WellFormed :=
  ⟨wellFormed_of_parse, WellFormed.parse_render⟩

/-- Well-formed subsignatures are told apart by how they are written. -/
theorem WellFormed.render_inj {v w : Subsignature} (hv : v.WellFormed) (hw : w.WellFormed) :
    v = w ↔ v.render = w.render := by
  constructor
  · exact congrArg render
  · intro h
    have hread : parse w.render = .ok v := h ▸ hv.parse_render
    exact Except.ok.inj (hread.symm.trans hw.parse_render)

/-- The normal form of a text: the subsignature that it is read as, written again. -/
def normalise (s : String) : Except ParseError String := (parse s).map render

theorem normalise_of_parse {s : String} {v : Subsignature} (h : parse s = .ok v) :
    normalise s = .ok v.render := by
  rw [normalise, h]
  rfl

/-- A normal form is its own normal form. -/
theorem normalise_render {s : String} {v : Subsignature} (h : parse s = .ok v) :
    normalise v.render = .ok v.render :=
  normalise_of_parse (wellFormed_of_parse h).parse_render

/-- **Writing and reading are inverse exactly on well-formed subsignatures.** A subsignature is read back
    from how it is written if and only if it is well formed. What is read from a text is well formed, so it
    is read back; writing it gives the normal form of the text, which is its own normal form; and what two
    texts are read as is the same if and only if their normal forms are. -/
theorem parse_render_exact :
    (∀ v : Subsignature, parse v.render = .ok v ↔ v.WellFormed) ∧
      (∀ s v, parse s = .ok v →
        parse v.render = .ok v ∧ normalise s = .ok v.render ∧ normalise v.render = .ok v.render) ∧
      ∀ s t v w, parse s = .ok v → parse t = .ok w → (v = w ↔ v.render = w.render) := by
  refine ⟨fun v => parse_render_iff, ?_, ?_⟩
  · intro s v h
    exact ⟨(wellFormed_of_parse h).parse_render, normalise_of_parse h, normalise_render h⟩
  · intro s t v w hv hw
    exact (wellFormed_of_parse hv).render_inj (wellFormed_of_parse hw)

-- a comma inside a parameter is taken for one between parameters
example : parse (render ⟨"void", "f", ["A,B"]⟩) = .ok ⟨"void", "f", ["A", "B"]⟩ := by decide +kernel

theorem parse_render_exact_spacious :
    parse " java.lang.Object[] \t<init> (\ngröße[][] ,A$B  )\n" = .ok spacious.value ∧
      parse "java.lang.Object[] <init>(größe[][],A$B)" = .ok spacious.value ∧
      normalise " java.lang.Object[] \t<init> (\ngröße[][] ,A$B  )\n" =
        .ok "java.lang.Object[] <init>(größe[][],A$B)" ∧
      parse "void f(A)" = .ok ⟨"void", "f", ["A"]⟩ ∧ spacious.value ≠ ⟨"void", "f", ["A"]⟩ := by
  have hspacious : parse " java.lang.Object[] \t<init> (\ngröße[][] ,A$B  )\n" = .ok spacious.value := by
    decide +kernel
  have hother : parse "void f(A)" = .ok ⟨"void", "f", ["A"]⟩ := by decide +kernel
  have hrender : spacious.value.render = "java.lang.Object[] <init>(größe[][],A$B)" := by
    decide +kernel
  obtain ⟨hback, hnormal, _⟩ := parse_render_exact.2.1 _ _ hspacious
  -- the two are written differently, so they are different
  have happart := (parse_render_exact.2.2 _ _ _ _ hspacious hother).not.2 (by decide +kernel)
  rw [hrender] at hback hnormal
  exact ⟨hspacious, hback, hnormal, hother, happart⟩

end PointsTo.Subsignature
