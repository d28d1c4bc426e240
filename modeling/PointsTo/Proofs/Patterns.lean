import Mathlib.Data.List.DropRight
import Mathlib.Data.List.Forall2
import PointsTo.Proofs.Grammar

/-!
# Patterns

Two patterns say what a subsignature looks like, one for the whole and one for the types of its parameters. With
`\w` for word characters and `\s` for blanks they are

    \s*([\w.$\[\]<>]+)\s+([\w$<>]+)\s*\(\s*([\w.$\[\]<>,\s]*)\)\s*
    [\w.$<>]+(\[\])*

and each of them is about a text from its first character to its last. A text fits a pattern if it can be divided
into parts that fit the pieces of the pattern, one by one. There may be several ways to do so. The one that counts
makes the first part as long as possible, then the second one, and so on. What stands in round brackets is kept:
the return type, the name, and the parameter list, which is trimmed, split at its commas and trimmed again.

The parser takes a run of characters for each piece and does not look for other ways. It finds the same parts,
because a run can end only where the next piece begins. There is one exception: the blanks after the opening
parenthesis may also belong to the parameter list. They are given to the former by the pattern and to the latter by
the parser, and trimming takes them away.

- `Piece`, `Pattern`: patterns, one piece after the other.
- `Pattern.Divides`, `Pattern.Finds`: the ways to divide a text, and the one that counts.
- `finds_written_iff`: how a written subsignature is divided.
- `captures_iff_parts?`, `isTypeName_iff_matches`: the parser finds what the one pattern keeps, and decides the
  other one.
- `Reads`, `reads_iff`: reading by patterns, and the parser reads in the same way.
-/

namespace PointsTo.Subsignature

open Text (isBlank trimBlanks)

/-! ## §1 Patterns -/

/-- A piece of a pattern. -/
inductive Piece
  /-- One character. -/
  | mark (c : Char)
  /-- Any number of characters of a class. -/
  | any (f : Char → Bool)
  /-- One or more characters of a class. -/
  | many (f : Char → Bool)
  /-- Any number of copies of a text. -/
  | copies (cs : List Char)

/-- The texts that fit a piece. -/
def Piece.Fits : Piece → List Char → Prop
  | mark c, cs => cs = [c]
  | any f, cs => ∀ c ∈ cs, f c = true
  | many f, cs => cs ≠ [] ∧ ∀ c ∈ cs, f c = true
  | copies word, cs => ∃ n, cs = (List.replicate n word).flatten

/-- Pieces, one after the other. -/
abbrev Pattern := List Piece

namespace Pattern

variable {pattern : Pattern} {cs : List Char} {parts parts' : List (List Char)}

/-- A way to divide a text: each part fits its piece. -/
def Divides (pattern : Pattern) (cs : List Char) (parts : List (List Char)) : Prop :=
  List.Forall₂ Piece.Fits pattern parts ∧ parts.flatten = cs

/-- There is a way to divide the text. -/
def Matches (pattern : Pattern) (cs : List Char) : Prop := ∃ parts, pattern.Divides cs parts

/-- The way that counts: no other way makes the first part longer, or leaves it and makes the second one longer,
    and so on. -/
def Finds (pattern : Pattern) (cs : List Char) (parts : List (List Char)) : Prop :=
  pattern.Divides cs parts ∧ ∀ others, pattern.Divides cs others →
    ¬ List.Lex (· < ·) (parts.map List.length) (others.map List.length)

theorem Finds.unique (h : pattern.Finds cs parts) (h' : pattern.Finds cs parts') : parts = parts' := by
  apply List.eq_iff_flatten_eq.2
  exact ⟨h.1.2.trans h'.1.2.symm, List.le_antisymm (h'.2 parts h.1) (h.2 parts' h'.1)⟩

end Pattern

/-- The pattern of a written subsignature. -/
def written : Pattern :=
  [.any isBlank, .many isTypeChar, .many isBlank, .many isNameChar, .any isBlank, .mark '(', .any isBlank,
    .any isListChar, .mark ')', .any isBlank]

/-- The pattern of the type of a parameter. -/
def typeName : Pattern := [.many isElementChar, .copies ['[', ']']]

/-! ## §2 How a written subsignature is divided -/

variable {cs : List Char}

/-- The parts of a division, with what stands in parentheses given in two parts. -/
def Division.pieces (d : Division) (afterOpen list : List Char) : List (List Char) :=
  [d.lead.1, d.returnType.1, d.gap.1.1, d.name.1, d.beforeOpen.1, ['('], afterOpen, list, [')'], d.trail.1]

/-- The ways to divide a written subsignature differ in nothing but the blanks after the opening parenthesis. -/
theorem divides_written_iff {parts : List (List Char)} :
    written.Divides cs parts ↔ ∃ (d : Division) (afterOpen list : List Char), d.text = cs ∧
      (∀ c ∈ afterOpen, isBlank c = true) ∧ d.inside.1 = afterOpen ++ list ∧
      parts = d.pieces afterOpen list := by
  constructor
  · rintro ⟨hfits, rfl⟩
    simp only [written, List.forall₂_cons_left_iff, List.forall₂_nil_left_iff] at hfits
    obtain ⟨lead, _, hlead, ⟨returnType, _, htype, ⟨gap, _, hgap, ⟨name, _, hname, ⟨beforeOpen, _, hbefore,
      ⟨_, _, rfl, ⟨afterOpen, _, hafter, ⟨list, _, hlist, ⟨_, _, rfl, ⟨trail, _, htrail, rfl, rfl⟩, rfl⟩,
      rfl⟩, rfl⟩, rfl⟩, rfl⟩, rfl⟩, rfl⟩, rfl⟩, rfl⟩ := hfits
    have hinside : ∀ c ∈ afterOpen ++ list, isListChar c = true := by
      intro c hc
      rcases List.mem_append.1 hc with hc | hc
      · exact isListChar_of_blank (hafter c hc)
      · exact hlist c hc
    refine ⟨⟨⟨lead, hlead⟩, ⟨returnType, htype.1, ?_⟩, ⟨⟨gap, hgap.2⟩, hgap.1⟩, ⟨name, hname.1, ?_⟩,
      ⟨beforeOpen, hbefore⟩, ⟨afterOpen ++ list, hinside⟩, ⟨trail, htrail⟩⟩, afterOpen, list, ?_, hafter, rfl, rfl⟩
    · exact fun c hc => isTypeChar_iff.1 (htype.2 c hc)
    · exact fun c hc => isNameChar_iff.1 (hname.2 c hc)
    · simp [Division.text]
  · rintro ⟨d, afterOpen, list, rfl, hafter, hinside, rfl⟩
    have hlist : ∀ c ∈ list, isListChar c = true := by
      intro c hc
      exact d.inside.2 c (hinside ▸ List.mem_append_right afterOpen hc)
    refine ⟨?_, by simp [Division.pieces, Division.text, hinside]⟩
    exact .cons d.lead.2 <| .cons ⟨d.returnType.2.1, d.returnType.2.typeChars⟩ <|
      .cons ⟨d.gap.2, d.gap.1.2⟩ <| .cons ⟨d.name.2.1, d.name.2.nameChars⟩ <| .cons d.beforeOpen.2 <|
      .cons rfl <| .cons hafter <| .cons hlist <| .cons rfl <| .cons d.trail.2 .nil

/-- Blanks at the start of a parameter list are not more than the blanks that it starts with. -/
theorem Division.not_lex_pieces (d : Division) {afterOpen list : List Char}
    (hafter : ∀ c ∈ afterOpen, isBlank c = true) (hinside : d.inside.1 = afterOpen ++ list) :
    ¬ List.Lex (· < ·)
      ((d.pieces (d.inside.1.takeWhile isBlank) (d.inside.1.dropWhile isBlank)).map List.length)
      ((d.pieces afterOpen list).map List.length) := by
  rw [hinside, List.takeWhile_append_of_pos hafter, List.dropWhile_append_of_pos hafter]
  -- up to the opening parenthesis nothing differs
  simp only [pieces, List.map_cons, List.length_append, List.cons_lex_cons_iff, Nat.lt_irrefl, true_and, false_or]
  cases hblanks : list.takeWhile isBlank with
  | cons c rest => simp
  | nil =>
    have hlist : list.dropWhile isBlank = list := by
      simpa [hblanks] using List.takeWhile_append_dropWhile (p := isBlank) (l := list)
    simp [hlist]

/-- **The blanks after the opening parenthesis do not belong to the parameter list**, and this makes one way to
    divide a written subsignature the one that counts. -/
theorem finds_written_iff {parts : List (List Char)} :
    written.Finds cs parts ↔ ∃ d : Division, d.text = cs ∧
      parts = d.pieces (d.inside.1.takeWhile isBlank) (d.inside.1.dropWhile isBlank) := by
  have hfinds : ∀ d : Division, written.Finds d.text
      (d.pieces (d.inside.1.takeWhile isBlank) (d.inside.1.dropWhile isBlank)) := by
    intro d
    constructor
    · exact divides_written_iff.2 ⟨d, _, _, rfl, fun c hc => List.mem_takeWhile_imp hc,
        List.takeWhile_append_dropWhile.symm, rfl⟩
    · intro others hothers
      obtain ⟨d', afterOpen, list, htext, hafter, hinside, rfl⟩ := divides_written_iff.1 hothers
      obtain rfl : d' = d := Division.text_injective htext
      exact d'.not_lex_pieces hafter hinside
  constructor
  · intro h
    obtain ⟨d, _, _, rfl, _⟩ := divides_written_iff.1 h.1
    exact ⟨d, rfl, h.unique (hfinds d)⟩
  · rintro ⟨d, rfl, rfl⟩
    exact hfinds d

/-! ## §3 What the parser finds -/

variable {returnType name list : List Char}

/-- What is kept of a written subsignature: the return type, the name and the parameter list. -/
def Captures (cs returnType name list : List Char) : Prop :=
  ∃ lead gap beforeOpen afterOpen trail,
    written.Finds cs [lead, returnType, gap, name, beforeOpen, ['('], afterOpen, list, [')'], trail]

/-- **The parser finds what the pattern keeps**, with the blanks after the opening parenthesis left on the
    parameter list. -/
theorem captures_iff_parts? :
    Captures cs returnType name list ↔
      ∃ inside, parts? cs = some ⟨returnType, name, inside⟩ ∧ list = inside.dropWhile isBlank := by
  constructor
  · rintro ⟨lead, gap, beforeOpen, afterOpen, trail, h⟩
    obtain ⟨d, rfl, hpieces⟩ := finds_written_iff.1 h
    simp only [Division.pieces, List.cons.injEq] at hpieces
    obtain ⟨_, rfl, _, rfl, _, _, _, rfl, _⟩ := hpieces
    exact ⟨d.inside.1, d.parts?_text, rfl⟩
  · rintro ⟨inside, hparts, rfl⟩
    obtain ⟨d, rfl, hd⟩ := exists_division_of_parts? hparts
    cases hd
    exact ⟨_, _, _, _, _, finds_written_iff.2 ⟨d, rfl, rfl⟩⟩

/-- The parser finds nothing precisely if the text does not fit the pattern. -/
theorem parts?_eq_none_iff : parts? cs = none ↔ ¬ written.Matches cs := by
  constructor
  · rintro hnone ⟨parts, hparts⟩
    obtain ⟨d, _, _, rfl, _⟩ := divides_written_iff.1 hparts
    rw [d.parts?_text] at hnone
    exact absurd hnone (Option.some_ne_none _)
  · intro hnot
    rw [Option.eq_none_iff_forall_ne_some]
    intro parts hparts
    obtain ⟨d, rfl, _⟩ := exists_division_of_parts? hparts
    exact hnot ⟨_, (finds_written_iff.2 ⟨d, rfl, rfl⟩).1⟩

/-- **The parser decides the pattern of type names.** -/
theorem isTypeName_iff_matches : isTypeName cs = true ↔ typeName.Matches cs := by
  rw [isTypeName_iff]
  constructor
  · rintro ⟨t, rfl⟩
    refine ⟨[t.name.1, brackets t.pairs], ?_, by simp [TypeText.text]⟩
    exact .cons ⟨t.name.2.1, t.name.2.elementChars⟩ (.cons ⟨t.pairs, rfl⟩ .nil)
  · rintro ⟨parts, hfits, rfl⟩
    simp only [typeName, List.forall₂_cons_left_iff, List.forall₂_nil_left_iff] at hfits
    obtain ⟨name, _, hname, ⟨_, _, ⟨n, rfl⟩, rfl, rfl⟩, rfl⟩ := hfits
    refine ⟨⟨⟨name, hname.1, fun c hc => isElementChar_iff.1 (hname.2 c hc)⟩, n⟩, ?_⟩
    simp [TypeText.text, brackets]

/-- Blanks at the start of a parameter list do not matter. -/
theorem candidates_dropWhile (inside : List Char) : candidates (inside.dropWhile isBlank) = candidates inside := by
  have htrim : trimBlanks (inside.dropWhile isBlank) = trimBlanks inside := by
    rw [trimBlanks, List.dropWhile_idempotent, trimBlanks]
  rw [candidates, htrim, candidates]

/-! ## §4 Reading by patterns -/

/-- How a text is read. It has to fit the pattern of a written subsignature. The parameter list is taken apart, and
    the parameters have to fit the pattern of type names; the first one that does not is reported. -/
inductive Reads (s : String) : Except ParseError Subsignature → Prop
  | unmatched : ¬ written.Matches s.toList → Reads s (.error (.malformed s))
  | unmatchedParameter {returnType name list param : List Char} {before after : List (List Char)} :
      Captures s.toList returnType name list → candidates list = before ++ param :: after →
      (∀ param ∈ before, typeName.Matches param) → ¬ typeName.Matches param →
      Reads s (.error (.malformedParameter (String.ofList param) s))
  | matched {returnType name list : List Char} :
      Captures s.toList returnType name list → (∀ param ∈ candidates list, typeName.Matches param) →
      Reads s (.ok ⟨String.ofList returnType, String.ofList name, (candidates list).map String.ofList⟩)

theorem parse_of_reads {s : String} {answer : Except ParseError Subsignature} (h : Reads s answer) :
    parse s = answer := by
  cases h with
  | unmatched hnot => rw [parse, parts?_eq_none_iff.2 hnot]
  | @unmatchedParameter _ _ _ param before after hcaptures hparams hbefore hparam =>
    obtain ⟨inside, hparts, rfl⟩ := captures_iff_parts?.1 hcaptures
    have hfind : (candidates inside).find? (fun param => !isTypeName param) = some param := by
      rw [← candidates_dropWhile, hparams]
      refine List.find?_eq_some_iff_append.2 ⟨?_, before, after, rfl, fun x hx => ?_⟩
      · simpa using mt isTypeName_iff_matches.1 hparam
      · simpa using isTypeName_iff_matches.2 (hbefore x hx)
    rw [parse, hparts]
    simp only [hfind]
  | matched hcaptures hparams =>
    obtain ⟨inside, hparts, rfl⟩ := captures_iff_parts?.1 hcaptures
    rw [candidates_dropWhile] at hparams ⊢
    have hfind : (candidates inside).find? (fun param => !isTypeName param) = none := by
      apply List.find?_eq_none.2
      intro param hparam
      simp [isTypeName_iff_matches.2 (hparams param hparam)]
    rw [parse, hparts]
    simp only [hfind]

theorem reads_parse (s : String) : Reads s (parse s) := by
  cases hparts : parts? s.toList with
  | none =>
    rw [parse, hparts]
    exact .unmatched (parts?_eq_none_iff.1 hparts)
  | some parts =>
    have hcaptures : Captures s.toList parts.returnType parts.name (parts.list.dropWhile isBlank) :=
      captures_iff_parts?.2 ⟨parts.list, hparts, rfl⟩
    rw [parse, hparts]
    dsimp only
    cases hfind : (candidates parts.list).find? (fun param => !isTypeName param) with
    | some param =>
      obtain ⟨hparam, before, after, hsplit, hbefore⟩ := List.find?_eq_some_iff_append.1 hfind
      rw [← candidates_dropWhile] at hsplit
      refine .unmatchedParameter hcaptures hsplit (fun x hx => ?_) ?_
      · exact isTypeName_iff_matches.1 (by simpa using hbefore x hx)
      · exact mt isTypeName_iff_matches.2 (by simpa using hparam)
    | none =>
      have hparams : ∀ param ∈ candidates (parts.list.dropWhile isBlank), typeName.Matches param := by
        rw [candidates_dropWhile]
        intro param hparam
        exact isTypeName_iff_matches.1 (by simpa using List.find?_eq_none.1 hfind param hparam)
      have hreads := Reads.matched hcaptures hparams
      rwa [candidates_dropWhile] at hreads

/-- **A text is read as the patterns say**, whether that succeeds or not. -/
theorem reads_iff {s : String} {answer : Except ParseError Subsignature} :
    Reads s answer ↔ parse s = answer :=
  ⟨parse_of_reads, fun h => h ▸ reads_parse s⟩

end PointsTo.Subsignature
