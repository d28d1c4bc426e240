import Mathlib.Data.List.TakeWhile
import PointsTo.Subsignature.Parser

/-!
# The grammar of subsignatures

A written subsignature is a return type, blanks, a name and parameters in parentheses. The parameters are
types, with commas between them, and blanks may stand around every part. A layout is a text taken apart in
this way, with all its blanks, so it has the text that it was taken from.

The parser goes another way. It divides the text at its parentheses first, and takes what stands between
them for a parameter list whatever it is, if only the characters are right. The list is split at its commas
only then, and the pieces are trimmed and looked at one by one. It comes to the same: the parts of a layout
end where the parser ends them, because no part goes on with a character that can follow it.

- `Layout`: a subsignature as it is written, with its text and its value.
- `Division`: a text divided at its parentheses, as the parser does it first.
- `parse_of_text`: the text of a layout is read as the value of the layout.
- `exists_layout_of_parse`: what is read as a subsignature is the text of a layout.
- `Layout.text_injective`: no text has two layouts.
- `parse_exact`: the parser accepts the texts of layouts, and no others.
-/

namespace PointsTo.Subsignature

open Text (isBlank isWord trimBlanks)

/-! ## §1 Characters -/

/-- The characters that are neither word characters nor blanks, but have a part in the grammar. -/
def marks : List Char := ['.', '$', '[', ']', '<', '>', ',', '(', ')']

theorem not_blank_of_mark {c : Char} (hc : c ∈ marks) : isBlank c = false := by
  have hmarks : marks.all (fun c => !isBlank c) = true := by decide
  simpa using List.all_eq_true.1 hmarks c hc

/-- No word character is blank. -/
theorem not_blank_of_word {c : Char} (hc : isWord c = true) : isBlank c = false := by
  have hapart : Text.wordRanges.all (fun word => Text.blankRanges.all fun blank =>
      decide (word.2 < blank.1 ∨ blank.2 < word.1)) = true := by
    decide +kernel
  simp only [List.all_eq_true, decide_eq_true_eq] at hapart
  obtain ⟨word, hword, hlo, hhi⟩ := (Text.Ranges.covers_iff Text.wordRanges_ascending _).1 hc
  rw [← Bool.not_eq_true]
  intro hblank
  obtain ⟨blank, hmem, hlo', hhi'⟩ := (Text.Ranges.covers_iff Text.blankRanges_ascending _).1 hblank
  have := hapart word hword blank hmem
  omega

/-- A text of one or more characters, each a word character or one of a few others. -/
def Over (others : List Char) (cs : List Char) : Prop :=
  cs ≠ [] ∧ ∀ c ∈ cs, isWord c = true ∨ c ∈ others

instance (others cs : List Char) : Decidable (Over others cs) :=
  decidable_of_iff (cs ≠ [] ∧ cs.all (fun c => isWord c || others.contains c) = true) (by simp [Over])

theorem isNameChar_iff {c : Char} :
    isNameChar c = true ↔ isWord c = true ∨ c ∈ ['$', '<', '>'] := by
  simp [isNameChar, or_assoc]

theorem isElementChar_iff {c : Char} :
    isElementChar c = true ↔ isWord c = true ∨ c ∈ ['.', '$', '<', '>'] := by
  simp only [isElementChar, isNameChar, Bool.or_eq_true, beq_iff_eq, List.mem_cons,
    List.not_mem_nil]
  grind

theorem isTypeChar_iff {c : Char} :
    isTypeChar c = true ↔ isWord c = true ∨ c ∈ ['.', '$', '[', ']', '<', '>'] := by
  simp only [isTypeChar, isElementChar, isNameChar, Bool.or_eq_true, beq_iff_eq, List.mem_cons,
    List.not_mem_nil]
  grind

/-- Blanks do not belong to types. -/
theorem not_typeChar_of_blank {c : Char} (hc : isBlank c = true) : isTypeChar c = false := by
  rw [← Bool.not_eq_true, isTypeChar_iff]
  rintro (hword | hmark)
  · simp [not_blank_of_word hword] at hc
  · have hmarks : ['.', '$', '[', ']', '<', '>'] ⊆ marks := by simp [marks]
    simp [not_blank_of_mark (hmarks hmark)] at hc

theorem isTypeChar_of_elementChar {c : Char} (hc : isElementChar c = true) : isTypeChar c = true := by
  simp [isTypeChar, hc]

theorem isTypeChar_of_nameChar {c : Char} (hc : isNameChar c = true) : isTypeChar c = true := by
  simp [isTypeChar, isElementChar, hc]

/-! ## §2 Runs of characters -/

/-- The text does not go on with a character of the class. -/
def Stops (f : Char → Bool) (cs : List Char) : Prop := ∀ c ∈ cs.head?, f c = false

section Runs

variable {f : Char → Bool} {a b x y : List Char}

theorem takeWhile_append_stop (ha : ∀ c ∈ a, f c = true) (hx : Stops f x) :
    (a ++ x).takeWhile f = a := by
  rw [List.takeWhile_append_of_pos ha]
  cases x with
  | nil => simp
  | cons c rest => simp [hx c rfl]

theorem dropWhile_append_stop (ha : ∀ c ∈ a, f c = true) (hx : Stops f x) :
    (a ++ x).dropWhile f = x := by
  rw [List.dropWhile_append_of_pos ha]
  cases x with
  | nil => rfl
  | cons c rest => simp [hx c rfl]

/-- A text is divided in one way only into a run of the class and something that does not go on with it. -/
theorem run_unique (ha : ∀ c ∈ a, f c = true) (hb : ∀ c ∈ b, f c = true) (hx : Stops f x)
    (hy : Stops f y) (h : a ++ x = b ++ y) : a = b ∧ x = y := by
  constructor
  · rw [← takeWhile_append_stop ha hx, h, takeWhile_append_stop hb hy]
  · rw [← dropWhile_append_stop ha hx, h, dropWhile_append_stop hb hy]

theorem stops_cons {c : Char} (hc : f c = false) : Stops f (c :: x) := by
  simpa [Stops] using hc

/-- A text of other characters stops a run, unless it is empty. -/
theorem stops_append (ha : ∀ c ∈ a, f c = false) (hx : a = [] → Stops f x) : Stops f (a ++ x) := by
  cases a with
  | nil => exact hx rfl
  | cons c rest => exact stops_cons (ha c List.mem_cons_self)

end Runs

/-- A name stops blanks. -/
theorem Over.stops_blank {others cs : List Char} (h : Over others cs)
    (hothers : others ⊆ marks) (x : List Char) : Stops isBlank (cs ++ x) := by
  refine stops_append (fun c hc => ?_) fun hnil => absurd hnil h.1
  rcases h.2 c hc with hword | hmark
  · exact not_blank_of_word hword
  · exact not_blank_of_mark (hothers hmark)

/-! ## §3 Layouts -/

/-- Any number of blanks. -/
abbrev Blanks := { cs : List Char // ∀ c ∈ cs, isBlank c = true }

/-- Blanks followed by blanks. -/
def Blanks.append (b a : Blanks) : Blanks :=
  ⟨b.1 ++ a.1, fun c hc => (List.mem_append.1 hc).elim (b.2 c) (a.2 c)⟩

/-- Pairs of brackets. -/
def brackets (n : Nat) : List Char := (List.replicate n ['[', ']']).flatten

/-- A type name as it is written in a parameter list: a name, and pairs of brackets. -/
@[ext]
structure TypeText where
  name : { cs : List Char // Over ['.', '$', '<', '>'] cs }
  pairs : Nat

/-- The characters of a type name. -/
def TypeText.text (t : TypeText) : List Char :=
  t.name.1 ++ brackets t.pairs

/-- A parameter after the first: the blanks before and after its comma, and its type. -/
@[ext]
structure NextParam where
  before : Blanks
  after : Blanks
  type : TypeText

/-- A parameter list that is not empty, from its first parameter to its closing parenthesis. -/
@[ext]
structure ParamsText where
  first : TypeText
  more : List NextParam
  trail : Blanks

/-- The characters of the parameters after the first. -/
def moreText (more : List NextParam) : List Char :=
  more.flatMap fun param => param.before.1 ++ ',' :: (param.after.1 ++ param.type.text)

theorem moreText_cons_append (param : NextParam) (rest : List NextParam) (x : List Char) :
    moreText (param :: rest) ++ x = param.before.1 ++
      ',' :: (param.after.1 ++ (param.type.text ++ (moreText rest ++ x))) := by
  simp [moreText]

/-- The characters of a parameter list. -/
def ParamsText.text (ps : ParamsText) : List Char := ps.first.text ++ (moreText ps.more ++ ps.trail.1)

/-- The types of a parameter list. -/
def ParamsText.types (ps : ParamsText) : List TypeText := ps.first :: ps.more.map NextParam.type

/-- A subsignature as it is written: return type, name and parameters, with blanks between and around
    them. -/
@[ext]
structure Layout where
  lead : Blanks
  returnType : { cs : List Char // Over ['.', '$', '[', ']', '<', '>'] cs }
  gap : { cs : Blanks // cs.1 ≠ [] }
  name : { cs : List Char // Over ['$', '<', '>'] cs }
  beforeOpen : Blanks
  afterOpen : Blanks
  params : Option ParamsText
  trail : Blanks

namespace Layout

/-- What stands between the parentheses. -/
def inside (l : Layout) : List Char :=
  l.afterOpen.1 ++ match l.params with
    | none => []
    | some ps => ps.text

/-- The characters of the whole. -/
def text (l : Layout) : List Char :=
  l.lead.1 ++ (l.returnType.1 ++ (l.gap.1.1 ++ (l.name.1 ++ (l.beforeOpen.1 ++
    '(' :: (l.inside ++ ')' :: l.trail.1)))))

/-- The types of the parameters. -/
def types (l : Layout) : List TypeText :=
  match l.params with
  | none => []
  | some ps => ps.types

/-- The subsignature that is written. -/
def value (l : Layout) : Subsignature where
  returnType := String.ofList l.returnType.1
  name := String.ofList l.name.1
  params := l.types.map fun t => String.ofList t.text

end Layout

/-! ## §4 Where the parts of a layout end -/

theorem Over.typeChars {cs : List Char} (h : Over ['.', '$', '[', ']', '<', '>'] cs) :
    ∀ c ∈ cs, isTypeChar c = true := fun c hc => isTypeChar_iff.2 (h.2 c hc)

theorem Over.nameChars {cs : List Char} (h : Over ['$', '<', '>'] cs) :
    ∀ c ∈ cs, isNameChar c = true := fun c hc => isNameChar_iff.2 (h.2 c hc)

theorem Over.elementChars {cs : List Char} (h : Over ['.', '$', '<', '>'] cs) :
    ∀ c ∈ cs, isElementChar c = true := fun c hc => isElementChar_iff.2 (h.2 c hc)

theorem mem_brackets {n : Nat} {c : Char} (hc : c ∈ brackets n) : c ∈ ['[', ']'] := by
  obtain ⟨pair, hpair, hc⟩ := List.mem_flatten.1 hc
  rw [List.eq_of_mem_replicate hpair] at hc
  exact hc

/-- The characters of a type name. -/
theorem TypeText.typeChars (t : TypeText) : ∀ c ∈ t.text, isTypeChar c = true := by
  intro c hc
  rcases List.mem_append.1 hc with hc | hc
  · exact isTypeChar_of_elementChar (t.name.2.elementChars c hc)
  · have hbrackets : ['[', ']'].all isTypeChar = true := by decide
    exact List.all_eq_true.1 hbrackets c (mem_brackets hc)

theorem isListChar_of_typeChar {c : Char} (hc : isTypeChar c = true) : isListChar c = true := by
  simp [isListChar, hc]

theorem isListChar_of_blank {c : Char} (hc : isBlank c = true) : isListChar c = true := by
  simp [isListChar, hc]

theorem isListChar_moreText (more : List NextParam) : ∀ c ∈ moreText more, isListChar c = true := by
  intro c hc
  obtain ⟨param, _, hc⟩ := List.mem_flatMap.1 hc
  simp only [List.mem_append, List.mem_cons] at hc
  rcases hc with hc | rfl | hc | hc
  · exact isListChar_of_blank (param.before.2 c hc)
  · decide
  · exact isListChar_of_blank (param.after.2 c hc)
  · exact isListChar_of_typeChar (param.type.typeChars c hc)

namespace Layout

variable (l : Layout)

/-- What stands between the parentheses are characters of a parameter list. -/
theorem isListChar_inside : ∀ c ∈ l.inside, isListChar c = true := by
  intro c hc
  rcases List.mem_append.1 hc with hc | hc
  · exact isListChar_of_blank (l.afterOpen.2 c hc)
  · cases hparams : l.params with
    | none => simp [hparams] at hc
    | some ps =>
      simp only [hparams, ParamsText.text, List.mem_append] at hc
      rcases hc with hc | hc | hc
      · exact isListChar_of_typeChar (ps.first.typeChars c hc)
      · exact isListChar_moreText ps.more c hc
      · exact isListChar_of_blank (ps.trail.2 c hc)

end Layout

/-- A text divided into the parts that the parser looks for first: a return type, a name and anything in
    parentheses that has the right characters, with blanks between and around them. -/
@[ext]
structure Division where
  lead : Blanks
  returnType : { cs : List Char // Over ['.', '$', '[', ']', '<', '>'] cs }
  gap : { cs : Blanks // cs.1 ≠ [] }
  name : { cs : List Char // Over ['$', '<', '>'] cs }
  beforeOpen : Blanks
  inside : { cs : List Char // ∀ c ∈ cs, isListChar c = true }
  trail : Blanks

namespace Division

/-- The characters of the whole. -/
def text (d : Division) : List Char :=
  d.lead.1 ++ (d.returnType.1 ++ (d.gap.1.1 ++ (d.name.1 ++ (d.beforeOpen.1 ++
    '(' :: (d.inside.1 ++ ')' :: d.trail.1)))))

/-- The parts that are kept. -/
def parts (d : Division) : Parts := ⟨d.returnType.1, d.name.1, d.inside.1⟩

variable (d : Division)

theorem stops_lead (x : List Char) : Stops isBlank (d.returnType.1 ++ x) :=
  d.returnType.2.stops_blank (by simp [marks]) x

theorem stops_returnType (x : List Char) : Stops isTypeChar (d.gap.1.1 ++ x) :=
  stops_append (fun c hc => not_typeChar_of_blank (d.gap.1.2 c hc)) fun hnil => absurd hnil d.gap.2

theorem stops_gap (x : List Char) : Stops isBlank (d.name.1 ++ x) :=
  d.name.2.stops_blank (by simp [marks]) x

theorem stops_name (x : List Char) : Stops isNameChar (d.beforeOpen.1 ++ '(' :: x) := by
  refine stops_append (fun c hc => ?_) fun _ => stops_cons (by decide)
  rw [← Bool.not_eq_true]
  intro hname
  have htype := not_typeChar_of_blank (d.beforeOpen.2 c hc)
  simp [isTypeChar_of_nameChar hname] at htype

theorem stops_beforeOpen (x : List Char) : Stops isBlank ('(' :: x) := stops_cons (by decide)

theorem stops_inside (x : List Char) : Stops isListChar (')' :: x) := stops_cons (by decide)

/-- The parts are read off the text. -/
theorem parts?_text : parts? d.text = some d.parts := by
  simp only [parts?, text, parts,
    dropWhile_append_stop d.lead.2 (d.stops_lead _),
    takeWhile_append_stop d.returnType.2.typeChars (d.stops_returnType _),
    dropWhile_append_stop d.returnType.2.typeChars (d.stops_returnType _),
    takeWhile_append_stop d.gap.1.2 (d.stops_gap _), dropWhile_append_stop d.gap.1.2 (d.stops_gap _),
    takeWhile_append_stop d.name.2.nameChars (d.stops_name _),
    dropWhile_append_stop d.name.2.nameChars (d.stops_name _),
    dropWhile_append_stop d.beforeOpen.2 (stops_beforeOpen _),
    takeWhile_append_stop d.inside.2 (stops_inside _),
    dropWhile_append_stop d.inside.2 (stops_inside _)]
  have htrail : d.trail.1.all isBlank = true := List.all_eq_true.2 d.trail.2
  simp [d.returnType.2.1, d.gap.2, d.name.2.1, htrail]

/-- A text is divided in one way only. -/
theorem text_injective {d d' : Division} (h : d.text = d'.text) : d = d' := by
  -- from left to right: each part ends where its characters end
  simp only [text] at h
  obtain ⟨hlead, h⟩ := run_unique d.lead.2 d'.lead.2 (d.stops_lead _) (d'.stops_lead _) h
  obtain ⟨htype, h⟩ := run_unique d.returnType.2.typeChars d'.returnType.2.typeChars
    (d.stops_returnType _) (d'.stops_returnType _) h
  obtain ⟨hgap, h⟩ := run_unique d.gap.1.2 d'.gap.1.2 (d.stops_gap _) (d'.stops_gap _) h
  obtain ⟨hname, h⟩ := run_unique d.name.2.nameChars d'.name.2.nameChars (d.stops_name _)
    (d'.stops_name _) h
  obtain ⟨hbefore, h⟩ := run_unique d.beforeOpen.2 d'.beforeOpen.2 (stops_beforeOpen _)
    (stops_beforeOpen _) h
  obtain ⟨hinside, htrail⟩ := run_unique d.inside.2 d'.inside.2 (stops_inside _) (stops_inside _)
    (List.cons.inj h).2
  exact Division.ext (Subtype.ext hlead) (Subtype.ext htype) (Subtype.ext (Subtype.ext hgap))
    (Subtype.ext hname) (Subtype.ext hbefore) (Subtype.ext hinside) (Subtype.ext (List.cons.inj htrail).2)

end Division

/-- What has the parts of a subsignature can be divided. -/
theorem exists_division_of_parts? {cs : List Char} {parts : Parts} (h : parts? cs = some parts) :
    ∃ d : Division, d.text = cs ∧ d.parts = parts := by
  let afterType := (cs.dropWhile isBlank).dropWhile isTypeChar
  let afterName := (afterType.dropWhile isBlank).dropWhile isNameChar
  have hrun : ∀ (f : Char → Bool) (cs : List Char), ∀ c ∈ cs.takeWhile f, f c = true :=
    fun f cs c hc => List.mem_takeWhile_imp hc
  simp only [parts?] at h
  split at h
  · rename_i inside hopen
    split at h
    · rename_i rest hclose
      split at h
      · simp at h
      · rename_i hok
        simp only [Bool.or_eq_true, Bool.not_eq_true', not_or, Bool.not_eq_true,
          List.isEmpty_eq_false_iff, Bool.not_eq_false] at hok
        obtain ⟨⟨⟨htype, hgap⟩, hname⟩, hrest⟩ := hok
        cases h
        refine ⟨⟨⟨_, hrun isBlank cs⟩, ⟨_, htype, ?_⟩, ⟨⟨_, hrun isBlank afterType⟩, hgap⟩, ⟨_, hname, ?_⟩,
          ⟨_, hrun isBlank afterName⟩, ⟨_, hrun isListChar inside⟩, ⟨rest, List.all_eq_true.1 hrest⟩⟩, ?_, rfl⟩
        · exact fun c hc => isTypeChar_iff.1 (hrun _ _ c hc)
        · exact fun c hc => isNameChar_iff.1 (hrun _ _ c hc)
        · -- from the inside out: each run together with what is left after it
          dsimp only [Division.text]
          rw [← hclose, List.takeWhile_append_dropWhile, ← hopen, List.takeWhile_append_dropWhile,
            List.takeWhile_append_dropWhile, List.takeWhile_append_dropWhile,
            List.takeWhile_append_dropWhile, List.takeWhile_append_dropWhile]
    · simp at h
  · simp at h

/-- A layout divides its text. -/
def Layout.division (l : Layout) : Division where
  lead := l.lead
  returnType := l.returnType
  gap := l.gap
  name := l.name
  beforeOpen := l.beforeOpen
  inside := ⟨l.inside, l.isListChar_inside⟩
  trail := l.trail

theorem Layout.parts?_text (l : Layout) : parts? l.text = some ⟨l.returnType.1, l.name.1, l.inside⟩ :=
  l.division.parts?_text

/-! ## §5 Parameter lists -/

theorem brackets_succ (n : Nat) : brackets (n + 1) = '[' :: ']' :: brackets n := by
  simp [brackets, List.replicate_succ]

theorem isBracketPairs_iff {cs : List Char} : isBracketPairs cs = true ↔ ∃ n, cs = brackets n := by
  constructor
  · intro h
    fun_induction isBracketPairs cs with
    | case1 => exact ⟨0, rfl⟩
    | case2 rest ih =>
      obtain ⟨n, rfl⟩ := ih h
      exact ⟨n + 1, (brackets_succ n).symm⟩
    | case3 => simp at h
  · rintro ⟨n, rfl⟩
    induction n with
    | zero => rfl
    | succ n ih =>
      rw [brackets_succ]
      exact ih

/-- Pairs of brackets do not go on with a character of a name. -/
theorem stops_brackets {x : List Char} (hx : Stops isElementChar x) (n : Nat) :
    Stops isElementChar (brackets n ++ x) := by
  cases n with
  | zero => exact hx
  | succ n =>
    rw [brackets_succ]
    exact stops_cons (by decide)

/-- The type names that the parser accepts are those of the grammar. -/
theorem isTypeName_iff {cs : List Char} : isTypeName cs = true ↔ ∃ t : TypeText, t.text = cs := by
  have hnil : Stops isElementChar [] := by simp [Stops]
  constructor
  · intro h
    simp only [isTypeName, Bool.and_eq_true, Bool.not_eq_true', List.isEmpty_eq_false_iff] at h
    obtain ⟨hname, hpairs⟩ := h
    obtain ⟨n, hn⟩ := isBracketPairs_iff.1 hpairs
    refine ⟨⟨⟨cs.takeWhile isElementChar, hname, ?_⟩, n⟩, ?_⟩
    · exact fun c hc => isElementChar_iff.1 (List.mem_takeWhile_imp hc)
    · rw [TypeText.text, ← hn, List.takeWhile_append_dropWhile]
  · rintro ⟨t, rfl⟩
    have hstops := stops_brackets hnil t.pairs
    rw [List.append_nil] at hstops
    rw [isTypeName, TypeText.text, takeWhile_append_stop t.name.2.elementChars hstops,
      dropWhile_append_stop t.name.2.elementChars hstops]
    simp [t.name.2.1, isBracketPairs_iff.2 ⟨t.pairs, rfl⟩]

/-- Every text is its trimmed form with blanks around it. -/
theorem exists_trimBlanks (cs : List Char) : ∃ b a : Blanks, cs = b.1 ++ (trimBlanks cs ++ a.1) := by
  let body := cs.dropWhile isBlank
  have hrun : ∀ cs : List Char, ∀ c ∈ cs.takeWhile isBlank, isBlank c = true :=
    fun cs c hc => List.mem_takeWhile_imp hc
  refine ⟨⟨_, hrun cs⟩, ⟨(body.reverse.takeWhile isBlank).reverse, ?_⟩, ?_⟩
  · intro c hc
    exact hrun body.reverse c (List.mem_reverse.1 hc)
  · have hbody : trimBlanks cs ++ (body.reverse.takeWhile isBlank).reverse = body := by
      rw [trimBlanks, ← List.reverse_append, List.takeWhile_append_dropWhile, List.reverse_reverse]
    dsimp only
    rw [hbody, List.takeWhile_append_dropWhile]

/-- Blanks around a text are trimmed, and nothing else. -/
theorem trimBlanks_append {x : List Char} (b a : Blanks) (hne : x ≠ []) (hx : Stops isBlank x)
    (hx' : Stops isBlank x.reverse) : trimBlanks (b.1 ++ (x ++ a.1)) = x := by
  have hstops : Stops isBlank (x ++ a.1) := by
    cases x with
    | nil => exact absurd rfl hne
    | cons c rest => exact hx
  have hback : ∀ c ∈ a.1.reverse, isBlank c = true := fun c hc => a.2 c (List.mem_reverse.1 hc)
  rw [trimBlanks, dropWhile_append_stop b.2 hstops, List.reverse_append,
    dropWhile_append_stop hback hx', List.reverse_reverse]

/-- A text of blanks is trimmed to nothing. -/
theorem trimBlanks_blanks (b : Blanks) : trimBlanks b.1 = [] := by
  have hnil : Stops isBlank [] := by simp [Stops]
  have hdrop := dropWhile_append_stop b.2 hnil
  rw [List.append_nil] at hdrop
  rw [trimBlanks, hdrop]
  rfl

namespace TypeText

variable (t : TypeText)

theorem ne_nil : t.text ≠ [] := by
  simp [text, t.name.2.1]

theorem not_blank : ∀ c ∈ t.text, isBlank c = false := by
  intro c hc
  rw [← Bool.not_eq_true]
  intro hblank
  exact absurd (t.typeChars c hc) (by simp [not_typeChar_of_blank hblank])

theorem stops_blank (x : List Char) : Stops isBlank (t.text ++ x) :=
  stops_append t.not_blank fun hnil => absurd hnil t.ne_nil

theorem stops_blank_reverse (x : List Char) : Stops isBlank (t.text.reverse ++ x) := by
  refine stops_append (fun c hc => t.not_blank c (List.mem_reverse.1 hc)) fun hnil => ?_
  exact absurd (List.reverse_eq_nil_iff.1 hnil) t.ne_nil

theorem notMem_comma : ',' ∉ t.text := by
  intro hc
  have htype := t.typeChars _ hc
  revert htype
  decide

end TypeText

theorem Blanks.notMem_comma (b : Blanks) : ',' ∉ b.1 := by
  intro hc
  have hblank := b.2 _ hc
  revert hblank
  decide

/-- Between the first and the last character of its parameters a parameter list is trimmed nowhere. -/
theorem stops_reverse_moreText (t : TypeText) (more : List NextParam) :
    Stops isBlank (t.text ++ moreText more).reverse := by
  rcases List.eq_nil_or_concat more with rfl | ⟨init, last, rfl⟩
  · simpa [moreText] using t.stops_blank_reverse []
  · have htext : t.text ++ moreText (init.concat last) =
        t.text ++ moreText init ++ (last.before.1 ++ ',' :: last.after.1) ++ last.type.text := by
      simp [moreText]
    rw [htext, List.reverse_append]
    exact last.type.stops_blank_reverse _

theorem splitCommas_of_notMem {x : List Char} (hx : ',' ∉ x) : splitCommas x = [x] := by
  induction x with
  | nil => rfl
  | cons c rest ih =>
    obtain ⟨hc, hrest⟩ := not_or.1 (List.mem_cons.not.1 hx)
    simp [splitCommas, Ne.symm hc, ih hrest]

/-- A text is split at its first comma. -/
theorem splitCommas_append {x y : List Char} (hx : ',' ∉ x) :
    splitCommas (x ++ ',' :: y) = x :: splitCommas y := by
  induction x with
  | nil => simp [splitCommas]
  | cons c rest ih =>
    obtain ⟨hc, hrest⟩ := not_or.1 (List.mem_cons.not.1 hx)
    simp [splitCommas, Ne.symm hc, ih hrest]

/-- Blanks around a type name are trimmed. -/
theorem TypeText.trimBlanks_text (t : TypeText) (b a : Blanks) :
    trimBlanks (b.1 ++ (t.text ++ a.1)) = t.text := by
  apply trimBlanks_append b a t.ne_nil
  · simpa using t.stops_blank []
  · simpa using t.stops_blank_reverse []

/-- The pieces of a parameter list are its types, with blanks around them. -/
theorem splitCommas_params (a : Blanks) (t : TypeText) (more : List NextParam) :
    (splitCommas (a.1 ++ (t.text ++ moreText more))).map trimBlanks =
      t.text :: more.map fun param => param.type.text := by
  induction more generalizing a t with
  | nil =>
    have hcomma : ',' ∉ a.1 ++ t.text := by simp [a.notMem_comma, t.notMem_comma]
    have htrim := t.trimBlanks_text a ⟨[], by simp⟩
    rw [List.append_nil] at htrim
    simp only [moreText, List.flatMap_nil, List.append_nil, List.map_nil]
    rw [splitCommas_of_notMem hcomma, List.map_singleton, htrim]
  | cons param rest ih =>
    -- the first piece ends at the comma of the next parameter
    have htext : a.1 ++ (t.text ++ moreText (param :: rest)) =
        (a.1 ++ (t.text ++ param.before.1)) ++
          ',' :: (param.after.1 ++ (param.type.text ++ moreText rest)) := by
      simp [moreText]
    have hcomma : ',' ∉ a.1 ++ (t.text ++ param.before.1) := by
      simp [a.notMem_comma, t.notMem_comma, param.before.notMem_comma]
    rw [htext, splitCommas_append hcomma, List.map_cons, t.trimBlanks_text, ih, List.map_cons]

/-- The parameters that are read are those that are written. -/
theorem Layout.candidates_inside (l : Layout) :
    candidates l.inside = l.types.map TypeText.text := by
  cases hparams : l.params with
  | none =>
    simp [candidates, inside, types, hparams, trimBlanks_blanks]
  | some ps =>
    have hinside : l.inside =
        l.afterOpen.1 ++ ((ps.first.text ++ moreText ps.more) ++ ps.trail.1) := by
      simp [inside, hparams, ParamsText.text]
    have hne : ps.first.text ++ moreText ps.more ≠ [] := by simp [ps.first.ne_nil]
    -- trimming takes away the blanks next to the parentheses, and leaves those around the commas
    have htrim := trimBlanks_append l.afterOpen ps.trail hne (ps.first.stops_blank _)
      (stops_reverse_moreText ps.first ps.more)
    have hsplit := splitCommas_params ⟨[], by simp⟩ ps.first ps.more
    rw [List.nil_append] at hsplit
    rw [candidates, hinside, htrim]
    simp [hne, hsplit, types, hparams, ParamsText.types]

theorem splitCommas_ne_nil (cs : List Char) : splitCommas cs ≠ [] := by
  fun_cases splitCommas cs <;> simp

/-- Nothing is lost when a text is split. -/
theorem intercalate_splitCommas (cs : List Char) : [','].intercalate (splitCommas cs) = cs := by
  fun_induction splitCommas cs with
  | case1 => rfl
  | case2 rest ih =>
    rw [List.intercalate_cons_of_ne_nil (splitCommas_ne_nil rest), ih]
    rfl
  | case3 c rest hc hnil ih => exact absurd hnil (splitCommas_ne_nil rest)
  | case4 c rest hc piece pieces hpieces ih =>
    rw [List.intercalate_cons_cons_left, ← hpieces, ih]

/-- Pieces that are type names with blanks around them make up a parameter list. -/
theorem exists_params {pieces : List (List Char)} (hne : pieces ≠ [])
    (h : ∀ piece ∈ pieces, isTypeName (trimBlanks piece) = true) :
    ∃ (lead : Blanks) (ps : ParamsText), [','].intercalate pieces = lead.1 ++ ps.text := by
  induction pieces with
  | nil => exact absurd rfl hne
  | cons piece rest ih =>
    obtain ⟨t, ht⟩ := isTypeName_iff.1 (h piece List.mem_cons_self)
    obtain ⟨b, a, hpiece⟩ := exists_trimBlanks piece
    rw [← ht] at hpiece
    cases rest with
    | nil =>
      refine ⟨b, ⟨t, [], a⟩, ?_⟩
      simp [ParamsText.text, moreText, hpiece]
    | cons next rest =>
      -- the blanks at the end of the first piece stand before the comma
      obtain ⟨lead, ps, htext⟩ := ih (List.cons_ne_nil next rest) fun x hx =>
        h x (List.mem_cons_of_mem piece hx)
      refine ⟨b, ⟨t, ⟨a, lead, ps.first⟩ :: ps.more, ps.trail⟩, ?_⟩
      rw [List.intercalate_cons_cons, htext]
      simp [ParamsText.text, moreText, hpiece]

/-- What stands between the parentheses is laid out as it should, if all its parameters are type names. -/
theorem exists_inside {list : List Char} (h : ∀ param ∈ candidates list, isTypeName param = true) :
    ∃ (afterOpen : Blanks) (params : Option ParamsText),
      list = afterOpen.1 ++ match params with
        | none => []
        | some ps => ps.text := by
  obtain ⟨b, a, hlist⟩ := exists_trimBlanks list
  by_cases hempty : trimBlanks list = []
  · refine ⟨b.append a, none, ?_⟩
    simpa [Blanks.append, hempty] using hlist
  · -- the pieces of the trimmed list, with the blanks around it put back
    have hpieces : ∀ piece ∈ splitCommas (trimBlanks list),
        isTypeName (trimBlanks piece) = true := by
      intro piece hpiece
      apply h
      rw [candidates, if_neg (by simpa using hempty)]
      exact List.mem_map_of_mem hpiece
    obtain ⟨lead, ps, htext⟩ := exists_params (splitCommas_ne_nil _) hpieces
    rw [intercalate_splitCommas] at htext
    refine ⟨b.append lead, some ⟨ps.first, ps.more, ps.trail.append a⟩, ?_⟩
    rw [hlist, htext]
    simp [Blanks.append, ParamsText.text]

/-! ## §6 What is accepted -/

/-- Whatever is laid out as a subsignature is read as one. -/
theorem parse_of_text {s : String} (l : Layout) (hl : l.text = s.toList) : parse s = .ok l.value := by
  -- no parameter is found to be malformed
  have hparams : (l.types.map TypeText.text).find? (fun param => !isTypeName param) = none := by
    apply List.find?_eq_none.2
    intro param hparam
    obtain ⟨t, _, rfl⟩ := List.mem_map.1 hparam
    simp [isTypeName_iff.2 ⟨t, rfl⟩]
  rw [parse, ← hl, l.parts?_text]
  simp only [l.candidates_inside, hparams]
  simp [Layout.value]

/-- Whatever is read as a subsignature is laid out as one. -/
theorem exists_layout_of_parse {s : String} {v : Subsignature} (h : parse s = .ok v) :
    ∃ l : Layout, l.text = s.toList := by
  unfold parse at h
  split at h
  · simp at h
  · rename_i parts hparts
    dsimp only at h
    split at h
    · simp at h
    · rename_i hfind
      obtain ⟨d, htext, rfl⟩ := exists_division_of_parts? hparts
      have htypes : ∀ param ∈ candidates d.inside.1, isTypeName param = true := by
        intro param hparam
        simpa using List.find?_eq_none.1 hfind param hparam
      obtain ⟨afterOpen, params, hlist⟩ := exists_inside htypes
      refine ⟨⟨d.lead, d.returnType, d.gap, d.name, d.beforeOpen, afterOpen, params, d.trail⟩, ?_⟩
      rw [← htext, Division.text, hlist]
      rfl

/-! ## §7 Layouts are unique -/

section Unique

variable {x y : List Char}

theorem not_stops_brackets (n : Nat) : ¬Stops isTypeChar (brackets (n + 1) ++ x) := by
  rw [brackets_succ]
  intro h
  exact absurd (h '[' rfl) (by decide)

theorem brackets_unique {n m : Nat} (hx : Stops isTypeChar x) (hy : Stops isTypeChar y)
    (h : brackets n ++ x = brackets m ++ y) : n = m ∧ x = y := by
  induction n generalizing m with
  | zero =>
    cases m with
    | zero => exact ⟨rfl, h⟩
    | succ m =>
      -- one more pair would be a way to go on
      change x = brackets (m + 1) ++ y at h
      exact absurd (h ▸ hx) (not_stops_brackets m)
  | succ n ih =>
    cases m with
    | zero =>
      change brackets (n + 1) ++ x = y at h
      exact absurd (h ▸ hy) (not_stops_brackets n)
    | succ m =>
      rw [brackets_succ, brackets_succ] at h
      obtain ⟨hpairs, hrest⟩ := ih (List.cons.inj (List.cons.inj h).2).2
      exact ⟨congrArg (· + 1) hpairs, hrest⟩

theorem stops_elementChar (hx : Stops isTypeChar x) : Stops isElementChar x := by
  intro c hc
  have htype := hx c hc
  rw [← Bool.not_eq_true] at htype ⊢
  exact fun helement => htype (isTypeChar_of_elementChar helement)

/-- A type name ends where no character of a type follows. -/
theorem TypeText.text_unique {t t' : TypeText} (hx : Stops isTypeChar x) (hy : Stops isTypeChar y)
    (h : t.text ++ x = t'.text ++ y) : t = t' ∧ x = y := by
  simp only [text, List.append_assoc] at h
  obtain ⟨hname, hrest⟩ := run_unique t.name.2.elementChars t'.name.2.elementChars
    (stops_brackets (stops_elementChar hx) _) (stops_brackets (stops_elementChar hy) _) h
  obtain ⟨hpairs, hxy⟩ := brackets_unique hx hy hrest
  exact ⟨TypeText.ext (Subtype.ext hname) hpairs, hxy⟩

/-- After a parameter, no character of a type follows. -/
theorem stops_moreText (more : List NextParam) (trail : Blanks) :
    Stops isTypeChar (moreText more ++ (trail.1 ++ ')' :: x)) := by
  cases more with
  | nil =>
    change Stops isTypeChar (trail.1 ++ ')' :: x)
    refine stops_append (fun c hc => not_typeChar_of_blank (trail.2 c hc)) fun _ => ?_
    exact stops_cons (by decide)
  | cons param rest =>
    rw [moreText_cons_append]
    refine stops_append (fun c hc => not_typeChar_of_blank (param.before.2 c hc)) fun _ => ?_
    exact stops_cons (by decide)

theorem stops_comma (x : List Char) : Stops isBlank (',' :: x) := stops_cons (by decide)

theorem stops_close (x : List Char) : Stops isBlank (')' :: x) := stops_cons (by decide)

/-- The parameters after the first, up to the closing parenthesis, are divided in one way only. -/
theorem moreText_unique {more more' : List NextParam} {trail trail' : Blanks}
    (h : moreText more ++ (trail.1 ++ ')' :: x) = moreText more' ++ (trail'.1 ++ ')' :: y)) :
    more = more' ∧ trail = trail' ∧ x = y := by
  induction more generalizing more' with
  | nil =>
    cases more' with
    | nil =>
      obtain ⟨htrail, hxy⟩ := run_unique trail.2 trail'.2 (stops_close x) (stops_close y) h
      exact ⟨rfl, Subtype.ext htrail, (List.cons.inj hxy).2⟩
    | cons param rest =>
      rw [moreText_cons_append] at h
      obtain ⟨_, hxy⟩ := run_unique trail.2 param.before.2 (stops_close x) (stops_comma _) h
      simp at hxy
  | cons param rest ih =>
    cases more' with
    | nil =>
      rw [moreText_cons_append] at h
      obtain ⟨_, hxy⟩ := run_unique param.before.2 trail'.2 (stops_comma _) (stops_close y) h
      simp at hxy
    | cons param' rest' =>
      rw [moreText_cons_append, moreText_cons_append] at h
      obtain ⟨hbefore, hafter⟩ := run_unique param.before.2 param'.before.2 (stops_comma _)
        (stops_comma _) h
      obtain ⟨hafter, htype⟩ := run_unique param.after.2 param'.after.2 (param.type.stops_blank _)
        (param'.type.stops_blank _) (List.cons.inj hafter).2
      obtain ⟨htype, hrest⟩ := TypeText.text_unique (stops_moreText rest trail)
        (stops_moreText rest' trail') htype
      obtain ⟨hrest, htrail, hxy⟩ := ih hrest
      exact ⟨by rw [NextParam.ext (Subtype.ext hbefore) (Subtype.ext hafter) htype, hrest], htrail, hxy⟩

end Unique

/-- What stands between the parentheses is divided in one way only. -/
theorem Layout.inside_unique {l l' : Layout} {x y : List Char}
    (h : l.inside ++ ')' :: x = l'.inside ++ ')' :: y) :
    l.afterOpen = l'.afterOpen ∧ l.params = l'.params ∧ x = y := by
  -- a type name does not start with a parenthesis
  have hapart : ∀ (t : TypeText) (x y : List Char), ')' :: y ≠ t.text ++ x := by
    intro t x y heq
    cases htext : t.text with
    | nil => exact t.ne_nil htext
    | cons c rest =>
      rw [htext] at heq
      have hc : isTypeChar c = true := t.typeChars c (htext ▸ List.mem_cons_self)
      rw [← (List.cons.inj heq).1] at hc
      exact absurd hc (by decide)
  cases hparams : l.params with
  | none =>
    cases hparams' : l'.params with
    | none =>
      simp only [inside, hparams, hparams', List.append_nil] at h
      obtain ⟨hafter, hxy⟩ := run_unique l.afterOpen.2 l'.afterOpen.2 (stops_close x) (stops_close y) h
      exact ⟨Subtype.ext hafter, rfl, (List.cons.inj hxy).2⟩
    | some ps' =>
      simp only [inside, hparams, hparams', ParamsText.text, List.append_nil, List.append_assoc] at h
      obtain ⟨_, hxy⟩ := run_unique l.afterOpen.2 l'.afterOpen.2 (stops_close x) (ps'.first.stops_blank _) h
      exact absurd hxy (hapart _ _ _)
  | some ps =>
    cases hparams' : l'.params with
    | none =>
      simp only [inside, hparams, hparams', ParamsText.text, List.append_nil, List.append_assoc] at h
      obtain ⟨_, hxy⟩ := run_unique l.afterOpen.2 l'.afterOpen.2 (ps.first.stops_blank _) (stops_close y) h
      exact absurd hxy.symm (hapart _ _ _)
    | some ps' =>
      simp only [inside, hparams, hparams', ParamsText.text, List.append_assoc] at h
      obtain ⟨hafter, h⟩ := run_unique l.afterOpen.2 l'.afterOpen.2 (ps.first.stops_blank _)
        (ps'.first.stops_blank _) h
      obtain ⟨hfirst, h⟩ := TypeText.text_unique (stops_moreText ps.more ps.trail)
        (stops_moreText ps'.more ps'.trail) h
      obtain ⟨hmore, htrail, hxy⟩ := moreText_unique h
      exact ⟨Subtype.ext hafter, congrArg some (ParamsText.ext hfirst hmore htrail), hxy⟩

/-- **A subsignature is laid out in one way only.** -/
theorem Layout.text_injective {l l' : Layout} (h : l.text = l'.text) : l = l' := by
  have hdivision : l.division = l'.division := Division.text_injective h
  have hinside : l.inside = l'.inside := congrArg (fun d => d.inside.1) hdivision
  obtain ⟨hafter, hparams, _⟩ := inside_unique (congrArg (· ++ [')']) hinside)
  exact Layout.ext (congrArg Division.lead hdivision) (congrArg Division.returnType hdivision)
    (congrArg Division.gap hdivision) (congrArg Division.name hdivision)
    (congrArg Division.beforeOpen hdivision) hafter hparams (congrArg Division.trail hdivision)

/-! ## §8 The grammar -/

/-- **The parser accepts exactly its grammar.** A text is read as a subsignature precisely if it can be
    laid out as one, and then it can be laid out in one way only. What is read is the return type, the
    name and the parameter types of the layout. -/
theorem parse_exact (s : String) :
    ((∃ v, parse s = .ok v) ↔ ∃! l : Layout, l.text = s.toList) ∧
      ∀ l : Layout, l.text = s.toList → parse s = .ok l.value := by
  have hvalue : ∀ l : Layout, l.text = s.toList → parse s = .ok l.value := fun l => parse_of_text l
  refine ⟨⟨?_, ?_⟩, hvalue⟩
  · rintro ⟨v, hv⟩
    obtain ⟨l, hl⟩ := exists_layout_of_parse hv
    exact ⟨l, hl, fun l' hl' => Layout.text_injective (hl'.trans hl.symm)⟩
  · rintro ⟨l, hl, _⟩
    exact ⟨l.value, hvalue l hl⟩

/-- A subsignature with blanks wherever they may stand. -/
def spacious : Layout where
  lead := ⟨[' '], List.all_eq_true.1 (by decide)⟩
  returnType := ⟨"java.lang.Object[]".toList, by decide⟩
  gap := ⟨⟨[' ', '\t'], List.all_eq_true.1 (by decide)⟩, by decide⟩
  name := ⟨"<init>".toList, by decide⟩
  beforeOpen := ⟨[' '], List.all_eq_true.1 (by decide)⟩
  afterOpen := ⟨['\n'], List.all_eq_true.1 (by decide)⟩
  params := some
    { first := ⟨⟨"größe".toList, by decide⟩, 2⟩
      more := [⟨⟨[' '], List.all_eq_true.1 (by decide)⟩, ⟨[], by simp⟩, ⟨⟨"A$B".toList, by decide⟩, 0⟩⟩]
      trail := ⟨[' ', ' '], List.all_eq_true.1 (by decide)⟩ }
  trail := ⟨['\n'], List.all_eq_true.1 (by decide)⟩

theorem parse_exact_spacious :
    spacious.text = " java.lang.Object[] \t<init> (\ngröße[][] ,A$B  )\n".toList ∧
      parse " java.lang.Object[] \t<init> (\ngröße[][] ,A$B  )\n" =
        .ok ⟨"java.lang.Object[]", "<init>", ["größe[][]", "A$B"]⟩ := by
  have htext : spacious.text =
      " java.lang.Object[] \t<init> (\ngröße[][] ,A$B  )\n".toList := by decide
  exact ⟨htext, (parse_exact _).2 spacious htext⟩

end PointsTo.Subsignature
