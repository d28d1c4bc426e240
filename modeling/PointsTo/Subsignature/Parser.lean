import PointsTo.Subsignature.Basic
import PointsTo.Text.Blank
import PointsTo.Text.Word

/-!
# Reading subsignatures

The written form is a return type, blanks, a method name and a parenthesised parameter list, with
blanks allowed around every part. Word characters of any script may stand in names, together with
`$`, `<` and `>`; types also contain dots, and a type may end in pairs of square brackets.

No character that ends a part can also belong to it, so each part is the longest run of its
characters and nothing is ever reconsidered. What is found in this way is what the patterns of a
subsignature find: see `Subsignature.reads_iff`.

- `Subsignature.parse` reads a text.
- `Subsignature.ParseError.message` is the wording of the two ways in which that fails.
-/

namespace PointsTo.Subsignature

open Text (isBlank isWord trimBlanks quote)

/-! ## §1 Characters -/

/-- Characters of a method name. -/
def isNameChar (c : Char) : Bool :=
  isWord c || c == '$' || c == '<' || c == '>'

/-- Characters of a type name without its brackets. -/
def isElementChar (c : Char) : Bool :=
  isNameChar c || c == '.'

/-- Characters of a type name with its brackets. -/
def isTypeChar (c : Char) : Bool :=
  isElementChar c || c == '[' || c == ']'

/-- Characters of a parameter list. -/
def isListChar (c : Char) : Bool :=
  isTypeChar c || c == ',' || isBlank c

/-! ## §2 Parts -/

/-- The parts of a written subsignature before its parameter list is taken apart. -/
structure Parts where
  /-- The return type. -/
  returnType : List Char
  /-- The method name. -/
  name : List Char
  /-- What stands between the parentheses. -/
  list : List Char

/-- Splits a written subsignature into its parts. -/
def parts? (cs : List Char) : Option Parts :=
  let cs := cs.dropWhile isBlank
  let returnType := cs.takeWhile isTypeChar
  let afterType := cs.dropWhile isTypeChar
  let gap := afterType.takeWhile isBlank
  let cs := afterType.dropWhile isBlank
  let name := cs.takeWhile isNameChar
  match (cs.dropWhile isNameChar).dropWhile isBlank with
  | '(' :: inside =>
    match inside.dropWhile isListChar with
    | ')' :: rest =>
      if returnType.isEmpty || gap.isEmpty || name.isEmpty || !rest.all isBlank then none
      else some ⟨returnType, name, inside.takeWhile isListChar⟩
    | _ => none
  | _ => none

/-- The pieces of a text between commas, one more than there are commas. -/
def splitCommas : List Char → List (List Char)
  | [] => [[]]
  | c :: rest =>
    if c = ',' then [] :: splitCommas rest
    else
      match splitCommas rest with
      | [] => [[c]]
      | piece :: pieces => (c :: piece) :: pieces

/-- Any number of bracket pairs. -/
def isBracketPairs : List Char → Bool
  | [] => true
  | '[' :: ']' :: rest => isBracketPairs rest
  | _ => false

/-- A type name: element characters, at least one, then bracket pairs. -/
def isTypeName (cs : List Char) : Bool :=
  !(cs.takeWhile isElementChar).isEmpty && isBracketPairs (cs.dropWhile isElementChar)

/-- The candidate parameter types of a parameter list; a blank list has none. -/
def candidates (list : List Char) : List (List Char) :=
  let list := trimBlanks list
  if list.isEmpty then [] else (splitCommas list).map trimBlanks

/-! ## §3 Reading -/

/-- Why a text is not a subsignature. -/
inductive ParseError
  /-- The text does not have the parts of a subsignature. -/
  | malformed (text : String)
  /-- A parameter is not a type name. -/
  | malformedParameter (param text : String)
deriving DecidableEq

/-- The wording of a parse failure. -/
def ParseError.message : ParseError → String
  | malformed text => "malformed method subsignature: " ++ quote text
  | malformedParameter param text =>
    "malformed parameter type " ++ quote param ++ " in subsignature " ++ quote text

/-- Reads a written subsignature. -/
def parse (text : String) : Except ParseError Subsignature :=
  match parts? text.toList with
  | none => .error (.malformed text)
  | some parts =>
    let params := candidates parts.list
    match params.find? (fun param => !isTypeName param) with
    | some param => .error (.malformedParameter (String.ofList param) text)
    | none =>
      .ok
        { returnType := String.ofList parts.returnType
          name := String.ofList parts.name
          params := params.map String.ofList }

end PointsTo.Subsignature
