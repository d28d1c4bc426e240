import PointsTo.Text.Quoted

/-!
# Constructor form

Diagnostics that point at a statement or at a location of the analysed program show it in
constructor form: the constructor's name followed by its components. `Inspect` is the class of
values that can be shown so.
-/

namespace PointsTo

open Text (openBrace closeBrace quote)

/-- Values with a constructor form. -/
class Inspect (α : Type) where
  /-- The constructor form of a value. -/
  inspect : α → String

export Inspect (inspect)

namespace Text

/-- Constructor form with positional components: `Name(a, b)`. -/
def applied (name : String) (components : List String) : String :=
  name ++ "(" ++ ", ".intercalate components ++ ")"

/-- Constructor form with named components: the name, then `label: component` pairs in braces. -/
def labelled (name : String) (components : List (String × String)) : String :=
  name ++ " " ++ openBrace ++ " "
    ++ ", ".intercalate (components.map fun (label, text) => label ++ ": " ++ text)
    ++ " " ++ closeBrace

end Text

instance : Inspect String where
  inspect := quote

instance {α : Type} [Inspect α] : Inspect (Option α) where
  inspect
    | none => "None"
    | some a => Text.applied "Some" [inspect a]

instance {α : Type} [Inspect α] : Inspect (List α) where
  inspect as := "[" ++ ", ".intercalate (as.map inspect) ++ "]"

end PointsTo
