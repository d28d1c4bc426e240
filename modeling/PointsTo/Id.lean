import PointsTo.Ranked
import PointsTo.Text.Inspect

/-!
# Identifiers

Classes, fields, methods, variables, abstract objects and pointers live in tables and are addressed
by their position. An identifier is a position together with the table it points into, so that a
class cannot be mistaken for a field. Whether the table has such an entry is a question for the
table.

Positions are natural numbers, and nothing limits them. Every table is taken to have fewer than
`2 ^ 32` entries: within that limit a position is the same number when it is kept in 32 bits, and
beyond it two entries would share one. No theorem says anything about larger tables kept that way.
-/

namespace PointsTo

/-- The tables an identifier can point into. -/
inductive Table
  | classes
  | fields
  | methods
  | vars
  | objects
  | pointers
deriving DecidableEq

namespace Table

/-- What a diagnostic calls an entry of the table. -/
def noun : Table → String
  | classes => "class"
  | fields => "field"
  | methods => "method"
  | vars => "variable"
  | objects => "object"
  | pointers => "pointer"

/-- What an identifier of the table starts with when it is printed. -/
def tag : Table → String
  | classes => "class#"
  | fields => "field#"
  | methods => "method#"
  | vars => "var#"
  | objects => "obj#"
  | pointers => "pointer#"

/-- The constructor that an identifier of the table is shown with. -/
def constructorName : Table → String
  | classes => "ClassId"
  | fields => "FieldId"
  | methods => "MethodId"
  | vars => "VarId"
  | objects => "ObjId"
  | pointers => "PointerId"

end Table

/-- A position in a table. -/
structure Id (table : Table) where
  /-- The position, counted from zero. -/
  index : Nat
deriving DecidableEq

/-- A class of the analysed program. -/
abbrev ClassId := Id .classes

/-- A field of the analysed program. -/
abbrev FieldId := Id .fields

/-- A method of the analysed program. -/
abbrev MethodId := Id .methods

/-- A local variable of the analysed program. -/
abbrev VarId := Id .vars

/-- An abstract object of the heap. -/
abbrev ObjId := Id .objects

/-- A node of the pointer flow graph. -/
abbrev PointerId := Id .pointers

namespace Id

variable {table : Table}

/-- The printed form: the tag of the table and the position. -/
def label (id : Id table) : String :=
  table.tag ++ toString id.index

/-- The identifiers of the first `n` entries of a table. -/
def below (table : Table) (n : Nat) : List (Id table) :=
  (List.range n).map Id.mk

@[simp]
theorem mem_below {n : Nat} {id : Id table} : id ∈ below table n ↔ id.index < n := by
  cases id
  simp [below]

end Id

instance {table : Table} : Inspect (Id table) where
  inspect id := Text.applied table.constructorName [toString id.index]

instance {table : Table} : Ranked (Id table) where
  rank id := [id.index]
  rank_injective {a b} h := by
    cases a; cases b
    simpa using h

instance {source target : Table} : Ranked (Id source × Id target) where
  rank p := [p.1.index, p.2.index]
  rank_injective {a b} h := by
    obtain ⟨⟨_⟩, ⟨_⟩⟩ := a
    obtain ⟨⟨_⟩, ⟨_⟩⟩ := b
    simpa using h

end PointsTo
