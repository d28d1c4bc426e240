import PointsTo.Ascending
import PointsTo.Text.Inspect

/-!
# Method subsignatures

A subsignature is what identifies a method inside its class: the return type, the name and the
parameter types, all of them names. Method lookup compares subsignatures for equality.

- `Subsignature.render` writes one as `void foo(A,int[])`.
- Listings order subsignatures by return type, then name, then parameters, each text by its code
  points.
-/

namespace PointsTo

/-- The return type, name and parameter types of a method. -/
structure Subsignature where
  /-- The name of the return type. -/
  returnType : String
  /-- The name of the method. -/
  name : String
  /-- The names of the parameter types. -/
  params : List String
deriving DecidableEq

namespace Subsignature

/-- The number of parameters. -/
def paramCount (s : Subsignature) : Nat := s.params.length

/-- The written form, with one blank after the return type and none elsewhere. -/
def render (s : Subsignature) : String :=
  s.returnType ++ " " ++ s.name ++ "(" ++ ",".intercalate s.params ++ ")"

instance : Inspect Subsignature where
  inspect s := Text.labelled "Subsignature"
    [("return_type", inspect s.returnType), ("name", inspect s.name), ("params", inspect s.params)]

/-! ## §1 Order

A text is ranked by its code points, each raised by one, and a closing zero. The zero makes a text
rank below its continuations and marks where the next text starts. -/

/-- The rank of one text. -/
def textRank (s : String) : List Nat :=
  s.toList.map (fun c => c.toNat + 1) ++ [0]

/-- A rank can be read off the front of a sequence of ranks. -/
private theorem textRank_append_inj {s t : String} {x y : List Nat}
    (h : textRank s ++ x = textRank t ++ y) : s = t ∧ x = y := by
  have key : ∀ (l m : List Char),
      l.map (fun c => c.toNat + 1) ++ [0] ++ x = m.map (fun c => c.toNat + 1) ++ [0] ++ y →
      l = m ∧ x = y := by
    intro l
    induction l with
    | nil =>
      intro m hm
      cases m with
      | nil => simpa using hm
      | cons d rest => simp at hm
    | cons c rest ih =>
      intro m hm
      cases m with
      | nil => simp at hm
      | cons d tail =>
        simp only [List.map_cons, List.cons_append, List.cons.injEq, Nat.add_right_cancel_iff] at hm
        obtain ⟨hrest, hxy⟩ := ih tail hm.2
        exact ⟨by rw [Char.toNat_inj.1 hm.1, hrest], hxy⟩
  obtain ⟨hl, hxy⟩ := key s.toList t.toList h
  exact ⟨String.toList_inj.1 hl, hxy⟩

private theorem flatMap_textRank_inj {ss ts : List String}
    (h : ss.flatMap textRank = ts.flatMap textRank) : ss = ts := by
  induction ss generalizing ts with
  | nil =>
    cases ts with
    | nil => rfl
    | cons t rest => simp [textRank] at h
  | cons s rest ih =>
    cases ts with
    | nil => simp [textRank] at h
    | cons t tail =>
      rw [List.flatMap_cons, List.flatMap_cons] at h
      obtain ⟨rfl, hrest⟩ := textRank_append_inj h
      rw [ih hrest]

instance : Ranked Subsignature where
  rank s := (s.returnType :: s.name :: s.params).flatMap textRank
  rank_injective {a b} h := by
    cases a; cases b
    simpa using flatMap_textRank_inj h

end Subsignature

end PointsTo
