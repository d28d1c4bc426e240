import PointsTo.Text.Ranges

/-!
# Blank characters

The characters that separate the parts of a method subsignature: those with the `White_Space`
property, which are the ASCII blanks, the next-line control, the no-break space and the spacing
characters of general punctuation. A zero-width space is not blank.
-/

namespace PointsTo.Text

/-- Code points with the `White_Space` property. -/
def blankRanges : Ranges :=
  [(0x09, 0x0D), (0x20, 0x20), (0x85, 0x85), (0xA0, 0xA0), (0x1680, 0x1680), (0x2000, 0x200A),
   (0x2028, 0x2029), (0x202F, 0x202F), (0x205F, 0x205F), (0x3000, 0x3000)]

/-- The table of blanks is ascending, so `Ranges.covers_iff` applies to it. -/
theorem blankRanges_ascending : blankRanges.ascendingFrom 0 = true := by decide

/-- Whether a character is blank. -/
def isBlank (c : Char) : Bool :=
  blankRanges.covers c.toNat

/-- The text without its leading and trailing blanks. -/
def trimBlanks (cs : List Char) : List Char :=
  ((cs.dropWhile isBlank).reverse.dropWhile isBlank).reverse

end PointsTo.Text
