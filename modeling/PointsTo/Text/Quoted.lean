import PointsTo.Text.Unprintable

/-!
# Quoted text

Diagnostics show a text between double quotes, on one line and with every character visible: the
quote and the backslash get a backslash in front, five controls have a short form, and an
unprintable character is shown by its code point in hexadecimal.
-/

namespace PointsTo.Text

/-- An opening brace, the text that starts a group in rendered output. -/
def openBrace : String := "\x7b"

/-- A closing brace, the text that ends a group in rendered output. -/
def closeBrace : String := "\x7d"

/-- The code point of a character in lower-case hexadecimal, without padding. -/
def hexOf (c : Char) : String :=
  String.ofList (Nat.toDigits 16 c.toNat)

/-- One character as it stands inside quoted text. -/
def quoteChar (c : Char) : String :=
  if c = '"' then "\\\""
  else if c = '\\' then "\\\\"
  else if c = '\n' then "\\n"
  else if c = '\r' then "\\r"
  else if c = '\t' then "\\t"
  else if c.toNat = 0 then "\\0"
  else if isUnprintable c then "\\u" ++ openBrace ++ hexOf c ++ closeBrace
  else c.toString

/-- A text between double quotes with nothing invisible left in it. -/
def quote (s : String) : String :=
  "\"" ++ String.join (s.toList.map quoteChar) ++ "\""

end PointsTo.Text
