import ExactCover.Text.Printable

/-!
# Quoted characters and texts

A label in a message stands between quotes, so that a reader sees where it begins and ends. Inside
the quotes every character is written on its own (`escape`), so two texts that differ are never
written the same way: the quote in use, the backslash and the four usual controls get a backslash,
what would not show or would melt into its neighbor is written by its number, and all other
characters stand for themselves.
-/

set_option autoImplicit false

namespace ExactCover.Text

/-- The digits of a number in base sixteen, in lower case and without leading zeros. -/
def hexDigits (n : Nat) : String := String.ofList (Nat.toDigits 16 n)

/-- How a character is written between two of the given quotes. -/
def escape (quote c : Char) : String :=
  if c = '\x00' then "\\0"
  else if c = '\t' then "\\t"
  else if c = '\r' then "\\r"
  else if c = '\n' then "\\n"
  else if c = '\\' then "\\\\"
  else if c = quote then String.ofList ['\\', c]
  else if isExtender c || !isPrintable c then "\\u\x7b" ++ hexDigits c.toNat ++ "\x7d"
  else c.toString

/-- A character between single quotes. -/
def quoteChar (c : Char) : String := "'" ++ escape '\'' c ++ "'"

/-- A text between double quotes. -/
def quoteString (s : String) : String := "\"" ++ String.join (s.toList.map (escape '"')) ++ "\""

end ExactCover.Text
