import LineScript.Text.Hidden
/-!
# Quoted text

The spelling of a text between double quotes: a backslash stands before a quote, a backslash and the
usual control characters, and a character without a glyph of its own is given by its code point.
-/

namespace LineScript.Text

/-- One character of a quoted text; `quotes` are the quotation marks that take a backslash. -/
def spelled (quotes : List Char) (c : Char) : String :=
  if c = '\x00' then "\\0"
  else if c = '\t' then "\\t"
  else if c = '\r' then "\\r"
  else if c = '\n' then "\\n"
  else if c = '\\' then "\\\\"
  else if quotes.contains c then "\\" ++ c.toString
  else if isHidden c then "\\u\x7b" ++ String.ofList (Nat.toDigits 16 c.toNat) ++ "\x7d"
  else c.toString

/-- A character shown on its own, in which either quotation mark takes a backslash. -/
def shown (c : Char) : String :=
  spelled ['"', '\''] c

def quoted (text : String) : String :=
  "\"" ++ String.join (text.toList.map (spelled ['"'])) ++ "\""

end LineScript.Text
