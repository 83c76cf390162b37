import RelationSearch.Text.Plain

/-!
# Quoted text

The image of a string: the text between double quotes, with a backslash before a quote or a
backslash, short escapes for tab, carriage return, line feed and NUL, and the code point in
hexadecimal for every other character that does not stand for itself. A single quote is not escaped.
-/
namespace RelationSearch.Text

/-- The escape that shows a character by its code point. -/
def codeEscape (c : Char) : String :=
  "\\u\x7b" ++ String.ofList (Nat.toDigits 16 c.toNat) ++ "\x7d"

/-- How one character is written between the quotes. -/
def escapeChar (c : Char) : String :=
  if c = '"' then "\\\""
  else if c = '\\' then "\\\\"
  else if c = '\t' then "\\t"
  else if c = '\r' then "\\r"
  else if c = '\n' then "\\n"
  else if c.toNat = 0 then "\\0"
  else if isPlain c then c.toString
  else codeEscape c

/-- A text in double quotes, escaped. -/
def quoted (text : String) : String :=
  "\"" ++ String.join (text.toList.map escapeChar) ++ "\""

end RelationSearch.Text
