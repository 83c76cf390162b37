/-!
# JSON text

The compact JSON text of an object whose members are strings.
-/
namespace RelationSearch.Text

/-- How one character is written inside a JSON string. -/
def jsonChar (c : Char) : String :=
  if c = '"' then "\\\""
  else if c = '\\' then "\\\\"
  else if c = '\n' then "\\n"
  else if c = '\r' then "\\r"
  else if c = '\t' then "\\t"
  else if c = '\x08' then "\\b"
  else if c = '\x0c' then "\\f"
  else if c.toNat < 0x20 then
    let digits := String.ofList (Nat.toDigits 16 c.toNat)
    "\\u" ++ String.ofList (List.replicate (4 - digits.length) '0') ++ digits
  else c.toString

/-- A JSON string. -/
def jsonString (text : String) : String :=
  "\"" ++ String.join (text.toList.map jsonChar) ++ "\""

/-- A JSON object with the given members. -/
def jsonObject (members : List (String × String)) : String :=
  "\x7b" ++
    String.intercalate "," (members.map fun (name, text) => jsonString name ++ ":" ++ jsonString text)
    ++ "\x7d"

end RelationSearch.Text
