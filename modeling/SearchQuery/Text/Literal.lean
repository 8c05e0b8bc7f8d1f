import SearchQuery.Text.Invisible

/-!
# SearchQuery.Text.Literal

Texts as they are shown in reports: in double quotes, with a name for each character that could not
be told apart on the page.
-/

namespace SearchQuery
namespace Text

/-- How a character is written inside a literal. A character without a short name is written by its
number in hexadecimal. -/
def literalChar (c : Char) : String :=
  if c = '\x00' then "\\0"
  else if c = '\t' then "\\t"
  else if c = '\n' then "\\n"
  else if c = '\r' then "\\r"
  else if c = '"' then "\\\""
  else if c = '\\' then "\\\\"
  else if isInvisible c then "\\u\x7b" ++ String.ofList (Nat.toDigits 16 c.toNat) ++ "\x7d"
  else String.singleton c

def literal (s : String) : String :=
  "\"" ++ String.join (s.toList.map literalChar) ++ "\""

/-- A text that may be absent. -/
def optionLiteral : Option String → String
  | none => "None"
  | some s => "Some(" ++ literal s ++ ")"

end Text
end SearchQuery
