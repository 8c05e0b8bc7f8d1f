import SearchQuery.Json.Basic
import SearchQuery.Number.Format

/-!
# SearchQuery.Json.Printer

Text of a JSON document.

* `Json.compact` — no blanks at all.
* `Json.pretty`  — one item a line, two spaces for each level.
-/

namespace SearchQuery
namespace Json

open Number

/-- Numbers are written without an exponent from `10 ^ -5` up to, not including, `10 ^ 16`, and a
fraction of zero is kept. JSON has no infinity. -/
def floatFormat : FloatFormat where
  positional := fun top => -5 ≤ top && top ≤ 15
  wholePoint := true
  tie := .even
  infinity := "null"
  notANumber := "null"

/-- A control character without a short name, by its number in four hexadecimal digits. -/
def controlEscape (c : Char) : String :=
  let digits := Nat.toDigits 16 c.toNat
  "\\u" ++ String.ofList (List.replicate (4 - digits.length) '0' ++ digits)

def escapeChar (c : Char) : String :=
  if c = '"' then "\\\""
  else if c = '\\' then "\\\\"
  else if c = '\x08' then "\\b"
  else if c = '\x0c' then "\\f"
  else if c = '\n' then "\\n"
  else if c = '\r' then "\\r"
  else if c = '\t' then "\\t"
  else if c.toNat < 0x20 then controlEscape c
  else String.singleton c

def quoted (s : String) : String :=
  "\"" ++ String.join (s.toList.map escapeChar) ++ "\""

mutual

def compact : Json → String
  | .null => "null"
  | .bool true => "true"
  | .bool false => "false"
  | .int n => toString n
  | .float x => floatFormat.text x
  | .str s => quoted s
  | .arr items => "[" ++ compactItems items ++ "]"
  | .obj members => "\x7b" ++ compactMembers members ++ "\x7d"

def compactItems : List Json → String
  | [] => ""
  | [item] => item.compact
  | item :: items => item.compact ++ "," ++ compactItems items

def compactMembers : List (String × Json) → String
  | [] => ""
  | [(name, value)] => quoted name ++ ":" ++ value.compact
  | (name, value) :: members => quoted name ++ ":" ++ value.compact ++ "," ++ compactMembers members

end

/-- A line break and the indentation of a level. -/
def newline (level : Nat) : String :=
  "\n" ++ String.ofList (List.replicate (2 * level) ' ')

mutual

/-- The text of a document that stands at `level`. -/
def prettyAt (level : Nat) : Json → String
  | .arr [] => "[]"
  | .arr items => "[" ++ prettyItems (level + 1) items ++ newline level ++ "]"
  | .obj [] => "\x7b\x7d"
  | .obj members => "\x7b" ++ prettyMembers (level + 1) members ++ newline level ++ "\x7d"
  | j => j.compact

def prettyItems (level : Nat) : List Json → String
  | [] => ""
  | [item] => newline level ++ item.prettyAt level
  | item :: items => newline level ++ item.prettyAt level ++ "," ++ prettyItems level items

def prettyMembers (level : Nat) : List (String × Json) → String
  | [] => ""
  | [(name, value)] => newline level ++ quoted name ++ ": " ++ value.prettyAt level
  | (name, value) :: members =>
    newline level ++ quoted name ++ ": " ++ value.prettyAt level ++ "," ++ prettyMembers level members

end

def pretty (j : Json) : String :=
  j.prettyAt 0

end Json
end SearchQuery
