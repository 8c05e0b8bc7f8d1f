import SearchQuery.Json.Basic
import SearchQuery.Number.Decimal
import SearchQuery.Text.Quoted

/-!
# SearchQuery.Value

Values of aggregation options. An option is written as plain text; `Value.read` decides what it
denotes, and every text denotes something.
-/

namespace SearchQuery

open Number

inductive Value where
  | null
  | bool (b : Bool)
  | int (n : Int)
  | decimal (d : Decimal)
  | text (s : String)
  deriving DecidableEq

namespace Value

/-- A number padded with zeros, such as `007`, is a name and not a number. -/
def isZeroPadded (cs : List Char) : Bool :=
  match (splitSign cs).2 with
  | '0' :: c :: _ => c.isDigit
  | _ => false

def read (s : String) : Value :=
  let cs := s.toList
  if s = "true" then .bool true
  else if s = "false" then .bool false
  else if s = "null" then .null
  else if isZeroPadded cs then .text s
  else
    match readInt64? cs with
    | some n => .int n
    | none =>
      match Decimal.read? cs with
      | some d => .decimal d
      | none => .text s

def display : Value → String
  | .null => "null"
  | .bool true => "true"
  | .bool false => "false"
  | .int n => toString n
  | .decimal d => d.text
  | .text s => s

/-- The value as an integer of at most 64 bits. -/
def toInt? : Value → Option Int
  | .int n => some n
  | .decimal d => d.toInt?.filter fitsInt64
  | _ => none

def toText? : Value → Option String
  | .text s => some s
  | _ => none

/-- The value as a literal of the script language: texts stand in single quotes. -/
def scriptLiteral : Value → String
  | .text s => Text.quote '\'' (fun c => c = '\\' || c = '\'') s
  | v => v.display

def toJson : Value → Json
  | .null => .null
  | .bool b => .bool b
  | .int n => .int n
  | .decimal d => .float d.toFloat
  | .text s => .str s

end Value
end SearchQuery
