/-!
# SearchQuery.Json.Basic

JSON documents, the form in which filters, aggregations and settings leave and enter the library. The
members of an object keep the order in which they are given.
-/

namespace SearchQuery

inductive Json where
  | null
  | bool (b : Bool)
  | int (n : Int)
  | float (x : Float)
  | str (s : String)
  | arr (items : List Json)
  | obj (members : List (String × Json))
  deriving Inhabited

namespace Json

def ofOption : Option String → Json
  | none => .null
  | some s => .str s

/-- A member that is left out when it has no value. -/
def optional (name : String) : Option String → List (String × Json)
  | none => []
  | some s => [(name, .str s)]

end Json
end SearchQuery
