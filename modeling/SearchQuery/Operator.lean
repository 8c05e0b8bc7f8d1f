/-!
# SearchQuery.Operator

The small vocabularies that tokens, clauses and filters share.
-/

namespace SearchQuery

/-- How clauses or filters are joined. -/
inductive Connective where
  | and
  | or
  deriving DecidableEq

/-- The keyword of a connective. -/
def Connective.text : Connective → String
  | .and => "AND"
  | .or => "OR"

/-- The name of a connective in settings and in JSON. -/
def Connective.name : Connective → String
  | .and => "and"
  | .or => "or"

/-- What the sign in front of a clause asks for. -/
inductive Occur where
  | required
  | prohibited
  deriving DecidableEq

def Occur.text : Occur → String
  | .required => "+"
  | .prohibited => "-"

/-- The four ways to write a range with one bound. -/
inductive Comparison where
  | gt
  | ge
  | lt
  | le
  deriving DecidableEq

def Comparison.text : Comparison → String
  | .gt => ">"
  | .ge => ">="
  | .lt => "<"
  | .le => "<="

/-- Whether a field has a value. -/
inductive Presence where
  | present
  | absent
  deriving DecidableEq

/-- The field name under which a query asks for presence. -/
def Presence.keyword : Presence → String
  | .present => "_exists_"
  | .absent => "_missing_"

/-- The name of a presence test in JSON. -/
def Presence.name : Presence → String
  | .present => "exists"
  | .absent => "missing"

end SearchQuery
