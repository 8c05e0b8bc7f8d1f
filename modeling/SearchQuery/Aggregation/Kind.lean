/-!
# SearchQuery.Aggregation.Kind

The kinds of aggregation, the names under which a request asks for them, and the options that each
of them takes.
-/

namespace SearchQuery

inductive AggregationKind where
  | min
  | max
  | avg
  | sum
  | cardinality
  | percentiles
  | missing
  | terms
  | date
  | geogrid
  deriving DecidableEq

namespace AggregationKind

def name : AggregationKind → String
  | .min => "min"
  | .max => "max"
  | .avg => "avg"
  | .sum => "sum"
  | .cardinality => "cardinality"
  | .percentiles => "percentiles"
  | .missing => "missing"
  | .terms => "terms"
  | .date => "date"
  | .geogrid => "geogrid"

def all : List AggregationKind :=
  [.min, .max, .avg, .sum, .cardinality, .percentiles, .missing, .terms, .date, .geogrid]

def ofName? (s : String) : Option AggregationKind :=
  all.find? fun kind => kind.name = s

/-- The names of the options, without the `@` they are written with. -/
def options : AggregationKind → List String
  | .min | .max | .avg | .sum | .cardinality => ["default"]
  | .percentiles => ["percents"]
  | .missing => []
  | .terms => ["include", "exclude", "missing", "min"]
  | .date => ["missing", "interval"]
  | .geogrid => ["precision"]

end AggregationKind
end SearchQuery
