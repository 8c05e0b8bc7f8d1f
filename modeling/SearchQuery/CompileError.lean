import SearchQuery.Aggregation.Kind
import SearchQuery.Clause.Printer
import SearchQuery.Expander

/-!
# SearchQuery.CompileError

Why a clause tree has no filter, or a request no aggregations.
-/

namespace SearchQuery

/-- What is wrong with a clause of an aggregation request. -/
inductive RequestFault where
  | booleanOperator
  | noField
  | severalFields
  | unmarkedOption
  | notAnOption
  | missingField
  | unknownOption (name : String) (kind : AggregationKind)
  | misplacedOrder
  | badMinimum (found : String)
  | notGeoPoint (field : String)
  | badPrecision (found : String)

def RequestFault.message : RequestFault → String
  | .booleanOperator => "aggregations are separated by spaces, not boolean operators"
  | .noField => "expected kind:field"
  | .severalFields => "more than one field"
  | .unmarkedOption => "options must start with '@'"
  | .notAnOption => "expected field and @options"
  | .missingField => "missing field"
  | .unknownOption name kind => "unknown option '@" ++ name ++ "' for " ++ kind.name
  | .misplacedOrder => "ordering prefix is only supported by terms"
  | .badMinimum found => "@min expects an integer, found '" ++ found ++ "'"
  | .notGeoPoint field => "field '" ++ field ++ "' is not a geo point"
  | .badPrecision found => "@precision expects 1 to 12, found '" ++ found ++ "'"

inductive CompileError where
  | tooDeep (limit : Nat)
  | unsupportedAggregation (name : String)
  | invalidAggregation (clause : Clause) (fault : RequestFault)
  | expansion (error : ExpansionError)

def CompileError.message : CompileError → String
  | .tooDeep limit => "Groups nested deeper than " ++ toString limit ++ " levels"
  | .unsupportedAggregation name => "Unsupported aggregation '" ++ name ++ "'"
  | .invalidAggregation clause fault =>
    "Invalid aggregation '" ++ clause.text ++ "': " ++ fault.message
  | .expansion e => e.message

end SearchQuery
