import SearchQuery.Filter.Basic
import SearchQuery.Json.Basic

/-!
# SearchQuery.Filter.Json

Filters as JSON documents: an object whose only member is named for the kind of filter. Optional parts
that have no value are left out.
-/

namespace SearchQuery

/-- An object with one member. -/
def Json.tagged (tag : String) (value : Json) : Json :=
  .obj [(tag, value)]

def Bounds.toJson (b : Bounds) : Json :=
  .obj ([("field", .str b.field)] ++ Json.optional "gt" b.gt ++ Json.optional "gte" b.gte ++
    Json.optional "lt" b.lt ++ Json.optional "lte" b.lte)

def Constraint.toJson : Constraint → Json
  | .term field value => .tagged "term" (.obj [("field", .str field), ("value", .str value)])
  | .words query field op =>
    .tagged "query_string" (.obj ([("query", .str query)] ++ Json.optional "default_field" field ++
      [("default_operator", .str op.name)]))
  | .range b => .tagged "range" b.toJson
  | .presence p field => .tagged p.name (.obj [("field", .str field)])
  | .near field latitude longitude distance =>
    .tagged "geo_distance" (.obj
      [("field", .str field), ("latitude", .float latitude), ("longitude", .float longitude),
        ("distance", .str distance)])

namespace Filter

mutual

def toJson : Filter → Json
  | .matchAll => .str "match_all"
  | .leaf c => c.toJson
  | .join op parts => .tagged op.name (.arr (toJsonList parts))
  | .not f => .tagged "not" f.toJson

def toJsonList : List Filter → List Json
  | [] => []
  | f :: fs => f.toJson :: toJsonList fs

end

end Filter
end SearchQuery
