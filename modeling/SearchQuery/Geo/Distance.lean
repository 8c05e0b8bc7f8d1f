import SearchQuery.Expander
import SearchQuery.Schema

/-!
# SearchQuery.Geo.Distance

The expander that turns a value of a geo point field into a filter by distance. The value is a
coordinate text or, when there is a resolver, the name of a location, after which `~` may give a
distance.
-/

namespace SearchQuery
namespace Geo

structure DistanceRule where
  schema : Schema
  /-- The distance of a value that names none. -/
  defaultDistance : String := "10mi"
  /-- Coordinate texts of named locations. -/
  resolver : Option (String → Option String) := none

/-- Splits at the last `~`. -/
def splitDistance (cs : List Char) : List Char × Option (List Char) :=
  if cs.contains '~' then
    let reversed := cs.reverse
    (((reversed.dropWhile (· ≠ '~')).drop 1).reverse, some (reversed.takeWhile (· ≠ '~')).reverse)
  else (cs, none)

namespace DistanceRule

/-- The place of a location that is known by name. A distance written after the name counts more
than one in the resolved text. -/
def resolveName (resolver : String → Option String) (value : String) : Except GeoError Place :=
  let (name, distance) := splitDistance value.toList
  let location := String.ofList (Text.trim name)
  match resolver location with
  | none => .error (.unknownLocation location)
  | some resolved =>
    match readPlace? resolved with
    | .error e => .error e
    | .ok none => .error (.badResolution location resolved)
    | .ok (some place) =>
      .ok { place with
        distance := (distance.map fun d => String.ofList (Text.trim d)).or place.distance }

def resolve (rule : DistanceRule) (value : String) : Except GeoError Place :=
  match readPlace? value with
  | .error e => .error e
  | .ok (some place) => .ok place
  | .ok none =>
    match rule.resolver with
    | none => .error (.notCoordinates value)
    | some resolver => resolveName resolver value

def expander (rule : DistanceRule) : Expander := fun _ context =>
  match context.filter with
  | .leaf (.term field value) =>
    if rule.schema.fieldType field = some .geoPoint then do
      let place ← Traced.ofExcept ((rule.resolve value).mapError .geo)
      Traced.emit (.placed field place.latitude place.longitude)
      pure { context with
        filter := .leaf (.near field place.latitude place.longitude
          (place.distance.getD rule.defaultDistance)) }
    else pure context
  | _ => pure context

end DistanceRule
end Geo
end SearchQuery
