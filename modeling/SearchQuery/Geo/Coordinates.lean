import SearchQuery.Number.Digits
import SearchQuery.Number.Format
import SearchQuery.Text.Blank
import SearchQuery.Text.DecimalDigit

/-!
# SearchQuery.Geo.Coordinates

Places written as text: `51.5, -0.12` or, with a distance, `51.5,-0.12 ~ 5km`.

* `readCoordinates?` — splits a text into its parts; the digits may be of any script.
* `Coordinates.place` — the point and the distance; here only ASCII digits count.
-/

namespace SearchQuery
namespace Geo

inductive GeoError where
  /-- A number that is not written in ASCII digits. -/
  | badNumber (text : String)
  | outOfRange (latitude longitude : Float)
  | notCoordinates (text : String)
  | unknownLocation (location : String)
  | badResolution (location resolved : String)

def GeoError.message : GeoError → String
  | .badNumber text => "invalid coordinate '" ++ text ++ "': invalid float literal"
  | .outOfRange latitude longitude =>
    "coordinate out of range: " ++ Number.plain.text latitude ++ "," ++ Number.plain.text longitude
  | .notCoordinates text => "invalid geo coordinate '" ++ text ++ "'"
  | .unknownLocation location => "unable to resolve location '" ++ location ++ "'"
  | .badResolution location resolved =>
    "location '" ++ location ++ "' resolved to invalid coordinate '" ++ resolved ++ "'"

/-- A number as written. The fraction is empty when there is no point. -/
structure Numeral where
  negative : Bool
  whole : List Char
  fraction : List Char

def Numeral.chars (n : Numeral) : List Char :=
  (if n.negative then ['-'] else []) ++ n.whole ++
    (if n.fraction.isEmpty then [] else '.' :: n.fraction)

def Numeral.text (n : Numeral) : String :=
  String.ofList n.chars

/-- The nearest double; `none` when a digit is not an ASCII one. -/
def Numeral.toFloat? (n : Numeral) : Option Float :=
  let digits := n.whole ++ n.fraction
  if digits.all Char.isDigit then
    let size := Float.ofScientific (Number.ofDigits digits) true n.fraction.length
    some (if n.negative then -size else size)
  else none

inductive LengthUnit where
  | miles
  | kilometres
  | metres
  deriving DecidableEq

def LengthUnit.text : LengthUnit → String
  | .miles => "mi"
  | .kilometres => "km"
  | .metres => "m"

/-- A coordinate text in its parts. -/
structure Coordinates where
  latitude : Numeral
  longitude : Numeral
  distance : Option (Numeral × Option LengthUnit)

/-! ## Reading -/

def skipBlanks (cs : List Char) : List Char :=
  cs.dropWhile Text.isBlank

/-- A run of at least one digit. -/
def readDigits? (cs : List Char) : Option (List Char × List Char) :=
  match cs.takeWhile Text.isDecimalDigit with
  | [] => none
  | digits => some (digits, cs.dropWhile Text.isDecimalDigit)

/-- Digits, and a fraction if a point and digits follow. -/
def readUnsigned? (negative : Bool) (cs : List Char) : Option (Numeral × List Char) :=
  (readDigits? cs).map fun (whole, rest) =>
    match rest with
    | '.' :: tail =>
      match readDigits? tail with
      | some (fraction, tail) => (⟨negative, whole, fraction⟩, tail)
      | none => (⟨negative, whole, []⟩, rest)
    | _ => (⟨negative, whole, []⟩, rest)

def readNumeral? : List Char → Option (Numeral × List Char)
  | '-' :: cs => readUnsigned? true cs
  | cs => readUnsigned? false cs

def readUnit : List Char → Option LengthUnit × List Char
  | 'm' :: 'i' :: cs => (some .miles, cs)
  | 'k' :: 'm' :: cs => (some .kilometres, cs)
  | 'm' :: cs => (some .metres, cs)
  | cs => (none, cs)

/-- What may follow the point: `~`, a number and a unit. -/
def readDistance? : List Char → Option (Option (Numeral × Option LengthUnit) × List Char)
  | '~' :: cs =>
    (readUnsigned? false (skipBlanks cs)).map fun (number, rest) =>
      let (unit, rest) := readUnit (skipBlanks rest)
      (some (number, unit), rest)
  | cs => some (none, cs)

/-- `none` when the text is not of the form. -/
def readCoordinates? (cs : List Char) : Option Coordinates := do
  let (latitude, rest) ← readNumeral? (skipBlanks cs)
  match skipBlanks rest with
  | ',' :: rest =>
    let (longitude, rest) ← readNumeral? (skipBlanks rest)
    let (distance, rest) ← readDistance? (skipBlanks rest)
    if (skipBlanks rest).isEmpty then some { latitude, longitude, distance } else none
  | _ => none

/-! ## Places -/

/-- A point, and how far around it to look if that was written. -/
structure Place where
  latitude : Float
  longitude : Float
  distance : Option String

/-- A distance without a unit is in miles. -/
def distanceText (number : Numeral) (unit : Option LengthUnit) : String :=
  number.text ++ (unit.getD .miles).text

def Coordinates.place (c : Coordinates) : Except GeoError Place :=
  match c.latitude.toFloat? with
  | none => .error (.badNumber c.latitude.text)
  | some latitude =>
    match c.longitude.toFloat? with
    | none => .error (.badNumber c.longitude.text)
    | some longitude =>
      if -90 ≤ latitude ∧ latitude ≤ 90 ∧ -180 ≤ longitude ∧ longitude ≤ 180 then
        .ok
          { latitude, longitude
            distance := c.distance.map fun (number, unit) => distanceText number unit }
      else .error (.outOfRange latitude longitude)

/-- The place that a text names by its coordinates; `none` when it is no coordinate text. -/
def readPlace? (text : String) : Except GeoError (Option Place) :=
  match readCoordinates? text.toList with
  | none => .ok none
  | some c => c.place.map some

end Geo
end SearchQuery
