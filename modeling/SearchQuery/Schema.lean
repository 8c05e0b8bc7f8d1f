/-!
# SearchQuery.Schema

What is known about the fields of an index. Compiling asks three questions about a field's full name,
and a `Schema` answers them; a `Catalogue` is a schema written down field by field.
-/

namespace SearchQuery

inductive FieldType where
  | text
  | keyword
  | integer
  | long
  | double
  | date
  | boolean
  | geoPoint
  | object
  deriving DecidableEq

structure Schema where
  /-- Whether the values of a field are split into words when they are stored. -/
  isAnalyzed : String → Bool := fun _ => false
  fieldType : String → Option FieldType := fun _ => none
  /-- The field that holds the same values unsplit. -/
  exactField : String → Option String := fun _ => none

/-- The field to look at for whole values. -/
def Schema.wholeField (s : Schema) (field : String) : String :=
  if s.isAnalyzed field then (s.exactField field).getD field else field

structure FieldInfo where
  type : FieldType
  exact : Option String := none
  deriving DecidableEq

/-- Later entries come first and hide the earlier ones of the same name. -/
structure Catalogue where
  entries : List (String × FieldInfo) := []

namespace Catalogue

def get? (c : Catalogue) (name : String) : Option FieldInfo :=
  c.entries.lookup name

def set (c : Catalogue) (name : String) (info : FieldInfo) : Catalogue :=
  { entries := (name, info) :: c.entries }

/-- Gives a field a type and keeps what else is known about it. -/
def field (c : Catalogue) (name : String) (type : FieldType) : Catalogue :=
  match c.get? name with
  | some info => c.set name { info with type }
  | none => c.set name { type }

/-- A field whose values are split into words. -/
def analyzed (c : Catalogue) (name : String) : Catalogue :=
  c.field name .text

def keywordName (name : String) : String :=
  name ++ ".keyword"

/-- A field with a sibling that holds its values unsplit. A field not known before is a text. -/
def withKeyword (c : Catalogue) (name : String) : Catalogue :=
  let exact := some (keywordName name)
  let marked :=
    match c.get? name with
    | some info => c.set name { info with exact }
    | none => c.set name { type := .text, exact }
  marked.field (keywordName name) .keyword

def fieldType (c : Catalogue) (name : String) : Option FieldType :=
  (c.get? name).map FieldInfo.type

def exactField (c : Catalogue) (name : String) : Option String :=
  (c.get? name).bind FieldInfo.exact

def isAnalyzed (c : Catalogue) (name : String) : Bool :=
  c.fieldType name = some .text

def schema (c : Catalogue) : Schema where
  isAnalyzed := c.isAnalyzed
  fieldType := c.fieldType
  exactField := c.exactField

end Catalogue
end SearchQuery
