import SearchQuery.Aggregation.Kind
import SearchQuery.Filter.Json
import SearchQuery.Value

/-!
# SearchQuery.Aggregation.Basic

Aggregations: what is computed over the documents that pass a filter.
-/

namespace SearchQuery

/-! ## Options -/

/-- Options by name, in the order of their names. -/
structure Options where
  entries : List (String × Value) := []
  deriving DecidableEq

namespace Options

def insertEntry (name : String) (value : Value) : List (String × Value) → List (String × Value)
  | [] => [(name, value)]
  | (n, v) :: rest =>
    if name < n then (name, value) :: (n, v) :: rest
    else if name = n then (name, value) :: rest
    else (n, v) :: insertEntry name value rest

/-- Sets an option, in place of the one of that name if there is one. -/
def insert (o : Options) (name : String) (value : Value) : Options :=
  { entries := insertEntry name value o.entries }

def get? (o : Options) (name : String) : Option Value :=
  o.entries.lookup name

/-- Sets an option when there is a text for it. -/
def insertText (o : Options) (name : String) : Option String → Options
  | none => o
  | some s => o.insert name (.text s)

end Options

/-! ## Sources -/

/-- Where an aggregation takes its values from. -/
inductive Source where
  | field (name : String)
  /-- The field, or `default` for a document without it. -/
  | fallback (name : String) (default : Value)
  | script (code : String)
  deriving DecidableEq

namespace Source

/-- A field's values in the script language. -/
def docText (name : String) : String :=
  "doc['" ++ name ++ "']"

/-- The script of a source that needs one. -/
def script? : Source → Option String
  | .field _ => none
  | .fallback name default =>
    some (docText name ++ ".empty ? " ++ default.scriptLiteral ++ " : " ++ docText name ++ ".value")
  | .script code => some code

def toJson : Source → Json
  | .field name => .tagged "field" (.str name)
  | .fallback name default =>
    .tagged "fallback" (.obj [("field", .str name), ("default", default.toJson)])
  | .script code => .tagged "script" (.str code)

end Source

/-! ## Aggregations -/

structure Aggregation where
  name : String
  kind : AggregationKind
  source : Source
  options : Options := {}
  children : List Aggregation := []

namespace Aggregation

def option? (a : Aggregation) (name : String) : Option Value :=
  a.options.get? name

mutual

/-- Options and children are left out when there are none. -/
def toJson : Aggregation → Json
  | ⟨name, kind, source, options, children⟩ =>
    .obj
      ([("name", .str name), ("kind", .str kind.name), ("source", source.toJson)] ++
        (match options.entries with
          | [] => []
          | entries => [("options", .obj (entries.map fun (n, v) => (n, v.toJson)))]) ++
        (match children with
          | [] => []
          | _ :: _ => [("children", .arr (toJsonList children))]))

def toJsonList : List Aggregation → List Json
  | [] => []
  | a :: as => a.toJson :: toJsonList as

end

end Aggregation
end SearchQuery
