import SearchQuery.Aggregation.Basic
import SearchQuery.CompileError
import SearchQuery.Settings

/-!
# SearchQuery.Aggregation.Request

From requests to aggregations. A request is a sequence of clauses `kind:field` or
`kind:(field @option:value ...)`, for instance `terms:(-status @missing:none) min:price`.

* `RequestClause.read`     — the parts of one clause.
* `RequestClause.build`    — its aggregation.
* `Config.aggregate`       — a whole request; one bad clause rejects all of it.
-/

namespace SearchQuery

/-- One clause of a request in its parts. -/
structure RequestClause where
  /-- The clause itself, for messages. -/
  clause : Clause
  kind : AggregationKind
  field : String
  /-- The sign in front of the field, which asks for an order. -/
  occur : Option Occur
  /-- The options as written, without their `@`. -/
  options : List (String × String) := []

namespace RequestClause

/-! ## Reading -/

/-- An option's text, with the sign that was read as a mark. -/
def writtenValue (occur : Option Occur) (text : String) : String :=
  match occur with
  | none => text
  | some o => o.text ++ text

/-- The field and the options among the clauses of a group. `found` is the field seen so far. -/
def readParts (found : Option (String × Option Occur)) (options : List (String × String)) :
    List Clause → Except RequestFault ((String × Option Occur) × List (String × String))
  | [] =>
    match found with
    | none => .error .missingField
    | some field => .ok (field, options)
  | .leaf marks (.term text _) :: rest =>
    match marks.field with
    | none =>
      match found with
      | none => readParts (some (text, marks.occur)) options rest
      | some _ => .error .severalFields
    | some name =>
      match name.toList with
      | '@' :: option =>
        readParts found
          (options ++ [(String.ofList option, writtenValue marks.occur text)]) rest
      | _ => .error .unmarkedOption
  | _ :: _ => .error .notAnOption

def read (clause : Clause) : Except CompileError RequestClause :=
  match clause.marks.field with
  | none => .error (.invalidAggregation clause .noField)
  | some name =>
    match AggregationKind.ofName? name with
    | none => .error (.unsupportedAggregation name)
    | some kind =>
      match clause with
      | .leaf marks (.term text _) => .ok { clause, kind, field := text, occur := marks.occur }
      | .group _ _ _ children =>
        match readParts none [] children with
        | .error fault => .error (.invalidAggregation clause fault)
        | .ok ((field, occur), options) => .ok { clause, kind, field, occur, options }
      | _ => .error (.invalidAggregation clause .noField)

/-! ## Building -/

/-- Of several options of one name the last counts. -/
def option? (r : RequestClause) (name : String) : Option String :=
  r.options.reverse.lookup name

def name (r : RequestClause) : String :=
  r.kind.name ++ "_" ++ r.field

/-- An aggregation over the values of a field. -/
def onField (r : RequestClause) (field : String) (options : Options) : Aggregation :=
  { name := r.name, kind := r.kind, source := .field field, options }

/-- A number computed from a field, which may have a value for documents without it. -/
def metric (r : RequestClause) : Aggregation :=
  match r.option? "default" with
  | none => r.onField r.field {}
  | some default =>
    { name := r.name, kind := r.kind, source := .fallback r.field (Value.read default) }

def percentiles (r : RequestClause) : Aggregation :=
  r.onField r.field (({} : Options).insertText "percents" (r.option? "percents"))

def date (r : RequestClause) : Aggregation :=
  r.onField r.field
    (((({} : Options).insert "interval" (.text ((r.option? "interval").getD "1d"))).insert "format"
      (.text "date_optional_time")).insertText "missing" (r.option? "missing"))

/-- An order, and the field it goes by. Documents are then not counted under the key `1` unless the
request says which keys to leave out. -/
def orderOptions (o : Options) (exact : String) : Option Occur → Options
  | none => o
  | some occur =>
    let ordered :=
      (o.insert "order" (.text (match occur with
        | .prohibited => "desc"
        | .required => "asc"))).insert "order_by" (.text exact)
    match o.get? "exclude" with
    | none => ordered.insert "exclude" (.text "1")
    | some _ => ordered

/-- The smallest count of a listed term. -/
def minimum? (r : RequestClause) : Except RequestFault (Option Int) :=
  match r.option? "min" with
  | none => .ok none
  | some text =>
    match (Value.read text).toInt? with
    | none => .error (.badMinimum text)
    | some n => .ok (some n)

def terms (r : RequestClause) (schema : Schema) : Except RequestFault Aggregation :=
  match r.minimum? with
  | .error fault => .error fault
  | .ok minimum =>
    let exact := schema.wholeField r.field
    let texts := ["include", "exclude", "missing"].foldl
      (fun (o : Options) name => o.insertText name (r.option? name)) {}
    let counted :=
      match minimum with
      | none => texts
      | some n => texts.insert "min_doc_count" (.int n)
    .ok (r.onField exact (orderOptions counted exact r.occur))

/-- How fine a grid is, from one to twelve. -/
def precision? (r : RequestClause) : Except RequestFault Int :=
  match r.option? "precision" with
  | none => .ok 1
  | some text =>
    match (Value.read text).toInt? with
    | none => .error (.badPrecision text)
    | some n => if 1 ≤ n ∧ n ≤ 12 then .ok n else .error (.badPrecision text)

/-- The mean of one coordinate over a cell of a grid. -/
def mean (name field coordinate : String) : Aggregation :=
  { name, kind := .avg, source := .script (Source.docText field ++ "." ++ coordinate) }

def geogrid (r : RequestClause) (schema : Schema) : Except RequestFault Aggregation :=
  if schema.fieldType r.field = some .geoPoint then
    match r.precision? with
    | .error fault => .error fault
    | .ok precision =>
      .ok
        { r.onField r.field (({} : Options).insert "precision" (.int precision)) with
          children := [mean "avg_lat" r.field "lat", mean "avg_lon" r.field "lon"] }
  else .error (.notGeoPoint r.field)

def buildKind (r : RequestClause) (schema : Schema) : Except RequestFault Aggregation :=
  match r.kind with
  | .min | .max | .avg | .sum | .cardinality => .ok r.metric
  | .percentiles => .ok r.percentiles
  | .missing => .ok (r.onField (schema.wholeField r.field) {})
  | .terms => r.terms schema
  | .date => .ok r.date
  | .geogrid => r.geogrid schema

/-- The first option that the kind does not take. -/
def unknownOption? (r : RequestClause) : Option String :=
  (r.options.find? fun (name, _) => !r.kind.options.contains name).map Prod.fst

def buildChecked (r : RequestClause) (schema : Schema) : Except RequestFault Aggregation :=
  match r.unknownOption? with
  | some name => .error (.unknownOption name r.kind)
  | none =>
    if r.occur.isSome ∧ r.kind ≠ .terms then .error .misplacedOrder else r.buildKind schema

def build (r : RequestClause) (schema : Schema) : Except CompileError Aggregation :=
  (r.buildChecked schema).mapError (.invalidAggregation r.clause)

end RequestClause

/-! ## Requests -/

/-- The aggregation of one clause. -/
def Schema.aggregation (schema : Schema) (clause : Clause) : Except CompileError Aggregation :=
  match RequestClause.read clause with
  | .error e => .error e
  | .ok r => r.build schema

def Schema.aggregations (schema : Schema) (root : Group) : Except CompileError (List Aggregation) :=
  if root.op.isSome then .error (.invalidAggregation root.toClause .booleanOperator)
  else root.children.mapM schema.aggregation

/-- The aggregations of a request that has been read. -/
def Config.aggregate (config : Config) (root : Group) : Traced CompileError (List Aggregation) :=
  match config.schema.aggregations root with
  | .ok aggregations =>
    ⟨[.compiledAggregations aggregations.length], .ok aggregations⟩
  | .error e => ⟨[.rejectedRequest e.message], .error e⟩

end SearchQuery
