import SearchQuery.Operator

/-!
# SearchQuery.Filter.Basic

Filters: what a query asks of a document. A filter is a constraint on one field or on the whole text,
or is put together from filters by conjunction, disjunction and negation.

Joining keeps filters flat: a conjunction takes in the parts of a conjunction next to it, a
disjunction those of a disjunction, and negating a negation removes it.
-/

namespace SearchQuery

structure Bounds where
  field : String
  gt : Option String := none
  gte : Option String := none
  lt : Option String := none
  lte : Option String := none
  deriving DecidableEq

def Bounds.isUnbounded (b : Bounds) : Bool :=
  b.gt.isNone && b.gte.isNone && b.lt.isNone && b.lte.isNone

/-- A filter that is not made of filters. -/
inductive Constraint where
  /-- The field has exactly this value. -/
  | term (field value : String)
  /-- The text, split into words, is found in the field or anywhere. -/
  | words (query : String) (defaultField : Option String) (op : Connective)
  | range (bounds : Bounds)
  | presence (presence : Presence) (field : String)
  /-- The field is a point no further than `distance` from the given one. -/
  | near (field : String) (latitude longitude : Float) (distance : String)

def Constraint.field? : Constraint → Option String
  | .term field _ => some field
  | .words _ field _ => field
  | .range b => some b.field
  | .presence _ field => some field
  | .near field _ _ _ => some field

inductive Filter where
  /-- Every document passes. -/
  | matchAll
  | leaf (constraint : Constraint)
  | join (op : Connective) (parts : List Filter)
  | not (filter : Filter)

namespace Filter

def term (field value : String) : Filter :=
  .leaf (.term field value)

def presence (p : Presence) (field : String) : Filter :=
  .leaf (.presence p field)

def isMatchAll : Filter → Bool
  | .matchAll => true
  | _ => false

/-- The field of a single constraint. -/
def field? : Filter → Option String
  | .leaf c => c.field?
  | _ => none

def negate : Filter → Filter
  | .not f => f
  | f => .not f

/-- What a filter adds to a join under `op`. -/
def operands (op : Connective) : Filter → List Filter
  | .join op' parts => if op' = op then parts else [.join op' parts]
  | f => [f]

def combine (op : Connective) (left right : Filter) : Filter :=
  .join op (left.operands op ++ right.operands op)

def and (left right : Filter) : Filter :=
  left.combine .and right

def or (left right : Filter) : Filter :=
  left.combine .or right

end Filter
end SearchQuery
