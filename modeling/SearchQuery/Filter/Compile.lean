import SearchQuery.CompileError
import SearchQuery.Settings

/-!
# SearchQuery.Filter.Compile

From clause trees to filters.

Each leaf becomes a constraint in the scope of the groups around it and goes through the expanders. A
group joins what its clauses contribute and is then joined with its neighbours like a leaf. Ranges
and presence tests make no sense on a field whose values are split into words; such leaves are
suppressed and contribute nothing, and so does a group in which nothing contributes.

* `leafConstraint`   — what a leaf asks, in its scope.
* `visit`            — what a clause contributes.
* `Config.compile`   — the filter of a whole tree.
-/

namespace SearchQuery

/-! ## Scopes -/

/-- What the groups around a clause determine. -/
structure Scope where
  /-- What joins the clauses of the innermost group. -/
  op : Connective
  /-- The configured default field. -/
  rootField : Option String
  /-- The fields of the groups that have one, from the outermost inward. -/
  fields : List String := []
  /-- How many groups there are. -/
  depth : Nat := 0

namespace Scope

def enter (s : Scope) (op : Connective) (field : Option String) : Scope :=
  { s with op, fields := s.fields ++ field.toList, depth := s.depth + 1 }

/-- The field of the nearest group that has one, else the configured one. -/
def defaultField (s : Scope) : Option String :=
  s.fields.getLast?.or s.rootField

/-- The full name of a leaf's field. -/
def qualify (s : Scope) (own : Option String) : Option String :=
  if s.fields.isEmpty then own.or s.rootField
  else some (".".intercalate (s.fields ++ own.toList))

end Scope

/-! ## Leaves -/

/-- The text of a term when it is searched as words. -/
def wordsText (text : String) (quoted : Bool) : String :=
  if quoted then Text.quote '"' (fun c => c = '"') text else text

def termConstraint (op : Connective) (field : Option String) (analyzed : Bool) (text : String)
    (quoted : Bool) : Constraint :=
  match field, analyzed with
  | some field, false => .term field text
  | _, _ => .words (wordsText text quoted) field op

/-- A bound, unless it is blank. -/
def usableBound (bound : Option String) : Option String :=
  bound.filter fun s => !Text.isBlankText s

/-- The bounds of a range; `none` when it has no usable one. -/
def Range.bounds? (r : Range) (field : String) : Option Bounds :=
  let min := usableBound r.min
  let max := usableBound r.max
  let strictMin := r.minInclusive = some false
  let strictMax := r.maxInclusive = some false
  let bounds : Bounds :=
    { field
      gt := if strictMin then min else none
      gte := if strictMin then none else min
      lt := if strictMax then max else none
      lte := if strictMax then none else max }
  if bounds.isUnbounded then none else some bounds

/-- What a leaf on the field `field` asks; `none` when it is suppressed. -/
def leafConstraint (op : Connective) (field : Option String) (analyzed : Bool) :
    Leaf → Option Constraint
  | .term text quoted => some (termConstraint op field analyzed text quoted)
  | .range r => if analyzed then none else (field.bind r.bounds?).map .range
  | .presence p => if analyzed then none else field.map (.presence p)

/-! ## Trees -/

/-- What a part of the tree contributes, and how many of its leaves were compiled or suppressed. -/
structure Contribution where
  filter : Option Filter := none
  leaves : Nat := 0
  suppressed : Nat := 0

/-- Joins a filter with what came before it. In a disjunction a required filter is joined by
conjunction. -/
def joinFilter (op : Connective) (marks : Marks) (before : Option Filter) (incoming : Filter) :
    Filter :=
  let incoming :=
    if marks.negated || marks.occur = some .prohibited then incoming.negate else incoming
  match before with
  | none => incoming
  | some before => before.combine (if marks.occur = some .required then .and else op) incoming

/-- Adds what a clause with these marks contributes. -/
def Contribution.add (before : Contribution) (op : Connective) (marks : Marks)
    (next : Contribution) : Contribution :=
  { filter :=
      match next.filter with
      | none => before.filter
      | some incoming => some (joinFilter op marks before.filter incoming)
    leaves := before.leaves + next.leaves
    suppressed := before.suppressed + next.suppressed }

def visitLeaf (config : Config) (scope : Scope) (marks : Marks) (leaf : Leaf) :
    Traced CompileError Contribution :=
  let clause := Clause.leaf marks leaf
  let field := scope.qualify marks.field
  let analyzed := field.any config.schema.isAnalyzed
  match leafConstraint scope.op field analyzed leaf with
  | none => do
    Traced.emit (.suppressedLeaf clause field analyzed)
    pure { suppressed := 1 }
  | some constraint => do
    Traced.emit (.compiledLeaf clause field analyzed)
    let context : Context := { defaultField := scope.defaultField, filter := .leaf constraint }
    let context ← (Expander.runAll config.expanders clause context).mapError .expansion
    pure { filter := some context.filter, leaves := 1 }

mutual

/-- What a clause contributes, before its own marks are applied. The connective of a group that names
none is the configured one, whatever stands around the group. -/
def visit (config : Config) (scope : Scope) : Clause → Traced CompileError Contribution
  | .leaf marks leaf => visitLeaf config scope marks leaf
  | .group marks op _ children =>
    let inner := scope.enter (op.getD config.settings.defaultOp) marks.field
    if config.settings.maxDepth < inner.depth then Traced.fail (.tooDeep config.settings.maxDepth)
    else visitAll config inner {} children

/-- Adds what the clauses of a group contribute to `before`. -/
def visitAll (config : Config) (scope : Scope) (before : Contribution) :
    List Clause → Traced CompileError Contribution
  | [] => pure before
  | c :: cs => do
    let next ← visit config scope c
    visitAll config scope (before.add scope.op c.marks next) cs

end

namespace Config

def rootScope (config : Config) : Scope :=
  { op := config.settings.defaultOp, rootField := config.settings.defaultField }

/-- The filter of a clause tree. A tree that contributes nothing lets every document pass. -/
def compile (config : Config) (root : Clause) : Traced CompileError Filter := do
  let total ← visitAll config config.rootScope {} [root]
  Traced.emit (.compiledFilter total.leaves total.suppressed total.filter.isNone)
  pure (total.filter.getD .matchAll)

end Config
end SearchQuery
