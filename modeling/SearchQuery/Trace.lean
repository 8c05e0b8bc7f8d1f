import SearchQuery.Clause.Printer
import SearchQuery.Filter.Basic
import SearchQuery.Number.Format
import SearchQuery.Text.Literal

/-!
# SearchQuery.Trace

What a compilation reports while it works. Reports made before an error are kept, so a `Traced`
result is a list of events beside the value or the error.
-/

namespace SearchQuery

/-- A leaf's filter and the field it would search without a field of its own. -/
structure Context where
  defaultField : Option String
  filter : Filter

inductive Event where
  /-- A leaf became a filter on `field`. -/
  | compiledLeaf (clause : Clause) (field : Option String) (analyzed : Bool)
  /-- A leaf was left out. -/
  | suppressedLeaf (clause : Clause) (field : Option String) (analyzed : Bool)
  /-- A value was read as a point. -/
  | placed (field : String) (latitude longitude : Float)
  /-- A leaf was shown to an expander that keeps notes. -/
  | noted (clause : Clause) (context : Context)
  | compiledFilter (leaves suppressed : Nat) (matchAll : Bool)
  | compiledAggregations (count : Nat)
  | rejectedRequest (reason : String)

inductive Level where
  | trace
  | debug
  deriving DecidableEq

def Level.text : Level → String
  | .trace => "trace"
  | .debug => "debug"

def boolText (b : Bool) : String :=
  if b then "true" else "false"

namespace Event

def level : Event → Level
  | .compiledLeaf _ _ _ | .suppressedLeaf _ _ _ | .placed _ _ _ | .noted _ _ => .trace
  | .compiledFilter _ _ _ | .compiledAggregations _ | .rejectedRequest _ => .debug

def message : Event → String
  | .compiledLeaf _ _ _ => "compiled leaf"
  | .suppressedLeaf _ _ _ => "suppressed leaf"
  | .placed _ _ _ => "rewrote term into geo distance filter"
  | .noted _ _ => "noted leaf"
  | .compiledFilter _ _ _ => "compiled filter"
  | .compiledAggregations _ => "compiled aggregations"
  | .rejectedRequest _ => "rejected aggregation request"

/-- The details of an event by name. -/
def details : Event → List (String × String)
  | .compiledLeaf c field analyzed | .suppressedLeaf c field analyzed =>
    [("node", c.text), ("field", Text.optionLiteral field), ("analyzed", boolText analyzed)]
  | .placed field latitude longitude =>
    [("field", field), ("latitude", Number.plain.text latitude),
      ("longitude", Number.plain.text longitude)]
  | .noted c context =>
    [("node", c.text), ("default_field", Text.optionLiteral context.defaultField)]
  | .compiledFilter leaves suppressed matchAll =>
    [("leaves", toString leaves), ("suppressed", toString suppressed),
      ("match_all", boolText matchAll)]
  | .compiledAggregations count => [("count", toString count)]
  | .rejectedRequest reason => [("error", reason)]

end Event

structure Traced (ε α : Type) where
  events : List Event
  result : Except ε α

namespace Traced

/-- Goes on with the value; an error ends the work and keeps the events so far. -/
def andThen {ε α β : Type} (x : Traced ε α) (f : α → Traced ε β) : Traced ε β :=
  match x.result with
  | .error e => ⟨x.events, .error e⟩
  | .ok a =>
    let y := f a
    ⟨x.events ++ y.events, y.result⟩

instance {ε : Type} : Monad (Traced ε) where
  pure a := ⟨[], .ok a⟩
  bind := andThen

def ofExcept {ε α : Type} (result : Except ε α) : Traced ε α :=
  ⟨[], result⟩

def fail {ε α : Type} (e : ε) : Traced ε α :=
  ⟨[], .error e⟩

def emit {ε : Type} (event : Event) : Traced ε Unit :=
  ⟨[event], .ok ()⟩

def mapError {ε ε' α : Type} (f : ε → ε') (x : Traced ε α) : Traced ε' α :=
  ⟨x.events, x.result.mapError f⟩

@[simp] theorem result_pure {ε α : Type} (a : α) : (pure a : Traced ε α).result = .ok a := rfl

@[simp] theorem result_bind {ε α β : Type} (x : Traced ε α) (f : α → Traced ε β) :
    (x >>= f).result = x.result >>= fun a => (f a).result := by
  show (andThen x f).result = _
  unfold andThen
  cases x.result <;> rfl

@[simp] theorem result_emit {ε : Type} (event : Event) :
    (emit event : Traced ε Unit).result = .ok () := rfl

@[simp] theorem result_mapError {ε ε' α : Type} (f : ε → ε') (x : Traced ε α) :
    (x.mapError f).result = x.result.mapError f := rfl

theorem bind_of_ok {ε α β : Type} {x : Traced ε α} {a : α} (h : x.result = .ok a)
    (f : α → Traced ε β) : x >>= f = ⟨x.events ++ (f a).events, (f a).result⟩ := by
  show andThen x f = _
  unfold andThen
  rw [h]

end Traced
end SearchQuery
