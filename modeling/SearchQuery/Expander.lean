import SearchQuery.Geo.Coordinates
import SearchQuery.Trace

/-!
# SearchQuery.Expander

Expanders change the filter of a leaf before it is joined with the others. They are run one after the
other, each on what the one before has left; the first error ends the run.
-/

namespace SearchQuery

inductive ExpansionError where
  | geo (error : Geo.GeoError)
  | custom (message : String)

def ExpansionError.message : ExpansionError → String
  | .geo e => e.message
  | .custom message => message

abbrev Expander := Clause → Context → Traced ExpansionError Context

namespace Expander

/-- Changes nothing, and notes what it was shown. -/
def recorder : Expander := fun clause context => do
  Traced.emit (.noted clause context)
  pure context

/-- Runs the expanders in order. -/
def runAll : List Expander → Expander
  | [], _, context => pure context
  | r :: rs, clause, context => do
    let context ← r clause context
    runAll rs clause context

end Expander
end SearchQuery
