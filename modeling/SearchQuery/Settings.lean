import SearchQuery.Clause.Parser
import SearchQuery.Json.Basic
import SearchQuery.Expander
import SearchQuery.Schema

/-!
# SearchQuery.Settings

What a compilation depends on besides its query: plain settings, which can be read from and written
as JSON, the schema of the index, and the expanders.
-/

namespace SearchQuery

structure Settings where
  /-- The field of a leaf that names none and stands in no group that does. -/
  defaultField : Option String := none
  /-- What joins clauses that stand side by side. -/
  defaultOp : Connective := .or
  maxDepth : Nat := defaultMaxDepth
  deriving DecidableEq

namespace Settings

def toJson (s : Settings) : Json :=
  .obj
    [("default_field", .ofOption s.defaultField), ("default_operator", .str s.defaultOp.name),
      ("max_depth", .int s.maxDepth)]

/-! ## Reading -/

def fieldOfJson? : Json → Option (Option String)
  | .null => some none
  | .str s => some (some s)
  | _ => none

def connectiveOfName? (name : String) : Option Connective :=
  if name = "and" then some .and else if name = "or" then some .or else none

/-- A connective is given by its name, or by an object that has the name as its only key. -/
def connectiveOfJson? : Json → Option Connective
  | .str name => connectiveOfName? name
  | .obj [(name, .null)] => connectiveOfName? name
  | _ => none

/-- A depth is an integer of at most 64 bits without a sign. -/
def depthOfJson? : Json → Option Nat
  | .int n => if 0 ≤ n ∧ n < Int.pow 2 64 then some n.toNat else none
  | _ => none

/-- A part that is missing keeps its default. -/
def partOfJson? {α : Type} (read : Json → Option α) (default : α) : Option Json → Option α
  | none => some default
  | some j => read j

def ofParts? (field op depth : Option Json) : Option Settings := do
  let usual : Settings := {}
  let defaultField ← partOfJson? fieldOfJson? usual.defaultField field
  let defaultOp ← partOfJson? connectiveOfJson? usual.defaultOp op
  let maxDepth ← partOfJson? depthOfJson? usual.maxDepth depth
  some { defaultField, defaultOp, maxDepth }

/-- Settings are an object, whose other members do not matter, or a list of at most three parts in
the order of the fields. -/
def ofJson? : Json → Option Settings
  | .obj members =>
    ofParts? (members.lookup "default_field") (members.lookup "default_operator")
      (members.lookup "max_depth")
  | .arr items =>
    if items.length ≤ 3 then ofParts? items[0]? items[1]? items[2]? else none
  | _ => none

end Settings

structure Config where
  settings : Settings := {}
  schema : Schema := {}
  expanders : List Expander := []

/-- A summary of a configuration on one line. -/
def Config.describe (c : Config) : String :=
  "CompilerConfig \x7b settings: CompilerSettings \x7b default_field: " ++
    Text.optionLiteral c.settings.defaultField ++ ", default_operator: " ++
    (match c.settings.defaultOp with
      | .and => "And"
      | .or => "Or") ++
    ", max_depth: " ++ toString c.settings.maxDepth ++
    " \x7d, macros: MacroRegistry \x7b macros: " ++ toString c.expanders.length ++ " \x7d, .. \x7d"

end SearchQuery
