import SearchQuery.Aggregation.Request
import SearchQuery.Filter.Compile

/-!
# SearchQuery.Query

The whole way from text.

* `Config.compileQuery`   — the filter of a query text.
* `Config.compileClause`  — the filter of a clause tree.
* `Config.compileRequest` — the aggregations of a request text.
-/

namespace SearchQuery

inductive Error where
  | parse (error : ParseError)
  | compile (error : CompileError)

def Error.message : Error → String
  | .parse e => "Parse error: " ++ e.message
  | .compile e => "Compile error: " ++ e.message

namespace Config

def compileClause (config : Config) (root : Clause) : Traced Error Filter :=
  (config.compile root).mapError .compile

def compileQuery (config : Config) (text : String) : Traced Error Filter :=
  match parseWithin config.settings.maxDepth text with
  | .error e => Traced.fail (.parse e)
  | .ok root => config.compileClause root.toClause

/-- A request that cannot be read is reported as rejected, unless not even its first token can be. -/
def compileRequest (config : Config) (text : String) : Traced Error (List Aggregation) :=
  match Parser.ofText text with
  | .error e => Traced.fail (.parse (.lex e))
  | .ok p =>
    match ({ p with maxDepth := config.settings.maxDepth }.parse).1 with
    | .error e => ⟨[.rejectedRequest e.message], .error (.parse e)⟩
    | .ok root => (config.aggregate root).mapError .compile

end Config
end SearchQuery
