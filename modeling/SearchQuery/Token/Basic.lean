import SearchQuery.Operator

/-!
# SearchQuery.Token.Basic

The tokens of a query text. The end of the text is no token; where a token may be missing it is
`none`.
-/

namespace SearchQuery

inductive Token where
  /-- A bare word, its escapes resolved. -/
  | term (text : String)
  /-- A text in double quotes, its escapes resolved. -/
  | phrase (text : String)
  /-- `+` or `-`. -/
  | sign (occur : Occur)
  /-- `NOT` or `!`. -/
  | not
  /-- `AND`, `&&`, `OR` or `||`. -/
  | join (op : Connective)
  | to
  | compare (comparison : Comparison)
  | colon
  | openParen
  | closeParen
  /-- `[` or `{`. -/
  | openRange (inclusive : Bool)
  /-- `]` or `}`. -/
  | closeRange (inclusive : Bool)
  deriving DecidableEq

/-- A token as it is named in messages. -/
def Token.text : Token → String
  | .term s => s
  | .phrase s => "\"" ++ s ++ "\""
  | .sign o => o.text
  | .not => "NOT"
  | .join op => op.text
  | .to => "TO"
  | .compare c => c.text
  | .colon => ":"
  | .openParen => "("
  | .closeParen => ")"
  | .openRange true => "["
  | .openRange false => "\x7b"
  | .closeRange true => "]"
  | .closeRange false => "\x7d"

/-- A token, or the end of the text. -/
def Token.describe : Option Token → String
  | none => "end of input"
  | some t => t.text

end SearchQuery
