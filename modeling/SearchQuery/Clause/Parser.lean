import SearchQuery.Clause.Builder
import SearchQuery.Token.Lexer

/-!
# SearchQuery.Clause.Parser

Reading a query text into a clause tree under a limit on the nesting of groups.

A parser can be asked again after it has failed: it goes on where it stands, and groups that were
open at an error stay counted. `Parser.parse` therefore gives the parser afterwards with each answer.

* `Parser.ofText`  — a parser at the start of a text.
* `Parser.parse`   — reads up to the end of the text.
* `parse`          — reads a whole text with the usual limit.
-/

namespace SearchQuery

inductive ParseError where
  | lex (error : LexError)
  | unexpectedToken (expected : Expectation) (found : Token) (position : Nat)
  | unexpectedEnd (expected : Expectation)
  | tooDeep (limit : Nat)
  deriving DecidableEq

def ParseError.message : ParseError → String
  | .lex e => e.message
  | .unexpectedToken expected found position =>
    "Expected " ++ expected.text ++ " at offset " ++ toString position ++ ", found '" ++
      found.text ++ "'"
  | .unexpectedEnd expected => "Unexpected end of input, expected " ++ expected.text
  | .tooDeep limit => "Groups nested deeper than " ++ toString limit ++ " levels"

/-- The nesting of groups allowed unless set otherwise. -/
def defaultMaxDepth : Nat := 64

structure Parser where
  /-- The token to be read next and its offset, or the end of the text. -/
  current : Option (Nat × Token)
  /-- The lexemes after it. -/
  pending : List Lexeme
  depth : Nat := 0
  maxDepth : Nat := defaultMaxDepth

/-- Whether the parser lets go of a token before it looks for the next one. It then stands at the end
of the text if the next one is an error; any other token would still be there. -/
def Token.isReleased : Token → Bool
  | .term _ | .phrase _ | .openRange _ | .compare _ => true
  | _ => false

namespace Parser

def ofLexemes : List Lexeme → Except LexError Parser
  | [] => .ok { current := none, pending := [] }
  | x :: pending =>
    match x.token with
    | .ok t => .ok { current := some (x.start, t), pending }
    | .error e => .error e

def ofText (text : String) : Except LexError Parser :=
  ofLexemes (Lexer.ofText text).lexemes

/-- An error, after which the groups that `b` holds open stay counted. -/
def fail (p : Parser) (b : Builder) (e : ParseError) : Except ParseError (List Clause) × Parser :=
  (.error e, { p with depth := p.depth + b.depth })

/-- The end of the text. -/
def conclude (p : Parser) (b : Builder) : Except ParseError (List Clause) × Parser :=
  match b.finish with
  | some clauses => (.ok clauses, p)
  | none => p.fail b (.unexpectedEnd (b.expected none))

/-- A token that does not fit. A closing parenthesis too many is only met once the query is complete,
so it leaves no group counted. -/
def reject (p : Parser) (b : Builder) (position : Nat) (t : Token) :
    Except ParseError (List Clause) × Parser :=
  match b.expected (some t) with
  | .endOfText => (.error (.unexpectedToken .endOfText t position), p)
  | expected => p.fail b (.unexpectedToken expected t position)

/-- Reads token after token; `p.depth` stays what it was before the query. -/
def run (p : Parser) (b : Builder) (position : Nat) (t : Token) (pending : List Lexeme) :
    Except ParseError (List Clause) × Parser :=
  match b.step t with
  | none => { p with current := some (position, t), pending }.reject b position t
  | some b' =>
    match pending with
    | [] =>
      let p' := { p with current := none, pending := [] }
      if p.maxDepth < p.depth + b'.depth then p'.fail b' (.tooDeep p.maxDepth)
      else p'.conclude b'
    | x :: rest =>
      match x.token with
      | .error e =>
        let kept := if t.isReleased then none else some (position, t)
        { p with current := kept, pending := rest }.fail b (.lex e)
      | .ok t' =>
        if p.maxDepth < p.depth + b'.depth then
          { p with current := some (x.start, t'), pending := rest }.fail b' (.tooDeep p.maxDepth)
        else p.run b' x.start t' rest

/-- The clauses of the query, and the parser afterwards. -/
def sequence (p : Parser) : Except ParseError (List Clause) × Parser :=
  let b : Builder := {}
  if p.maxDepth < p.depth + b.depth then p.fail b (.tooDeep p.maxDepth)
  else
    match p.current with
    | none => p.conclude b
    | some (position, t) => p.run b position t p.pending

/-- Reads a query up to the end of the text. Groups that come from connectives count as nested too,
so the finished tree is measured once more. -/
def parse (p : Parser) : Except ParseError Group × Parser :=
  match p.sequence with
  | (.error e, p') => (.error e, p')
  | (.ok clauses, p') =>
    let root := Group.ofSequence clauses
    if p.maxDepth < root.depth then (.error (.tooDeep p.maxDepth), p') else (.ok root, p')

end Parser

/-- Reads a whole text with a given limit. -/
def parseWithin (maxDepth : Nat) (text : String) : Except ParseError Group :=
  match Parser.ofText text with
  | .error e => .error (.lex e)
  | .ok p => ({ p with maxDepth }.parse).1

def parse (text : String) : Except ParseError Group :=
  parseWithin defaultMaxDepth text

end SearchQuery
