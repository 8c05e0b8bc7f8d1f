import SearchQuery.Clause.Basic
import SearchQuery.Text.Quoted

/-!
# SearchQuery.Clause.Printer

Clause trees as query text. Words and bounds are written as they are; only the text of a phrase is
escaped.
-/

namespace SearchQuery

/-- A phrase in double quotes. -/
def phraseText (s : String) : String :=
  Text.quote '"' (fun c => c = '\\' || c = '"') s

/-- The sign and the negation in front of a clause. -/
def Marks.leadText (m : Marks) : String :=
  (match m.occur with
    | none => ""
    | some o => o.text) ++ (if m.negated then "NOT " else "")

def Marks.fieldText (m : Marks) : String :=
  match m.field with
  | none => ""
  | some f => f ++ ":"

/-- A bound; an open one is a star. -/
def boundText : Option String → String
  | none => "*"
  | some s => s

def Range.text (r : Range) : String :=
  (if r.minInclusive = some false then "\x7b" else "[") ++ boundText r.min ++ " TO " ++
    boundText r.max ++ (if r.maxInclusive = some false then "\x7d" else "]")

def Leaf.text (m : Marks) : Leaf → String
  | .term s true => m.fieldText ++ phraseText s
  | .term s false => m.fieldText ++ s
  | .range r => m.fieldText ++ r.text
  | .presence p => p.keyword ++ ":" ++ boundText m.field

/-- What stands between the clauses of a group. -/
def separator : Option Connective → String
  | none => " "
  | some op => " " ++ op.text ++ " "

namespace Clause

mutual

def text : Clause → String
  | .leaf m l => m.leadText ++ l.text m
  | .group m op parens children =>
    let body := textList (separator op) children
    m.leadText ++ m.fieldText ++ (if parens || m.field.isSome then "(" ++ body ++ ")" else body)

def textList (sep : String) : List Clause → String
  | [] => ""
  | [c] => c.text
  | c :: cs => c.text ++ sep ++ textList sep cs

end

end Clause

def Group.text (g : Group) : String :=
  g.toClause.text

end SearchQuery
