import SearchQuery.Clause.Basic
import SearchQuery.Token.Basic

/-!
# SearchQuery.Clause.Builder

Building a clause tree from tokens, one token at a time.

A `Builder` holds the tree as far as it is known: the sequence of clauses being read, the groups that
are still open around it, and the clause that has been started, if any.

* `Builder.step`     — takes one token; `none` when no query goes on with it.
* `Builder.finish`   — the clauses of a finished query; `none` when something is missing.
* `Builder.expected` — what the builder waits for.

Reading `a OR b AND c d` gives two clauses side by side: a disjunction whose second operand is a
conjunction, and `d`.
-/

namespace SearchQuery

/-! ## Sequences -/

/-- One operand stands for itself, several make a group of their own. -/
def joinOperands (op : Connective) : List Clause → Clause
  | [c] => c
  | cs => .group {} (some op) false cs

/-- A group around a sequence. A lone group without marks and parentheses gives its operator and its
clauses to the group around it, so that `(a OR b)` is one group. -/
def Group.ofSequence : List Clause → Group
  | [.group ⟨none, false, none⟩ op false children] => { op, children }
  | children => { children }

/-- Clauses side by side, the last of which may still be growing: `done` are complete, `ors` are the
operands before the last `OR`, and `ands` the operands after it. -/
structure Sequence where
  done : List Clause := []
  ors : List Clause := []
  ands : List Clause := []

namespace Sequence

/-- Adds a clause as the last operand. -/
def push (s : Sequence) (c : Clause) : Sequence :=
  { s with ands := s.ands ++ [c] }

/-- After an `OR` a new conjunction begins. -/
def startOperand (s : Sequence) : Sequence :=
  { s with ors := s.ors ++ [joinOperands .and s.ands], ands := [] }

/-- Completes the clause that is growing, if there is one. -/
def close (s : Sequence) : Sequence :=
  if s.ands.isEmpty then s
  else { done := s.done ++ [joinOperands .or (s.ors ++ [joinOperands .and s.ands])] }

def clauses (s : Sequence) : List Clause :=
  s.close.done

end Sequence

/-! ## Builder -/

/-- A group that is not closed yet: the marks it will carry and the sequence it stands in. -/
structure OpenGroup where
  marks : Marks
  outer : Sequence

/-- Which bound of which range is being read. -/
inductive Slot where
  | lower (inclusive : Bool)
  | upper (minInclusive : Bool) (min : Option String)
  | only (comparison : Comparison)

/-- The clause that has been started. -/
inductive Mode where
  /-- None: a clause, a connective or the end of the sequence may follow. -/
  | sequence
  /-- Marks were read, or a connective: a clause must follow. -/
  | operand (lead : Marks)
  /-- A word, which is a field name if a colon follows. -/
  | word (lead : Marks) (text : String)
  /-- A presence test that lacks its field. -/
  | target (lead : Marks) (presence : Presence)
  /-- A field and its colon. -/
  | value (marks : Marks)
  /-- A field, its colon, and signs after it, the last of which is `inner`. -/
  | signedValue (marks : Marks) (inner : Occur)
  | bound (marks : Marks) (slot : Slot)
  /-- A bound of which only the sign was read. -/
  | signedBound (marks : Marks) (slot : Slot) (sign : Occur)
  /-- A range up to its first bound. -/
  | rangeTo (marks : Marks) (minInclusive : Bool) (min : Option String)
  /-- A range up to its second bound. -/
  | rangeEnd (marks : Marks) (minInclusive : Bool) (min max : Option String)

structure Builder where
  mode : Mode := .sequence
  current : Sequence := {}
  /-- The groups around the sequence, the innermost first. -/
  opened : List OpenGroup := []

/-- What a builder waits for when it gets something else. -/
inductive Expectation where
  | clause
  | fieldName
  | rangeBound
  | signedRangeBound
  | rangeEnd
  | token (t : Token)
  | endOfText
  deriving DecidableEq

def Expectation.text : Expectation → String
  | .clause => "term, phrase, range or group"
  | .fieldName => "field name"
  | .rangeBound => "range bound"
  | .signedRangeBound => "signed range bound"
  | .rangeEnd => "']' or '\x7d'"
  | .token t => t.text
  | .endOfText => Token.describe none

/-- The range that a comparison with `bound` denotes. -/
def Comparison.range (bound : Option String) : Comparison → Range
  | .gt => { min := bound, minInclusive := some false }
  | .ge => { min := bound, minInclusive := some true }
  | .lt => { max := bound, maxInclusive := some false }
  | .le => { max := bound, maxInclusive := some true }

/-- The presence test that a field name stands for. -/
def presence? (field : String) : Option Presence :=
  if field = Presence.present.keyword then some .present
  else if field = Presence.absent.keyword then some .absent
  else none

namespace Builder

/-- How many groups are open, the whole query included. -/
def depth (b : Builder) : Nat :=
  b.opened.length + 1

/-- Adds a complete clause. -/
def complete (b : Builder) (c : Clause) : Builder :=
  { b with mode := .sequence, current := b.current.push c }

/-- A word that turns out not to be a field name is a clause. -/
def settle (b : Builder) : Builder :=
  match b.mode with
  | .word lead text => b.complete (.leaf lead (.term text false))
  | _ => b

def openGroup (b : Builder) (marks : Marks) : Builder :=
  { mode := .sequence, current := {}, opened := ⟨marks, b.current⟩ :: b.opened }

/-- Closes the innermost group; `none` when only the whole query is open. -/
def closeGroup (b : Builder) : Option Builder :=
  match b.opened with
  | [] => none
  | g :: opened =>
    let inner := Group.ofSequence b.current.clauses
    some
      { mode := .sequence
        current := g.outer.push (.group g.marks inner.op true inner.children)
        opened }

/-- Goes on after a bound. -/
def setBound (b : Builder) (marks : Marks) (slot : Slot) (bound : Option String) : Builder :=
  match slot with
  | .lower inclusive => { b with mode := .rangeTo marks inclusive bound }
  | .upper inclusive min => { b with mode := .rangeEnd marks inclusive min bound }
  | .only comparison => b.complete (.leaf marks (.range (comparison.range bound)))

/-- A value: a word, a phrase, a range or a group, with all its marks known. -/
def stepValue (b : Builder) (marks : Marks) : Token → Option Builder
  | .term s => some (b.complete (.leaf marks (.term s false)))
  | .phrase s => some (b.complete (.leaf marks (.term s true)))
  | .openRange inclusive => some { b with mode := .bound marks (.lower inclusive) }
  | .compare comparison => some { b with mode := .bound marks (.only comparison) }
  | .openParen => some (b.openGroup marks)
  | _ => none

/-- A clause, of which the marks `lead` have been read. The last sign counts. -/
def stepOperand (b : Builder) (lead : Marks) : Token → Option Builder
  | .sign o => some { b with mode := .operand { lead with occur := some o } }
  | .not => some { b with mode := .operand { lead with negated := true } }
  | .term s => some { b with mode := .word lead s }
  | t => b.stepValue lead t

/-- Between clauses. -/
def stepSequence (b : Builder) : Token → Option Builder
  | .closeParen => b.closeGroup
  | .join op =>
    if b.current.ands.isEmpty then none
    else
      match op with
      | .and => some { b with mode := .operand {} }
      | .or => some { b with mode := .operand {}, current := b.current.startOperand }
  | t => stepOperand { b with current := b.current.close } {} t

/-- After a word. -/
def stepWord (b : Builder) (lead : Marks) (text : String) : Token → Option Builder
  | .colon =>
    match presence? text with
    | some p => some { b with mode := .target lead p }
    | none => some { b with mode := .value { lead with field := some text } }
  | t => b.settle.stepSequence t

def stepTarget (b : Builder) (lead : Marks) (p : Presence) : Token → Option Builder
  | .term s | .phrase s => some (b.complete (.leaf { lead with field := some s } (.presence p)))
  | _ => none

def stepBound (b : Builder) (marks : Marks) (slot : Slot) : Token → Option Builder
  | .sign o => some { b with mode := .signedBound marks slot o }
  | .term s => some (b.setBound marks slot (if s = "*" then none else some s))
  | .phrase s => some (b.setBound marks slot (some s))
  | _ => none

def stepSignedBound (b : Builder) (marks : Marks) (slot : Slot) (sign : Occur) :
    Token → Option Builder
  | .term s => if s = "*" then none else some (b.setBound marks slot (some (sign.text ++ s)))
  | _ => none

/-- After a field's colon and signs, where a negation is read and has no effect. A sign in front of
the field counts more than one after it. -/
def stepSignedValue (b : Builder) (marks : Marks) (inner : Occur) : Token → Option Builder
  | .sign o => some { b with mode := .signedValue marks o }
  | .not => some { b with mode := .signedValue marks inner }
  | t => b.stepValue { marks with occur := marks.occur.or (some inner) } t

def step (b : Builder) (t : Token) : Option Builder :=
  match b.mode with
  | .sequence => b.stepSequence t
  | .operand lead => b.stepOperand lead t
  | .word lead text => b.stepWord lead text t
  | .target lead p => b.stepTarget lead p t
  | .value marks =>
    match t with
    | .sign o => some { b with mode := .signedValue marks o }
    | t => b.stepValue marks t
  | .signedValue marks inner => b.stepSignedValue marks inner t
  | .bound marks slot => b.stepBound marks slot t
  | .signedBound marks slot sign => b.stepSignedBound marks slot sign t
  | .rangeTo marks minInclusive min =>
    match t with
    | .to => some { b with mode := .bound marks (.upper minInclusive min) }
    | _ => none
  | .rangeEnd marks minInclusive min max =>
    match t with
    | .closeRange maxInclusive =>
      some (b.complete (.leaf marks (.range
        { min, max, minInclusive := some minInclusive, maxInclusive := some maxInclusive })))
    | _ => none

def finish (b : Builder) : Option (List Clause) :=
  let b := b.settle
  match b.mode, b.opened with
  | .sequence, [] => some b.current.clauses
  | _, _ => none

/-- What should have come in place of `found`, where `none` is the end of the text. -/
def expected (b : Builder) (found : Option Token) : Expectation :=
  match b.settle.mode with
  | .sequence =>
    match found with
    | none => .token .closeParen
    | some .closeParen => .endOfText
    | some _ => .clause
  | .operand _ | .word _ _ | .value _ | .signedValue _ _ => .clause
  | .target _ _ => .fieldName
  | .bound _ _ => .rangeBound
  | .signedBound _ _ _ => .signedRangeBound
  | .rangeTo _ _ _ => .token .to
  | .rangeEnd _ _ _ _ => .rangeEnd

end Builder
end SearchQuery
