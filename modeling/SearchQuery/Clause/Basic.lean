import SearchQuery.Operator

/-!
# SearchQuery.Clause.Basic

Clause trees: what a query text says. A clause is a leaf (a word or phrase, a range, a test for
presence) or a group of clauses, and either carries marks written in front of it.
-/

namespace SearchQuery

/-- What may stand in front of a clause: `+` or `-`, `NOT`, and `field:`. -/
structure Marks where
  field : Option String := none
  negated : Bool := false
  occur : Option Occur := none
  deriving DecidableEq

/-- A range of values. A missing bound is open; a bound without a flag is inclusive. -/
structure Range where
  min : Option String := none
  max : Option String := none
  minInclusive : Option Bool := none
  maxInclusive : Option Bool := none
  deriving DecidableEq

inductive Leaf where
  /-- A word, or a phrase when `quoted`. -/
  | term (text : String) (quoted : Bool)
  | range (range : Range)
  /-- A test of the field in the leaf's marks. -/
  | presence (presence : Presence)
  deriving DecidableEq

inductive Clause where
  | leaf (marks : Marks) (leaf : Leaf)
  /-- Clauses joined by `op`, or standing side by side when there is none. -/
  | group (marks : Marks) (op : Option Connective) (parens : Bool) (children : List Clause)

/-- A group on its own. A whole query is one. -/
structure Group where
  marks : Marks := {}
  op : Option Connective := none
  parens : Bool := false
  children : List Clause := []

def Group.toClause (g : Group) : Clause :=
  .group g.marks g.op g.parens g.children

namespace Clause

def marks : Clause → Marks
  | .leaf m _ => m
  | .group m _ _ _ => m

/-- What joins the clauses of a group. -/
def op? : Clause → Option Connective
  | .leaf _ _ => none
  | .group _ op _ _ => op

mutual

/-- How deeply groups are nested in a clause; a group counts itself. -/
def depth : Clause → Nat
  | .leaf _ _ => 0
  | .group _ _ _ children => deepest children + 1

def deepest : List Clause → Nat
  | [] => 0
  | c :: cs => max c.depth (deepest cs)

end

mutual

def decEq : (a b : Clause) → Decidable (a = b)
  | .leaf m l, .leaf m' l' =>
    if h : m = m' ∧ l = l' then .isTrue (by rw [h.1, h.2])
    else .isFalse fun he => h (by injection he; constructor <;> assumption)
  | .group m op p cs, .group m' op' p' cs' =>
    if h : m = m' ∧ op = op' ∧ p = p' then
      match decEqList cs cs' with
      | .isTrue hs => .isTrue (by rw [h.1, h.2.1, h.2.2, hs])
      | .isFalse hs => .isFalse fun he => hs (by injection he)
    else .isFalse fun he => h (by injection he; refine ⟨?_, ?_, ?_⟩ <;> assumption)
  | .leaf _ _, .group _ _ _ _ => .isFalse fun he => by cases he
  | .group _ _ _ _, .leaf _ _ => .isFalse fun he => by cases he

def decEqList : (as bs : List Clause) → Decidable (as = bs)
  | [], [] => .isTrue rfl
  | [], _ :: _ => .isFalse fun he => by cases he
  | _ :: _, [] => .isFalse fun he => by cases he
  | a :: as, b :: bs =>
    match decEq a b, decEqList as bs with
    | .isTrue h, .isTrue hs => .isTrue (by rw [h, hs])
    | .isFalse h, _ => .isFalse fun he => h (by injection he)
    | _, .isFalse hs => .isFalse fun he => hs (by injection he)

end

instance : DecidableEq Clause := decEq

end Clause

deriving instance DecidableEq for Group

/-- The nesting of a whole query. -/
def Group.depth (g : Group) : Nat :=
  g.toClause.depth

end SearchQuery
