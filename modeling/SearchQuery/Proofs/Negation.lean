import Mathlib.Data.List.Forall2
import SearchQuery.Proofs.Acceptance

/-!
# SearchQuery.Proofs.Negation

Which clauses of a query are negated.

A clause has marks at two places: in front of it, and between the colon of its field and its value.
The tree of a query has one node for every clause that is written in it, besides the groups that come
from connectives. A node is negated exactly when a `NOT` stands in front of its clause; one that is
read after the colon is dropped.

* `Clause.written`             — the nodes of a tree that stand for written clauses.
* `QueryForm.written`          — the clauses written in a derivation.
* `QueryForm.written_clauses`  — the former are built from the latter, one by one.
* `negated_iff_not_in_front`   — a negation counts in front of a clause, and nowhere else.
* `not_after_colon_dropped`    — the negation in `f:+NOT x` is lost.
-/

namespace SearchQuery

/-! ## Written clauses -/

namespace Clause

mutual

/-- The nodes that stand for a clause of the text, in its order. A group without parentheses is made
by a connective. -/
def written : Clause → List Clause
  | .leaf m l => [.leaf m l]
  | .group m op parens children =>
    (if parens then [.group m op parens children] else []) ++ writtenAll children

def writtenAll : List Clause → List Clause
  | [] => []
  | c :: cs => c.written ++ writtenAll cs

end

end Clause

open Clause

/-- The clauses written in a query. The root is not one of them. -/
def Group.written (g : Group) : List Clause :=
  writtenAll g.children

theorem written_joinOperands (op : Connective) (cs : List Clause) :
    (joinOperands op cs).written = writtenAll cs := by
  rw [joinOperands.eq_def]
  split
  · simp [writtenAll]
  · simp [Clause.written]

theorem writtenAll_ofSequence (cs : List Clause) :
    writtenAll (Group.ofSequence cs).children = writtenAll cs := by
  rw [Group.ofSequence.eq_def]
  split
  · simp [writtenAll, Clause.written]
  · rfl

mutual

/-- The clauses of a derivation, in the order of the text. -/
def QueryForm.written : QueryForm → List ClauseForm
  | .nil => []
  | .cons first rest => first.written ++ rest.written

def OrForm.written : OrForm → List ClauseForm
  | .last operand => operand.written
  | .or operand rest => operand.written ++ rest.written

def AndForm.written : AndForm → List ClauseForm
  | .last operand => operand.written
  | .and operand rest => operand.written ++ rest.written

def ClauseForm.written : ClauseForm → List ClauseForm
  | .group leads head body => .group leads head body :: body.written
  | .value leads head value => [.value leads head value]
  | .presence leads presence target => [.presence leads presence target]

end

mutual

theorem QueryForm.written_clauses : (q : QueryForm) →
    writtenAll q.clauses = q.written.map ClauseForm.clause
  | .nil => by rw [QueryForm.clauses, QueryForm.written, writtenAll, List.map_nil]
  | .cons o q => by
    rw [QueryForm.clauses, QueryForm.written, writtenAll, o.clause_eq, written_joinOperands,
      List.map_append, o.written_operands, q.written_clauses]

theorem OrForm.written_operands : (o : OrForm) →
    writtenAll o.operands = o.written.map ClauseForm.clause
  | .last a => by
    rw [OrForm.operands, OrForm.written, writtenAll, writtenAll, List.append_nil, a.clause_eq,
      written_joinOperands, a.written_operands]
  | .or a o => by
    rw [OrForm.operands, OrForm.written, writtenAll, a.clause_eq, written_joinOperands,
      List.map_append, a.written_operands, o.written_operands]

theorem AndForm.written_operands : (a : AndForm) →
    writtenAll a.operands = a.written.map ClauseForm.clause
  | .last c => by
    rw [AndForm.operands, AndForm.written, writtenAll, writtenAll, List.append_nil,
      c.written_clause]
  | .and c a => by
    rw [AndForm.operands, AndForm.written, writtenAll, List.map_append, c.written_clause,
      a.written_operands]

theorem ClauseForm.written_clause : (c : ClauseForm) →
    c.clause.written = c.written.map ClauseForm.clause
  | .group ls head q => by
    rw [ClauseForm.written, List.map_cons, ← q.written_clauses, ClauseForm.clause, Clause.written,
      q.root_eq, writtenAll_ofSequence]
    rfl
  | .value ls head v => by
    rw [ClauseForm.written, List.map_cons, ClauseForm.clause, Clause.written, List.map_nil]
  | .presence ls p target => by
    rw [ClauseForm.written, List.map_cons, ClauseForm.clause, Clause.written, List.map_nil]

end

/-- The tree of a query holds one node for each clause written in it, in the same order. -/
theorem QueryForm.written_root (q : QueryForm) :
    q.root.written = q.written.map ClauseForm.clause := by
  rw [q.root_eq, Group.written, writtenAll_ofSequence, q.written_clauses]

theorem ClauseForm.negated_iff (c : ClauseForm) :
    c.clause.marks.negated = true ↔ .not ∈ c.leads := by
  cases c <;> simp [ClauseForm.clause, Clause.marks, headMarks, ClauseForm.leads]

/-! ## A run of marks on either side of the field -/

/-- What may follow a field and its colon: a value, or a group. -/
inductive BodyForm where
  | value (value : ValueForm)
  | group (query : QueryForm)

namespace BodyForm

def tokens : BodyForm → List Token
  | .value v => v.tokens
  | .group q => .openParen :: (q.tokens ++ [.closeParen])

def clauseForm (leads : List Lead) (head : Option FieldHead) : BodyForm → ClauseForm
  | .value v => .value leads head v
  | .group q => .group leads head q

theorem tokens_clauseForm (leads : List Lead) (head : Option FieldHead) (b : BodyForm) :
    (b.clauseForm leads head).tokens = leadTokens leads ++ (headTokens head ++ b.tokens) := by
  cases b <;> rw [clauseForm, ClauseForm.tokens] <;> rfl

end BodyForm

/-- A clause with another negation. -/
def Clause.withNegated (negated : Bool) : Clause → Clause
  | .leaf m l => .leaf { m with negated } l
  | .group m op parens children => .group { m with negated } op parens children

@[simp] theorem depth_withNegated (negated : Bool) (c : Clause) :
    (c.withNegated negated).depth = c.depth := by
  cases c <;> simp [Clause.withNegated, Clause.depth]

/-- Marks moved to the front of the field keep their sign, and there a negation among them counts. -/
theorem headMarks_front (name : String) (w : List Lead) (ordinary : presence? name = none)
    (signFirst : w.head? ≠ some .not) :
    headMarks w (some ⟨name, [], ordinary, by simp⟩) =
      { headMarks [] (some ⟨name, w, ordinary, signFirst⟩) with negated := decide (.not ∈ w) } := by
  simp [headMarks, lastSign]

theorem clause_front (b : BodyForm) (name : String) (w : List Lead)
    (ordinary : presence? name = none) (signFirst : w.head? ≠ some .not) :
    (b.clauseForm w (some ⟨name, [], ordinary, by simp⟩)).clause =
      (b.clauseForm [] (some ⟨name, w, ordinary, signFirst⟩)).clause.withNegated
        (decide (.not ∈ w)) := by
  have hmarks := headMarks_front name w ordinary signFirst
  cases b with
  | value v => simp only [BodyForm.clauseForm, ClauseForm.clause, Clause.withNegated, hmarks]
  | group q => simp only [BodyForm.clauseForm, ClauseForm.clause, Clause.withNegated, hmarks]

/-- A text that holds a single clause is read as that clause alone. -/
theorem parseWithin_clause {text : String} {c : ClauseForm} {maxDepth : Nat}
    (htokens : tokenize text = .ok c.tokens) (hdepth : c.clause.depth < maxDepth) :
    parseWithin maxDepth text = .ok { children := [c.clause] } := by
  let q : QueryForm := .cons (.last (.last c)) .nil
  have hq : q.tokens = c.tokens := by
    simp [q, QueryForm.tokens, OrForm.tokens, AndForm.tokens]
  have hroot : q.root = { children := [c.clause] } := by
    rw [QueryForm.root, OrForm.root, AndForm.root]
  refine parseWithin_ok_iff.2 ⟨q, by rw [hq]; exact htokens, hroot, ?_⟩
  simp only [Group.depth, Group.toClause, Clause.depth, deepest]
  omega

/-! ## Negations -/

/-- The nodes of an accepted query are those of the clauses written in it, and such a node is negated
exactly when a `NOT` stands in front of its clause. A run `w` of marks that begins with a sign may
also stand after the colon of a field. It then gives the node it would give in front of the field,
but for the negation, which it never brings: the two nodes are the same only if `w` holds no `NOT`. -/
theorem negated_iff_not_in_front {limit : Nat} {text : String} {root : Group}
    {name inside inFront : String} {w : List Lead} {b : BodyForm} :
    (parseWithin limit text = .ok root →
      ∃ q : QueryForm, tokenize text = .ok q.tokens ∧
        List.Forall₂ (fun (c : ClauseForm) (n : Clause) =>
          n = c.clause ∧ (n.marks.negated = true ↔ .not ∈ c.leads)) q.written root.written) ∧
    (presence? name = none → w.head? ≠ some .not →
      tokenize inside = .ok (.term name :: .colon :: (leadTokens w ++ b.tokens)) →
      tokenize inFront = .ok (leadTokens w ++ .term name :: .colon :: b.tokens) →
      ∃ n : Clause, n.marks.negated = false ∧ ∀ maxDepth, n.depth < maxDepth →
        parseWithin maxDepth inside = .ok { children := [n] } ∧
          parseWithin maxDepth inFront =
            .ok { children := [n.withNegated (decide (.not ∈ w))] }) := by
  constructor
  · intro h
    obtain ⟨q, hq, rfl, -⟩ := parseWithin_ok_iff.1 h
    refine ⟨q, hq, ?_⟩
    rw [q.written_root, List.forall₂_map_right_iff]
    exact List.forall₂_same.2 fun c _ => ⟨rfl, c.negated_iff⟩
  · intro ordinary signFirst hinside hfront
    let c := b.clauseForm [] (some ⟨name, w, ordinary, signFirst⟩)
    let c' := b.clauseForm w (some ⟨name, [], ordinary, by simp⟩)
    have hclause : c'.clause = c.clause.withNegated (decide (.not ∈ w)) :=
      clause_front b name w ordinary signFirst
    have hnegated : c.clause.marks.negated = false := by
      cases b <;> simp [c, BodyForm.clauseForm, ClauseForm.clause, Clause.marks, headMarks]
    refine ⟨c.clause, hnegated, fun maxDepth hdepth => ⟨?_, ?_⟩⟩
    · refine parseWithin_clause ?_ hdepth
      rw [hinside, BodyForm.tokens_clauseForm]
      rfl
    · rw [← hclause]
      refine parseWithin_clause ?_ (by rwa [hclause, depth_withNegated])
      rw [hfront, BodyForm.tokens_clauseForm]
      rfl

/-- A group after three marks, of which the last sign counts. The negation of `b` stands in front of
its clause and is kept in both texts. -/
theorem negated_iff_not_in_front_group :
    (∃ q : QueryForm, tokenize "f:-NOT +(a !b)" = .ok q.tokens ∧
      List.Forall₂ (fun (c : ClauseForm) (n : Clause) =>
        n = c.clause ∧ (n.marks.negated = true ↔ .not ∈ c.leads)) q.written
        [.group { field := some "f", occur := some .required } none true
            [.leaf {} (.term "a" false), .leaf { negated := true } (.term "b" false)],
          .leaf {} (.term "a" false), .leaf { negated := true } (.term "b" false)]) ∧
      ∃ n maxDepth, n.marks.negated = false ∧
        parseWithin maxDepth "f:-NOT +(a !b)" = .ok { children := [n] } ∧
        parseWithin maxDepth "-NOT +f:(a !b)" = .ok { children := [n.withNegated true] } := by
  have hparse : parse "f:-NOT +(a !b)" = .ok
      { children :=
          [.group { field := some "f", occur := some .required } none true
            [.leaf {} (.term "a" false), .leaf { negated := true } (.term "b" false)]] } := by
    decide +kernel
  let w : List Lead := [.sign .prohibited, .not, .sign .required]
  let a : ClauseForm := .value [] none (.term "a")
  let b : ClauseForm := .value [.not] none (.term "b")
  let body : BodyForm := .group (.cons (.last (.last a)) (.cons (.last (.last b)) .nil))
  have hinside : tokenize "f:-NOT +(a !b)" =
      .ok (.term "f" :: .colon :: (leadTokens w ++ body.tokens)) := by
    decide +kernel
  have hfront : tokenize "-NOT +f:(a !b)" =
      .ok (leadTokens w ++ .term "f" :: .colon :: body.tokens) := by
    decide +kernel
  obtain ⟨hwritten, hafter⟩ :=
    @negated_iff_not_in_front _ _ _ "f" "f:-NOT +(a !b)" "-NOT +f:(a !b)" w body
  obtain ⟨n, hn, hread⟩ := hafter (by decide) (by decide) hinside hfront
  obtain ⟨hn₁, hn₂⟩ := hread (n.depth + 1) (Nat.lt_succ_self _)
  exact ⟨hwritten hparse, n, n.depth + 1, hn, hn₁, hn₂⟩

/-- The marks after the colon are read to the value, and the negation among them leaves no trace. -/
theorem not_after_colon_dropped :
    tokenize "f:+NOT x" =
        .ok (.term "f" :: .colon :: (leadTokens [.sign .required, .not] ++ [.term "x"])) ∧
      parse "f:+NOT x" = .ok
        { children := [.leaf { field := some "f", occur := some .required } (.term "x" false)] } ∧
      parse "+NOT f:x" = .ok
        { children :=
            [.leaf { field := some "f", negated := true, occur := some .required }
              (.term "x" false)] } := by
  refine ⟨?_, ?_, ?_⟩ <;> decide +kernel

end SearchQuery
