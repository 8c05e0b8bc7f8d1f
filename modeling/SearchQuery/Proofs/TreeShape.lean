import Mathlib.Data.List.Forall2
import SearchQuery.Proofs.Acceptance

/-!
# SearchQuery.Proofs.TreeShape

The shape of the trees that queries are read to.

A group without parentheses comes from a connective. It has two operands or more and no marks, and
stands where it needs no parentheses: a conjunction among the operands of a disjunction, either of
the two between other clauses. Where it is all there is, the group around it takes its place. All
other groups are written in parentheses, and only these can have a field. A comparison says of one
bound whether it is inclusive, and a range in brackets of both.

* `Group.Shaped`, `Clause.Shaped` — what is said of a node and the nodes directly in it.
* `joinOperands_shaped`           — operands and the group they make.
* `Group.ofSequence_shaped`       — clauses side by side and the group around them.
* `QueryForm.nodes_shaped`        — all nodes of a derivation.
* `QueryForm.ranges_opened`       — its ranges, and the tokens that they begin with.
* `parseWithin_shaped`            — every tree that is read.
-/

namespace SearchQuery

/-! ## Shapes -/

namespace Clause

mutual

/-- A clause and all clauses in it, in the order of the text. -/
def nodes : Clause → List Clause
  | .leaf marks l => [.leaf marks l]
  | .group marks op parens children => .group marks op parens children :: nodesAll children

def nodesAll : List Clause → List Clause
  | [] => []
  | c :: cs => c.nodes ++ nodesAll cs

end

/-- A group without parentheses. -/
def isBare : Clause → Bool
  | .leaf _ _ => false
  | .group _ _ parens _ => !parens

def range? : Clause → Option Range
  | .leaf _ (.range r) => some r
  | _ => none

end Clause

/-- Which groups stand without parentheses directly in which: between other clauses those of both
connectives, in a disjunction only conjunctions, in a conjunction none. -/
def bindsTighter : (inner outer : Option Connective) → Bool
  | some _, none => true
  | some .and, some .or => true
  | _, _ => false

/-- A clause as it may stand in a group with the operator `outer`. -/
def Clause.Fits (outer : Option Connective) (c : Clause) : Prop :=
  c.isBare = true → c.marks = {} ∧ bindsTighter c.op? outer = true

structure Group.Shaped (g : Group) : Prop where
  /-- A connective has at least two operands. -/
  joined : g.op.isSome = true → 2 ≤ g.children.length
  enclosed : g.marks.field.isSome = true → g.parens = true
  fits : ∀ c ∈ g.children, c.Fits g.op
  /-- A lone group gives its place to the group around it. -/
  lifted : g.op = none → ∀ c, g.children = [c] → c.isBare = false

def Clause.Shaped : Clause → Prop
  | .leaf _ (.term _ _) => True
  | .leaf _ (.range r) => r.minInclusive.isSome = true ∨ r.maxInclusive.isSome = true
  | .leaf marks (.presence _) => marks.field.isSome = true
  | .group marks op parens children => Group.Shaped { marks, op, parens, children }

/-- Whether a range begins with this token. -/
def Token.opensRange : Token → Bool
  | .openRange _ => true
  | .compare _ => true
  | _ => false

/-- A range that begins with this token. In brackets both bounds have a flag, the first from the
opening bracket; a comparison sets the flag of its own bound. -/
def Token.Opens : Token → Range → Prop
  | .openRange inclusive, r => r.minInclusive = some inclusive ∧ r.maxInclusive.isSome = true
  | .compare comparison, r => ∃ bound, r = comparison.range bound
  | _, _ => False

open Clause

/-! ## Operands -/

theorem Clause.fits_of_not_bare {c : Clause} (h : c.isBare = false) (outer : Option Connective) :
    c.Fits outer := by
  intro hbare
  rw [h] at hbare
  cases hbare

/-- What needs no parentheses among operands needs none between other clauses. -/
theorem Clause.Fits.beside {op : Connective} {c : Clause} (h : c.Fits (some op)) : c.Fits none := by
  intro hbare
  obtain ⟨hmarks, htighter⟩ := h hbare
  refine ⟨hmarks, ?_⟩
  cases hop : c.op? with
  | none => rw [hop] at htighter; cases htighter
  | some op' => rfl

theorem joinOperands_fits {op : Connective} {outer : Option Connective} {cs : List Clause}
    (hop : bindsTighter (some op) outer = true) (hcs : ∀ c ∈ cs, c.Fits outer) :
    (joinOperands op cs).Fits outer := by
  rw [joinOperands.eq_def]
  split
  · exact hcs _ List.mem_cons_self
  · exact fun _ => ⟨rfl, hop⟩

theorem joinOperands_shaped {op : Connective} {cs : List Clause} (hne : cs ≠ [])
    (hfits : ∀ c ∈ cs, c.Fits (some op)) (hcs : ∀ n ∈ nodesAll cs, n.Shaped) :
    ∀ n ∈ (joinOperands op cs).nodes, n.Shaped := by
  match cs with
  | [] => exact absurd rfl hne
  | [c] => simpa [joinOperands, nodesAll] using hcs
  | c :: d :: cs =>
    intro n hn
    rw [show joinOperands op (c :: d :: cs) = .group {} (some op) false (c :: d :: cs) from rfl,
      nodes] at hn
    rcases List.mem_cons.1 hn with rfl | hn
    · exact ⟨fun _ => by simp, by simp, hfits, by simp⟩
    · exact hcs n hn

theorem ranges_joinOperands (op : Connective) (cs : List Clause) :
    (joinOperands op cs).nodes.filterMap range? = (nodesAll cs).filterMap range? := by
  rw [joinOperands.eq_def]
  split
  · simp [nodesAll]
  · rw [nodes, List.filterMap_cons_none rfl]

/-! ## Sequences -/

/-- Whatever marks it gets, the group around a sequence has its shape. -/
theorem Group.ofSequence_shaped {cs : List Clause} (hfits : ∀ c ∈ cs, c.Fits none)
    (hcs : ∀ n ∈ nodesAll cs, n.Shaped) {marks : Marks} {parens : Bool}
    (henclosed : marks.field.isSome = true → parens = true) :
    ∀ n ∈ (Group.toClause { Group.ofSequence cs with marks, parens }).nodes, n.Shaped := by
  rw [Group.ofSequence.eq_def]
  split
  · rename_i op children
    -- the group that is taken over has the shape already
    have hall : ∀ n ∈ Clause.group {} op false children :: nodesAll children, n.Shaped := by
      simpa [nodesAll, nodes] using hcs
    obtain ⟨hgroup, hchildren⟩ := List.forall_mem_cons.1 hall
    intro n hn
    rcases List.mem_cons.1 hn with rfl | hn
    · exact ⟨hgroup.joined, henclosed, hgroup.fits, hgroup.lifted⟩
    · exact hchildren n hn
  · rename_i hlone
    -- a group without parentheses has no marks here, so a lone one would have been taken over
    have hlone' : ∀ c, cs = [c] → c.isBare ≠ true := by
      rintro c rfl hbare
      obtain ⟨hmarks, -⟩ := hfits c List.mem_cons_self hbare
      cases c with
      | leaf _ _ => cases hbare
      | group marks op parens children =>
        obtain rfl : marks = {} := hmarks
        obtain rfl : parens = false := by simpa [isBare] using hbare
        exact hlone _ _ rfl
    intro n hn
    rcases List.mem_cons.1 hn with rfl | hn
    · refine ⟨fun hop => (by cases hop), henclosed, hfits, fun _ c hc => ?_⟩
      exact Bool.eq_false_iff.2 fun hbare => hlone' c hc hbare
    · exact hcs n hn

theorem ranges_ofSequence (cs : List Clause) :
    (nodesAll (Group.ofSequence cs).children).filterMap range? =
      (nodesAll cs).filterMap range? := by
  rw [Group.ofSequence.eq_def]
  split
  · rw [nodesAll, nodesAll, List.append_nil, nodes, List.filterMap_cons_none rfl]
  · rfl

/-! ## Derivations -/

theorem ClauseForm.not_bare (c : ClauseForm) : c.clause.isBare = false := by
  cases c <;> rw [ClauseForm.clause] <;> rfl

theorem AndForm.operands_fit (outer : Option Connective) :
    ∀ (a : AndForm), ∀ c ∈ a.operands, c.Fits outer
  | .last d, c, hc => by
    rw [AndForm.operands] at hc
    rw [List.mem_singleton.1 hc]
    exact fits_of_not_bare d.not_bare outer
  | .and d a, c, hc => by
    rw [AndForm.operands] at hc
    rcases List.mem_cons.1 hc with rfl | hc
    · exact fits_of_not_bare d.not_bare outer
    · exact a.operands_fit outer c hc

theorem OrForm.operands_fit : ∀ (o : OrForm), ∀ c ∈ o.operands, c.Fits (some .or)
  | .last a, c, hc => by
    rw [OrForm.operands] at hc
    rw [List.mem_singleton.1 hc, a.clause_eq]
    exact joinOperands_fits rfl (a.operands_fit _)
  | .or a o, c, hc => by
    rw [OrForm.operands] at hc
    rcases List.mem_cons.1 hc with rfl | hc
    · rw [a.clause_eq]
      exact joinOperands_fits rfl (a.operands_fit _)
    · exact o.operands_fit c hc

theorem QueryForm.clauses_fit : ∀ (q : QueryForm), ∀ c ∈ q.clauses, c.Fits none
  | .nil, c, hc => by rw [QueryForm.clauses] at hc; cases hc
  | .cons o q, c, hc => by
    rw [QueryForm.clauses] at hc
    rcases List.mem_cons.1 hc with rfl | hc
    · rw [o.clause_eq]
      exact joinOperands_fits rfl fun d hd => (o.operands_fit d hd).beside
    · exact q.clauses_fit c hc

theorem ValueForm.shaped (v : ValueForm) (marks : Marks) : (Clause.leaf marks v.leaf).Shaped := by
  cases v with
  | term s => trivial
  | phrase s => trivial
  | range i min max j => exact .inl rfl
  | compare comparison bound => cases comparison <;> simp [ValueForm.leaf, Shaped]

mutual

theorem QueryForm.nodes_shaped : ∀ (q : QueryForm), ∀ n ∈ nodesAll q.clauses, n.Shaped
  | .nil => by rw [QueryForm.clauses, nodesAll]; exact fun n hn => by cases hn
  | .cons o q => by
    rw [QueryForm.clauses, nodesAll, o.clause_eq]
    exact List.forall_mem_append.2
      ⟨joinOperands_shaped o.operands_ne_nil o.operands_fit o.nodes_shaped, q.nodes_shaped⟩

theorem OrForm.nodes_shaped : ∀ (o : OrForm), ∀ n ∈ nodesAll o.operands, n.Shaped
  | .last a => by
    rw [OrForm.operands, nodesAll, nodesAll, List.append_nil, a.clause_eq]
    exact joinOperands_shaped a.operands_ne_nil (a.operands_fit _) a.nodes_shaped
  | .or a o => by
    rw [OrForm.operands, nodesAll, a.clause_eq]
    exact List.forall_mem_append.2
      ⟨joinOperands_shaped a.operands_ne_nil (a.operands_fit _) a.nodes_shaped, o.nodes_shaped⟩

theorem AndForm.nodes_shaped : ∀ (a : AndForm), ∀ n ∈ nodesAll a.operands, n.Shaped
  | .last c => by
    rw [AndForm.operands, nodesAll, nodesAll, List.append_nil]
    exact c.nodes_shaped
  | .and c a => by
    rw [AndForm.operands, nodesAll]
    exact List.forall_mem_append.2 ⟨c.nodes_shaped, a.nodes_shaped⟩

theorem ClauseForm.nodes_shaped : ∀ (c : ClauseForm), ∀ n ∈ c.clause.nodes, n.Shaped
  | .group leads head q => by
    rw [ClauseForm.clause, q.root_eq]
    exact Group.ofSequence_shaped q.clauses_fit q.nodes_shaped fun _ => rfl
  | .value leads head v => by
    rw [ClauseForm.clause, nodes]
    exact List.forall_mem_singleton.2 (v.shaped _)
  | .presence leads p target => by
    rw [ClauseForm.clause, nodes]
    exact List.forall_mem_singleton.2 rfl

end

/-! ## Ranges -/

theorem filter_leadTokens (ls : List Lead) : (leadTokens ls).filter Token.opensRange = [] := by
  refine List.filter_eq_nil_iff.2 fun t ht => ?_
  obtain ⟨l, -, rfl⟩ := List.mem_map.1 ht
  cases l <;> simp [Lead.token, Token.opensRange]

theorem filter_headTokens (head : Option FieldHead) :
    (headTokens head).filter Token.opensRange = [] := by
  cases head with
  | none => rfl
  | some h => simp [headTokens, Token.opensRange, filter_leadTokens]

theorem BoundForm.filter_tokens (b : BoundForm) : b.tokens.filter Token.opensRange = [] := by
  cases b <;> rfl

theorem ValueForm.ranges_opened (v : ValueForm) (marks : Marks) :
    List.Forall₂ Token.Opens (v.tokens.filter Token.opensRange)
      ([Clause.leaf marks v.leaf].filterMap range?) := by
  cases v with
  | term s => exact .nil
  | phrase s => exact .nil
  | range i min max j =>
    have htokens : (ValueForm.range i min max j).tokens.filter Token.opensRange =
        [.openRange i] := by
      simp [ValueForm.tokens, List.filter_cons, Token.opensRange, BoundForm.filter_tokens]
    rw [htokens]
    exact .cons ⟨rfl, rfl⟩ .nil
  | compare comparison bound =>
    have htokens : (ValueForm.compare comparison bound).tokens.filter Token.opensRange =
        [.compare comparison] := by
      simp [ValueForm.tokens, List.filter_cons, Token.opensRange, BoundForm.filter_tokens]
    rw [htokens, ValueForm.leaf_compare]
    exact .cons ⟨bound.bound, rfl⟩ .nil

mutual

theorem QueryForm.ranges_opened : ∀ (q : QueryForm),
    List.Forall₂ Token.Opens (q.tokens.filter Token.opensRange)
      ((nodesAll q.clauses).filterMap range?)
  | .nil => by rw [QueryForm.tokens, QueryForm.clauses, nodesAll]; exact .nil
  | .cons o q => by
    rw [QueryForm.tokens, QueryForm.clauses, nodesAll, List.filter_append, List.filterMap_append,
      o.clause_eq, ranges_joinOperands]
    exact List.rel_append o.ranges_opened q.ranges_opened

theorem OrForm.ranges_opened : ∀ (o : OrForm),
    List.Forall₂ Token.Opens (o.tokens.filter Token.opensRange)
      ((nodesAll o.operands).filterMap range?)
  | .last a => by
    rw [OrForm.tokens, OrForm.operands, nodesAll, nodesAll, List.append_nil, a.clause_eq,
      ranges_joinOperands]
    exact a.ranges_opened
  | .or a o => by
    rw [OrForm.tokens, OrForm.operands, nodesAll, List.filter_append, List.filterMap_append,
      a.clause_eq, ranges_joinOperands]
    exact List.rel_append a.ranges_opened o.ranges_opened

theorem AndForm.ranges_opened : ∀ (a : AndForm),
    List.Forall₂ Token.Opens (a.tokens.filter Token.opensRange)
      ((nodesAll a.operands).filterMap range?)
  | .last c => by
    rw [AndForm.tokens, AndForm.operands, nodesAll, nodesAll, List.append_nil]
    exact c.ranges_opened
  | .and c a => by
    rw [AndForm.tokens, AndForm.operands, nodesAll, List.filter_append, List.filterMap_append]
    exact List.rel_append c.ranges_opened a.ranges_opened

theorem ClauseForm.ranges_opened : ∀ (c : ClauseForm),
    List.Forall₂ Token.Opens (c.tokens.filter Token.opensRange)
      (c.clause.nodes.filterMap range?)
  | .group leads head q => by
    have htokens : (ClauseForm.group leads head q).tokens.filter Token.opensRange =
        q.tokens.filter Token.opensRange := by
      simp [ClauseForm.tokens, filter_leadTokens, filter_headTokens, Token.opensRange]
    rw [htokens, ClauseForm.clause, nodes, List.filterMap_cons_none rfl, q.root_eq,
      ranges_ofSequence]
    exact q.ranges_opened
  | .value leads head v => by
    rw [ClauseForm.tokens, ClauseForm.clause, nodes, List.filter_append, List.filter_append,
      filter_leadTokens, filter_headTokens]
    exact v.ranges_opened _
  | .presence leads p target => by
    have htokens : (ClauseForm.presence leads p target).tokens.filter Token.opensRange = [] := by
      cases target <;>
        simp [ClauseForm.tokens, filter_leadTokens, Token.opensRange, TargetForm.token]
    rw [htokens, ClauseForm.clause, nodes]
    exact .nil

end

/-! ## Trees -/

/-- The root of a tree that is read has no marks and no parentheses, and every node has its shape.
The ranges stand in the order of the tokens that they begin with, and where such a token is a
bracket both bounds of the range say whether they are inclusive. -/
theorem parseWithin_shaped {maxDepth : Nat} {text : String} {root : Group}
    (h : parseWithin maxDepth text = .ok root) :
    root.marks = {} ∧ root.parens = false ∧ (∀ n ∈ root.toClause.nodes, n.Shaped) ∧
      ∃ ts, tokenize text = .ok ts ∧
        List.Forall₂ Token.Opens (ts.filter Token.opensRange)
          (root.toClause.nodes.filterMap Clause.range?) := by
  obtain ⟨q, htokens, rfl, -⟩ := parseWithin_ok_iff.1 h
  obtain ⟨hmarks, -, hparens, -⟩ := Clause.group.inj q.toClause_root
  refine ⟨hmarks, hparens, ?_, q.tokens, htokens, ?_⟩
  · rw [q.toClause_root, q.root_eq]
    exact Group.ofSequence_shaped q.clauses_fit q.nodes_shaped fun hfield => by cases hfield
  · rw [q.toClause_root, q.root_eq, nodes, List.filterMap_cons_none rfl, ranges_ofSequence]
    exact q.ranges_opened

/-- The disjunction is the whole query and the conjunction in it stands without parentheses. In the
group with a field a disjunction stands beside a range in brackets, and the second of its operands
is a comparison. -/
theorem parseWithin_shaped_nested :
    let text := "-a OR b AND f:(c OR >1 \x7b2 TO *])"
    let ranges : Clause := .group { field := some "f" } none true
      [.group {} (some .or) false
          [.leaf {} (.term "c" false),
            .leaf {} (.range { min := some "1", minInclusive := some false })],
        .leaf {} (.range
          { min := some "2", minInclusive := some false, maxInclusive := some true })]
    let root : Group :=
      { op := some .or
        children :=
          [.leaf { occur := some .prohibited } (.term "a" false),
            .group {} (some .and) false [.leaf {} (.term "b" false), ranges]] }
    parseWithin 4 text = .ok root ∧
      root.marks = {} ∧ root.parens = false ∧ (∀ n ∈ root.toClause.nodes, n.Shaped) ∧
      ∃ ts, tokenize text = .ok ts ∧
        List.Forall₂ Token.Opens (ts.filter Token.opensRange)
          (root.toClause.nodes.filterMap Clause.range?) := by
  intro text ranges root
  have hread : parseWithin 4 text = .ok root := by decide +kernel
  exact ⟨hread, parseWithin_shaped hread⟩

end SearchQuery
