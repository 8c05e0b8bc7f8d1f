import SearchQuery.Clause.Builder

/-!
# SearchQuery.Proofs.Grammar

The grammar of queries, as the trees of its derivations.

    query   :=  or*
    or      :=  and (OR and)*
    and     :=  clause (AND clause)*
    clause  :=  lead* [head] ( '(' query ')' | value )  |  lead* presence
    lead    :=  + | - | NOT
    head    :=  term ':' [(+|-) lead*]                        for a field that asks for no presence
    presence := (_exists_|_missing_) ':' (term | phrase)
    value   :=  term | phrase | ('['|'{') bound TO bound (']'|'}') | (>|>=|<|<=) bound
    bound   :=  term | phrase | (+|-) term                    where the term is not `*`

A form is a derivation. It has the tokens it derives (`tokens`) and the clauses it stands for
(`clause`, `clauses`, `QueryForm.root`), which are read off the form itself.

* `OrForm.clause_eq`, `QueryForm.root_eq` — the builder puts the same clauses together.
* `QueryForm.unique`                      — no two forms have the same tokens.
-/

namespace SearchQuery

/-! ## Parts without clauses in them -/

/-- A mark in front of a clause. -/
inductive Lead where
  | sign (occur : Occur)
  | not
  deriving DecidableEq

def Lead.token : Lead → Token
  | .sign o => .sign o
  | .not => .not

def Lead.occur? : Lead → Option Occur
  | .sign o => some o
  | .not => none

/-- Of several signs the last one counts. -/
def lastSign (leads : List Lead) : Option Occur :=
  (leads.filterMap Lead.occur?).getLast?

def leadTokens (leads : List Lead) : List Token :=
  leads.map Lead.token

/-- A field in front of a value, with the marks after its colon. These begin with a sign. -/
@[ext] structure FieldHead where
  name : String
  inner : List Lead
  ordinary : presence? name = none
  signFirst : inner.head? ≠ some .not

def headTokens : Option FieldHead → List Token
  | none => []
  | some h => .term h.name :: .colon :: leadTokens h.inner

/-- The marks of a clause. A sign in front of the field counts more than one after the colon, where
a negation has no effect. -/
def headMarks (leads : List Lead) (head : Option FieldHead) : Marks where
  field := head.map FieldHead.name
  negated := decide (.not ∈ leads)
  occur := (lastSign leads).or (head.bind fun h => lastSign h.inner)

inductive BoundForm where
  | term (text : String)
  | phrase (text : String)
  | signed (sign : Occur) (text : String) (closed : text ≠ "*")

namespace BoundForm

def tokens : BoundForm → List Token
  | .term s => [.term s]
  | .phrase s => [.phrase s]
  | .signed o s _ => [.sign o, .term s]

/-- The text of the bound; a star on its own is an open one. -/
def bound : BoundForm → Option String
  | .term s => if s = "*" then none else some s
  | .phrase s => some s
  | .signed o s _ => some (o.text ++ s)

end BoundForm

inductive ValueForm where
  | term (text : String)
  | phrase (text : String)
  | range (minInclusive : Bool) (min max : BoundForm) (maxInclusive : Bool)
  | compare (comparison : Comparison) (bound : BoundForm)

namespace ValueForm

def tokens : ValueForm → List Token
  | .term s => [.term s]
  | .phrase s => [.phrase s]
  | .range minInclusive min max maxInclusive =>
    .openRange minInclusive :: min.tokens ++ .to :: max.tokens ++ [.closeRange maxInclusive]
  | .compare comparison bound => .compare comparison :: bound.tokens

def leaf : ValueForm → Leaf
  | .term s => .term s false
  | .phrase s => .term s true
  | .range minInclusive min max maxInclusive =>
    .range
      { min := min.bound, max := max.bound, minInclusive := some minInclusive,
        maxInclusive := some maxInclusive }
  | .compare .gt bound => .range { min := bound.bound, minInclusive := some false }
  | .compare .ge bound => .range { min := bound.bound, minInclusive := some true }
  | .compare .lt bound => .range { max := bound.bound, maxInclusive := some false }
  | .compare .le bound => .range { max := bound.bound, maxInclusive := some true }

theorem leaf_compare (comparison : Comparison) (bound : BoundForm) :
    (compare comparison bound).leaf = .range (comparison.range bound.bound) := by
  cases comparison <;> rfl

end ValueForm

/-- The field that a presence test is about. -/
inductive TargetForm where
  | term (text : String)
  | phrase (text : String)

namespace TargetForm

def token : TargetForm → Token
  | .term s => .term s
  | .phrase s => .phrase s

def name : TargetForm → String
  | .term s => s
  | .phrase s => s

end TargetForm

/-! ## Queries -/

mutual

inductive QueryForm where
  | nil
  | cons (first : OrForm) (rest : QueryForm)

inductive OrForm where
  | last (operand : AndForm)
  | or (operand : AndForm) (rest : OrForm)

inductive AndForm where
  | last (operand : ClauseForm)
  | and (operand : ClauseForm) (rest : AndForm)

inductive ClauseForm where
  | group (leads : List Lead) (head : Option FieldHead) (body : QueryForm)
  | value (leads : List Lead) (head : Option FieldHead) (value : ValueForm)
  | presence (leads : List Lead) (presence : Presence) (target : TargetForm)

end

mutual

def QueryForm.tokens : QueryForm → List Token
  | .nil => []
  | .cons first rest => first.tokens ++ rest.tokens

def OrForm.tokens : OrForm → List Token
  | .last operand => operand.tokens
  | .or operand rest => operand.tokens ++ .join .or :: rest.tokens

def AndForm.tokens : AndForm → List Token
  | .last operand => operand.tokens
  | .and operand rest => operand.tokens ++ .join .and :: rest.tokens

def ClauseForm.tokens : ClauseForm → List Token
  | .group leads head body =>
    leadTokens leads ++ (headTokens head ++ .openParen :: (body.tokens ++ [.closeParen]))
  | .value leads head value => leadTokens leads ++ (headTokens head ++ value.tokens)
  | .presence leads presence target =>
    leadTokens leads ++ [.term presence.keyword, .colon, target.token]

end

mutual

/-- The tree of a whole query. -/
def QueryForm.root : QueryForm → Group
  | .nil => {}
  | .cons first .nil => first.root
  | .cons first (.cons second rest) =>
    { children := first.clause :: second.clause :: rest.clauses }

/-- The clauses of a query, side by side. -/
def QueryForm.clauses : QueryForm → List Clause
  | .nil => []
  | .cons first rest => first.clause :: rest.clauses

/-- The tree of a query that has nothing else in it. A disjunction or a conjunction is this tree
itself, not a group in it. -/
def OrForm.root : OrForm → Group
  | .last operand => operand.root
  | .or operand rest => { op := some .or, children := operand.clause :: rest.operands }

/-- One operand stands for itself, several make a group. -/
def OrForm.clause : OrForm → Clause
  | .last operand => operand.clause
  | .or operand rest => .group {} (some .or) false (operand.clause :: rest.operands)

def OrForm.operands : OrForm → List Clause
  | .last operand => [operand.clause]
  | .or operand rest => operand.clause :: rest.operands

def AndForm.root : AndForm → Group
  | .last operand => { children := [operand.clause] }
  | .and operand rest => { op := some .and, children := operand.clause :: rest.operands }

def AndForm.clause : AndForm → Clause
  | .last operand => operand.clause
  | .and operand rest => .group {} (some .and) false (operand.clause :: rest.operands)

def AndForm.operands : AndForm → List Clause
  | .last operand => [operand.clause]
  | .and operand rest => operand.clause :: rest.operands

def ClauseForm.clause : ClauseForm → Clause
  | .group leads head body => .group (headMarks leads head) body.root.op true body.root.children
  | .value leads head value => .leaf (headMarks leads head) value.leaf
  | .presence leads presence target =>
    .leaf { headMarks leads none with field := some target.name } (.presence presence)

end

/-! ## The same with the functions of the builder -/

theorem AndForm.operands_ne_nil (a : AndForm) : a.operands ≠ [] := by
  cases a <;> simp [AndForm.operands]

theorem OrForm.operands_ne_nil (o : OrForm) : o.operands ≠ [] := by
  cases o <;> simp [OrForm.operands]

theorem joinOperands_cons {op : Connective} {c : Clause} {cs : List Clause} (h : cs ≠ []) :
    joinOperands op (c :: cs) = .group {} (some op) false (c :: cs) := by
  cases cs with
  | nil => exact absurd rfl h
  | cons d ds => rfl

theorem AndForm.clause_eq (a : AndForm) : a.clause = joinOperands .and a.operands := by
  cases a with
  | last c => rw [AndForm.clause, AndForm.operands, joinOperands]
  | and c a => rw [AndForm.clause, AndForm.operands, joinOperands_cons a.operands_ne_nil]

theorem OrForm.clause_eq (o : OrForm) : o.clause = joinOperands .or o.operands := by
  cases o with
  | last a => rw [OrForm.clause, OrForm.operands, joinOperands]
  | or a o => rw [OrForm.clause, OrForm.operands, joinOperands_cons o.operands_ne_nil]

/-- A clause that is written in the text is no group without parentheses. -/
theorem ClauseForm.bare_ne_clause (c : ClauseForm) (m : Marks) (op : Option Connective)
    (children : List Clause) : .group m op false children ≠ c.clause := by
  cases c <;> simp [ClauseForm.clause]

theorem ClauseForm.ofSequence_clause (c : ClauseForm) :
    Group.ofSequence [c.clause] = { children := [c.clause] } := by
  rw [Group.ofSequence.eq_def]
  split
  · rename_i op children hlifted
    exact absurd (List.cons.inj hlifted).1.symm (c.bare_ne_clause {} op children)
  · rfl

theorem AndForm.root_eq (a : AndForm) : a.root = Group.ofSequence [a.clause] := by
  cases a with
  | last c => rw [AndForm.root, AndForm.clause, c.ofSequence_clause]
  | and c a => rw [AndForm.root, AndForm.clause, Group.ofSequence.eq_def]

theorem OrForm.root_eq (o : OrForm) : o.root = Group.ofSequence [o.clause] := by
  cases o with
  | last a => rw [OrForm.root, OrForm.clause, a.root_eq]
  | or a o => rw [OrForm.root, OrForm.clause, Group.ofSequence.eq_def]

theorem QueryForm.root_eq (q : QueryForm) : q.root = Group.ofSequence q.clauses := by
  rcases q with - | ⟨o, - | ⟨o', q⟩⟩
  · rw [QueryForm.root, QueryForm.clauses, Group.ofSequence.eq_def]
  · rw [QueryForm.root, QueryForm.clauses, QueryForm.clauses, o.root_eq]
  · simp [QueryForm.root, QueryForm.clauses, Group.ofSequence]

/-! ## First tokens -/

/-- Whether a clause can begin with a token. -/
def Token.starts : Token → Bool
  | .term _ | .phrase _ | .sign _ | .not | .compare _ | .openParen | .openRange _ => true
  | _ => false

theorem lead_starts (l : Lead) : l.token.starts = true := by
  cases l <;> rfl

/-- A part that begins with a lead, a field or a value begins as a clause does. -/
theorem front_head (leads : List Lead) (head : Option FieldHead) {t : Token} (ts : List Token)
    (ht : t.starts = true) :
    ∃ u us, leadTokens leads ++ (headTokens head ++ t :: ts) = u :: us ∧ u.starts = true := by
  cases leads with
  | cons l ls => exact ⟨l.token, _, rfl, lead_starts l⟩
  | nil =>
    cases head with
    | some h => exact ⟨.term h.name, _, rfl, rfl⟩
    | none => exact ⟨t, ts, rfl, ht⟩

theorem ValueForm.head (v : ValueForm) : ∃ t ts, v.tokens = t :: ts ∧ t.starts = true := by
  cases v with
  | term s => exact ⟨_, _, rfl, rfl⟩
  | phrase s => exact ⟨_, _, rfl, rfl⟩
  | range i min max i' => exact ⟨_, _, rfl, rfl⟩
  | compare c b => exact ⟨_, _, rfl, rfl⟩

theorem ClauseForm.head (c : ClauseForm) : ∃ t ts, c.tokens = t :: ts ∧ t.starts = true := by
  cases c with
  | group leads head body =>
    rw [ClauseForm.tokens]
    exact front_head leads head _ rfl
  | value leads head v =>
    obtain ⟨t, ts, hv, ht⟩ := v.head
    rw [ClauseForm.tokens, hv]
    exact front_head leads head ts ht
  | presence leads p target =>
    rw [ClauseForm.tokens]
    exact front_head leads none _ rfl

theorem AndForm.head (a : AndForm) : ∃ t ts, a.tokens = t :: ts ∧ t.starts = true := by
  cases a with
  | last c => rw [AndForm.tokens]; exact c.head
  | and c a =>
    obtain ⟨t, ts, hc, ht⟩ := c.head
    exact ⟨t, _, by rw [AndForm.tokens, hc]; rfl, ht⟩

theorem OrForm.head (o : OrForm) : ∃ t ts, o.tokens = t :: ts ∧ t.starts = true := by
  cases o with
  | last a => rw [OrForm.tokens]; exact a.head
  | or a o =>
    obtain ⟨t, ts, ha, ht⟩ := a.head
    exact ⟨t, _, by rw [OrForm.tokens, ha]; rfl, ht⟩

/-! ## One derivation -/

/-- None of these tokens comes first. -/
def Avoids (bad : List Token) (ts : List Token) : Prop :=
  ∀ t ∈ bad, ts.head? ≠ some t

theorem Avoids.mono {bad bad' ts : List Token} (h : Avoids bad ts) (hs : bad' ⊆ bad) :
    Avoids bad' ts :=
  fun t ht => h t (hs ht)

theorem avoids_cons {bad : List Token} {t : Token} (ts : List Token) (h : t ∉ bad) :
    Avoids bad (t :: ts) := by
  intro u hu heq
  obtain rfl : t = u := Option.some.inj heq
  exact h hu

/-- Tokens that go on with a clause, not with a lead. -/
def AfterLeads (ts : List Token) : Prop :=
  ∀ l : Lead, ts.head? ≠ some l.token

theorem leadTokens_unique {ls ls' : List Lead} {r r' : List Token}
    (h : leadTokens ls ++ r = leadTokens ls' ++ r') (hr : AfterLeads r) (hr' : AfterLeads r') :
    ls = ls' ∧ r = r' := by
  induction ls generalizing ls' with
  | nil =>
    cases ls' with
    | nil => exact ⟨rfl, h⟩
    | cons l' ls' => exact absurd (by rw [show r = _ from h]; rfl) (hr l')
  | cons l ls ih =>
    cases ls' with
    | nil => exact absurd (by rw [show r' = _ from h.symm]; rfl) (hr' l)
    | cons l' ls' =>
      obtain ⟨hl, hrest⟩ := List.cons.inj h
      obtain ⟨rfl, rfl⟩ := ih hrest
      refine ⟨?_, rfl⟩
      cases l <;> cases l' <;> simp [Lead.token] at hl ⊢
      exact hl

theorem BoundForm.unique {b b' : BoundForm} {r r' : List Token}
    (h : b.tokens ++ r = b'.tokens ++ r') : b = b' ∧ r = r' := by
  cases b <;> cases b' <;> simp_all [BoundForm.tokens]

theorem ValueForm.unique {v v' : ValueForm} {r r' : List Token}
    (h : v.tokens ++ r = v'.tokens ++ r') : v = v' ∧ r = r' := by
  cases v with
  | term s => cases v' <;> simp_all [ValueForm.tokens]
  | phrase s => cases v' <;> simp_all [ValueForm.tokens]
  | range i min max j =>
    cases v' with
    | range i' min' max' j' =>
      simp only [ValueForm.tokens, List.cons_append, List.append_assoc, List.cons.injEq] at h
      obtain ⟨hi, hmin⟩ := h
      obtain ⟨rfl, hto⟩ := BoundForm.unique hmin
      obtain ⟨rfl, hclose⟩ := BoundForm.unique (List.cons.inj hto).2
      obtain ⟨hj, rfl⟩ := List.cons.inj hclose
      obtain rfl := Token.openRange.inj hi
      obtain rfl := Token.closeRange.inj hj
      exact ⟨rfl, rfl⟩
    | _ => simp [ValueForm.tokens] at h
  | compare c b =>
    cases v' with
    | compare c' b' =>
      simp only [ValueForm.tokens, List.cons_append, List.cons.injEq] at h
      obtain ⟨rfl, rfl⟩ := BoundForm.unique h.2
      obtain rfl := Token.compare.inj h.1
      exact ⟨rfl, rfl⟩
    | _ => simp [ValueForm.tokens] at h

theorem ValueForm.afterLeads (v : ValueForm) (r : List Token) : AfterLeads (v.tokens ++ r) := by
  intro l
  cases v <;> cases l <;> simp [ValueForm.tokens, Lead.token]

/-- A clause without its leads. -/
def ClauseForm.body : ClauseForm → List Token
  | .group _ head q => headTokens head ++ .openParen :: (q.tokens ++ [.closeParen])
  | .value _ head v => headTokens head ++ v.tokens
  | .presence _ p target => [.term p.keyword, .colon, target.token]

def ClauseForm.leads : ClauseForm → List Lead
  | .group ls _ _ => ls
  | .value ls _ _ => ls
  | .presence ls _ _ => ls

theorem ClauseForm.tokens_eq (c : ClauseForm) : c.tokens = leadTokens c.leads ++ c.body := by
  cases c <;> rw [ClauseForm.tokens] <;> rfl

theorem ClauseForm.body_afterLeads (c : ClauseForm) (r : List Token) :
    AfterLeads (c.body ++ r) := by
  intro l
  cases c with
  | group leads head body =>
    cases head <;> cases l <;> simp [ClauseForm.body, headTokens, Lead.token]
  | value leads head v =>
    cases head with
    | none => exact v.afterLeads r l
    | some h => cases l <;> simp [ClauseForm.body, headTokens, Lead.token]
  | presence leads p target => cases l <;> simp [ClauseForm.body, Lead.token]

theorem ClauseForm.tokens_unique {c c' : ClauseForm} {r r' : List Token}
    (h : c.tokens ++ r = c'.tokens ++ r') : c.leads = c'.leads ∧ c.body ++ r = c'.body ++ r' := by
  rw [ClauseForm.tokens_eq, ClauseForm.tokens_eq, List.append_assoc, List.append_assoc] at h
  exact leadTokens_unique h (c.body_afterLeads r) (c'.body_afterLeads r')

/-- Tokens that go on with a value or a group, not with a lead or a field. -/
def AfterHead (ts : List Token) : Prop :=
  AfterLeads ts ∧ ∀ name rest, ts ≠ .term name :: .colon :: rest

theorem afterHead_openParen (ts : List Token) : AfterHead (.openParen :: ts) := by
  refine ⟨fun l => ?_, fun name rest => by simp⟩
  cases l <;> simp [Lead.token]

theorem ValueForm.afterHead (v : ValueForm) {r : List Token} (hr : Avoids [.colon] r) :
    AfterHead (v.tokens ++ r) := by
  refine ⟨v.afterLeads r, fun name rest heq => ?_⟩
  cases v with
  | term s =>
    obtain ⟨_, hrest⟩ := List.cons.inj heq
    exact hr .colon (by simp) (by rw [show r = _ from hrest]; rfl)
  | _ => simp [ValueForm.tokens] at heq

theorem headTokens_unique {h h' : Option FieldHead} {x x' : List Token}
    (heq : headTokens h ++ x = headTokens h' ++ x') (hx : AfterHead x) (hx' : AfterHead x') :
    h = h' ∧ x = x' := by
  cases h with
  | none =>
    cases h' with
    | none => exact ⟨rfl, heq⟩
    | some k' => exact absurd heq (hx.2 _ _)
  | some k =>
    cases h' with
    | none => exact absurd heq.symm (hx'.2 _ _)
    | some k' =>
      simp only [headTokens, List.cons_append, List.cons.injEq, Token.term.injEq, true_and] at heq
      obtain ⟨hinner, hrest⟩ := leadTokens_unique heq.2 hx.1 hx'.1
      exact ⟨congrArg some (FieldHead.ext heq.1 hinner), hrest⟩

theorem presence?_keyword (p : Presence) : presence? p.keyword = some p := by
  cases p <;> rfl

theorem keyword_of_presence? {name : String} {p : Presence} (h : presence? name = some p) :
    name = p.keyword := by
  unfold presence? at h
  split at h
  · rename_i hname
    cases h
    exact hname
  · split at h
    · rename_i hname
      cases h
      exact hname
    · cases h

/-- A presence test does not begin as an ordinary field does. -/
theorem presence_ne_headTokens (p : Presence) (ts : List Token) (h : Option FieldHead)
    {x : List Token} (hx : AfterHead x) : .term p.keyword :: .colon :: ts ≠ headTokens h ++ x := by
  intro heq
  cases h with
  | none => exact hx.2 _ _ heq.symm
  | some k =>
    obtain ⟨hname, _⟩ := List.cons.inj heq
    have hk := k.ordinary
    rw [← Token.term.inj hname, presence?_keyword] at hk
    cases hk

theorem group_ne_value (h h' : Option FieldHead) (x : List Token) (v : ValueForm) {r : List Token}
    (hr : Avoids [.colon] r) :
    headTokens h ++ .openParen :: x ≠ headTokens h' ++ (v.tokens ++ r) := by
  intro heq
  obtain ⟨_, hx⟩ := headTokens_unique heq (afterHead_openParen x) (v.afterHead hr)
  cases v <;> simp [ValueForm.tokens] at hx

theorem TargetForm.token_inj {a b : TargetForm} (h : a.token = b.token) : a = b := by
  cases a <;> cases b <;> simp_all [TargetForm.token]

/-- Where the clauses after the first ones begin, or the group or the text ends. -/
theorem QueryForm.avoids_join {bad r : List Token} (q : QueryForm)
    (hbad : ∀ t ∈ bad, t.starts = false) (hr : Avoids bad r) : Avoids bad (q.tokens ++ r) := by
  cases q with
  | nil => rw [QueryForm.tokens]; exact hr
  | cons o q =>
    obtain ⟨t, ts, ho, ht⟩ := o.head
    rw [QueryForm.tokens, ho]
    refine avoids_cons _ fun hmem => ?_
    rw [hbad t hmem] at ht
    cases ht

mutual

theorem QueryForm.unique_prefix : ∀ {q q' : QueryForm} {r r' : List Token},
    q.tokens ++ r = q'.tokens ++ r' → (∀ t, r.head? = some t → t = .closeParen) →
    (∀ t, r'.head? = some t → t = .closeParen) → q = q' ∧ r = r'
  | .nil, .nil, r, r', h, _, _ => ⟨rfl, by simpa [QueryForm.tokens] using h⟩
  | .nil, .cons o q, r, r', h, hr, _ => by
    obtain ⟨t, ts, ho, ht⟩ := o.head
    rw [QueryForm.tokens, QueryForm.tokens, ho] at h
    rw [hr t (by rw [show r = _ from h]; rfl)] at ht
    cases ht
  | .cons o q, .nil, r, r', h, _, hr' => by
    obtain ⟨t, ts, ho, ht⟩ := o.head
    rw [QueryForm.tokens, QueryForm.tokens, ho] at h
    rw [hr' t (by rw [show r' = _ from h.symm]; rfl)] at ht
    cases ht
  | .cons o q, .cons o' q', r, r', h, hr, hr' => by
    have avoids : ∀ {r : List Token}, (∀ t, r.head? = some t → t = .closeParen) →
        Avoids [.colon, .join .and, .join .or] r := by
      intro r hr t ht heq
      rw [hr t heq] at ht
      simp at ht
    rw [QueryForm.tokens, QueryForm.tokens, List.append_assoc, List.append_assoc] at h
    obtain ⟨rfl, hrest⟩ := OrForm.unique_prefix h
      (q.avoids_join (by simp [Token.starts]) (avoids hr))
      (q'.avoids_join (by simp [Token.starts]) (avoids hr'))
    obtain ⟨rfl, rfl⟩ := QueryForm.unique_prefix hrest hr hr'
    exact ⟨rfl, rfl⟩

theorem OrForm.unique_prefix : ∀ {o o' : OrForm} {r r' : List Token},
    o.tokens ++ r = o'.tokens ++ r' → Avoids [.colon, .join .and, .join .or] r →
    Avoids [.colon, .join .and, .join .or] r' → o = o' ∧ r = r'
  | .last a, .last a', r, r', h, hr, hr' => by
    rw [OrForm.tokens, OrForm.tokens] at h
    obtain ⟨rfl, rfl⟩ := AndForm.unique_prefix h (hr.mono (by simp)) (hr'.mono (by simp))
    exact ⟨rfl, rfl⟩
  | .last a, .or a' o', r, r', h, hr, hr' => by
    rw [OrForm.tokens, OrForm.tokens, List.append_assoc] at h
    obtain ⟨_, rfl⟩ := AndForm.unique_prefix h (hr.mono (by simp)) (avoids_cons _ (by simp))
    exact absurd rfl (hr (.join .or) (by simp))
  | .or a o, .last a', r, r', h, hr, hr' => by
    rw [OrForm.tokens, OrForm.tokens, List.append_assoc] at h
    obtain ⟨_, rfl⟩ := AndForm.unique_prefix h (avoids_cons _ (by simp)) (hr'.mono (by simp))
    exact absurd rfl (hr' (.join .or) (by simp))
  | .or a o, .or a' o', r, r', h, hr, hr' => by
    rw [OrForm.tokens, OrForm.tokens, List.append_assoc, List.append_assoc] at h
    obtain ⟨rfl, hrest⟩ :=
      AndForm.unique_prefix h (avoids_cons _ (by simp)) (avoids_cons _ (by simp))
    obtain ⟨rfl, rfl⟩ := OrForm.unique_prefix (List.cons.inj hrest).2 hr hr'
    exact ⟨rfl, rfl⟩

theorem AndForm.unique_prefix : ∀ {a a' : AndForm} {r r' : List Token},
    a.tokens ++ r = a'.tokens ++ r' → Avoids [.colon, .join .and] r →
    Avoids [.colon, .join .and] r' → a = a' ∧ r = r'
  | .last c, .last c', r, r', h, hr, hr' => by
    rw [AndForm.tokens, AndForm.tokens] at h
    obtain ⟨rfl, rfl⟩ := ClauseForm.unique_prefix h (hr.mono (by simp)) (hr'.mono (by simp))
    exact ⟨rfl, rfl⟩
  | .last c, .and c' a', r, r', h, hr, hr' => by
    rw [AndForm.tokens, AndForm.tokens, List.append_assoc] at h
    obtain ⟨_, rfl⟩ := ClauseForm.unique_prefix h (hr.mono (by simp)) (avoids_cons _ (by simp))
    exact absurd rfl (hr (.join .and) (by simp))
  | .and c a, .last c', r, r', h, hr, hr' => by
    rw [AndForm.tokens, AndForm.tokens, List.append_assoc] at h
    obtain ⟨_, rfl⟩ := ClauseForm.unique_prefix h (avoids_cons _ (by simp)) (hr'.mono (by simp))
    exact absurd rfl (hr' (.join .and) (by simp))
  | .and c a, .and c' a', r, r', h, hr, hr' => by
    rw [AndForm.tokens, AndForm.tokens, List.append_assoc, List.append_assoc] at h
    obtain ⟨rfl, hrest⟩ :=
      ClauseForm.unique_prefix h (avoids_cons _ (by simp)) (avoids_cons _ (by simp))
    obtain ⟨rfl, rfl⟩ := AndForm.unique_prefix (List.cons.inj hrest).2 hr hr'
    exact ⟨rfl, rfl⟩

theorem ClauseForm.unique_prefix : ∀ {c c' : ClauseForm} {r r' : List Token},
    c.tokens ++ r = c'.tokens ++ r' → Avoids [.colon] r → Avoids [.colon] r' → c = c' ∧ r = r'
  | .group ls h q, .group ls' h' q', r, r', heq, _, _ => by
    obtain ⟨hls, hbody⟩ := ClauseForm.tokens_unique heq
    simp only [ClauseForm.body, List.append_assoc, List.cons_append] at hbody
    obtain ⟨rfl, hopen⟩ := headTokens_unique hbody (afterHead_openParen _) (afterHead_openParen _)
    obtain ⟨rfl, hclose⟩ := QueryForm.unique_prefix (List.cons.inj hopen).2
      (fun t ht => (Option.some.inj ht).symm) (fun t ht => (Option.some.inj ht).symm)
    exact ⟨by rw [show ls = ls' from hls], (List.cons.inj hclose).2⟩
  | .value ls h v, .value ls' h' v', r, r', heq, hr, hr' => by
    obtain ⟨hls, hbody⟩ := ClauseForm.tokens_unique heq
    simp only [ClauseForm.body, List.append_assoc] at hbody
    obtain ⟨rfl, hvalue⟩ := headTokens_unique hbody (v.afterHead hr) (v'.afterHead hr')
    obtain ⟨rfl, rfl⟩ := ValueForm.unique hvalue
    exact ⟨by rw [show ls = ls' from hls], rfl⟩
  | .presence ls p t, .presence ls' p' t', r, r', heq, _, _ => by
    obtain ⟨hls, hbody⟩ := ClauseForm.tokens_unique heq
    simp only [ClauseForm.body, List.cons_append, List.nil_append, List.cons.injEq,
      Token.term.injEq, true_and] at hbody
    obtain ⟨hp, ht, hrest⟩ := hbody
    have hpp : some p = some p' := by rw [← presence?_keyword, hp, presence?_keyword]
    obtain rfl := Option.some.inj hpp
    obtain rfl := TargetForm.token_inj ht
    exact ⟨by rw [show ls = ls' from hls], hrest⟩
  -- clauses of two kinds differ in the token after the leads or in the one after the field
  | .group ls h q, .value ls' h' v', r, r', heq, _, hr' => by
    have hbody := (ClauseForm.tokens_unique heq).2
    simp only [ClauseForm.body, List.append_assoc, List.cons_append] at hbody
    exact absurd hbody (group_ne_value _ _ _ v' hr')
  | .value ls h v, .group ls' h' q', r, r', heq, hr, _ => by
    have hbody := (ClauseForm.tokens_unique heq).2
    simp only [ClauseForm.body, List.append_assoc, List.cons_append] at hbody
    exact absurd hbody.symm (group_ne_value _ _ _ v hr)
  | .group ls h q, .presence ls' p' t', r, r', heq, _, _ => by
    have hbody := (ClauseForm.tokens_unique heq).2
    simp only [ClauseForm.body, List.append_assoc, List.cons_append] at hbody
    exact absurd hbody.symm (presence_ne_headTokens _ _ _ (afterHead_openParen _))
  | .presence ls p t, .group ls' h' q', r, r', heq, _, _ => by
    have hbody := (ClauseForm.tokens_unique heq).2
    simp only [ClauseForm.body, List.append_assoc, List.cons_append] at hbody
    exact absurd hbody (presence_ne_headTokens _ _ _ (afterHead_openParen _))
  | .value ls h v, .presence ls' p' t', r, r', heq, hr, _ => by
    have hbody := (ClauseForm.tokens_unique heq).2
    simp only [ClauseForm.body, List.append_assoc, List.cons_append] at hbody
    exact absurd hbody.symm (presence_ne_headTokens _ _ _ (v.afterHead hr))
  | .presence ls p t, .value ls' h' v', r, r', heq, _, hr' => by
    have hbody := (ClauseForm.tokens_unique heq).2
    simp only [ClauseForm.body, List.append_assoc, List.cons_append] at hbody
    exact absurd hbody (presence_ne_headTokens _ _ _ (v'.afterHead hr'))

end

/-- A list of tokens has at most one derivation. -/
theorem QueryForm.unique {q q' : QueryForm} (h : q.tokens = q'.tokens) : q = q' := by
  have h' : q.tokens ++ [] = q'.tokens ++ [] := by rw [h]
  exact (QueryForm.unique_prefix h' (fun t ht => by cases ht) (fun t ht => by cases ht)).1

end SearchQuery
