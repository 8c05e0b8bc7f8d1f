import SearchQuery.Proofs.Continuation
import SearchQuery.Proofs.DepthLimit
import SearchQuery.Proofs.FirstError

/-!
# SearchQuery.Proofs.Parentheses

Parentheses around a whole query.

They put the query one level deeper into a group that has no marks and nothing else in it. The
compiler comes to the same clauses in the same scope, but for the depth, and the depth counts for
nothing as long as the limit is not reached. So the pairs of parentheses that fit under the limit
change nothing at all, and with one more the text is refused before it is compiled.

* `visit_atDepth`        — what a clause contributes does not depend on how deep it stands.
* `compile_alone`        — a group without marks, alone in a query.
* `QueryForm.wrap`       — the derivation of a query in parentheses.
* `compileQuery_wrapped` — any number of parentheses, up to the limit and beyond it.
-/

namespace SearchQuery

/-! ## Depth -/

theorem Traced.bind_pure {ε α : Type} (x : Traced ε α) : x >>= pure = x := by
  show Traced.andThen x pure = x
  rcases x with ⟨events, e | a⟩
  · rfl
  · exact congrArg (Traced.mk · _) (List.append_nil events)

/-- The same scope as seen from another depth. -/
def Scope.atDepth (s : Scope) (depth : Nat) : Scope :=
  { s with depth }

mutual

theorem visit_atDepth (config : Config) : ∀ (c : Clause) (scope : Scope) (n : Nat),
    scope.depth + c.depth ≤ config.settings.maxDepth → n + c.depth ≤ config.settings.maxDepth →
    visit config (scope.atDepth n) c = visit config scope c
  | .leaf m l, scope, n, _, _ => by
    rw [visit, visit]
    rfl
  | .group m op parens children, scope, n, hscope, hn => by
    rw [Clause.depth] at hscope hn
    have henter : ∀ op', (scope.atDepth n).enter op' m.field =
        (scope.enter op' m.field).atDepth (n + 1) := fun _ => rfl
    have hdepth : ∀ op', (scope.enter op' m.field).depth = scope.depth + 1 := fun _ => rfl
    have hdepth' : ∀ op', ((scope.enter op' m.field).atDepth (n + 1)).depth = n + 1 := fun _ => rfl
    rw [visit, visit]
    simp only [henter]
    rw [if_neg (by rw [hdepth']; omega), if_neg (by rw [hdepth]; omega)]
    exact visitAll_atDepth config children _ (n + 1) {} (by rw [hdepth]; omega) (by omega)

theorem visitAll_atDepth (config : Config) : ∀ (cs : List Clause) (scope : Scope) (n : Nat)
    (before : Contribution), scope.depth + Clause.deepest cs ≤ config.settings.maxDepth →
    n + Clause.deepest cs ≤ config.settings.maxDepth →
    visitAll config (scope.atDepth n) before cs = visitAll config scope before cs
  | [], scope, n, before, _, _ => by rw [visitAll, visitAll]
  | c :: cs, scope, n, before, hscope, hn => by
    rw [Clause.deepest] at hscope hn
    have hop : (scope.atDepth n).op = scope.op := rfl
    have hrest : ∀ before', visitAll config (scope.atDepth n) before' cs =
        visitAll config scope before' cs :=
      fun before' => visitAll_atDepth config cs scope n before' (by omega) (by omega)
    rw [visitAll, visitAll, visit_atDepth config c scope n (by omega) (by omega), hop]
    simp only [hrest]

end

/-! ## A group on its own -/

theorem add_unmarked (op : Connective) (k : Contribution) :
    Contribution.add {} op {} k = k := by
  rcases k with ⟨_ | f, leaves, suppressed⟩ <;> simp [Contribution.add, joinFilter]

/-- The only clause of a group, if it has no marks, contributes all that the group does. -/
theorem visitAll_alone (config : Config) (scope : Scope) {c : Clause} (hc : c.marks = {}) :
    visitAll config scope {} [c] = visit config scope c := by
  simp only [visitAll, hc, add_unmarked]
  exact Traced.bind_pure _

/-- A group takes nothing but the fields from the groups around it, so one more without a field does
not matter, and neither do its own parentheses. -/
theorem visit_inside (config : Config) (scope : Scope) (op' : Connective) (m : Marks)
    (op : Option Connective) (parens parens' : Bool) (children : List Clause)
    (h : scope.depth + Clause.deepest children + 1 < config.settings.maxDepth) :
    visit config (scope.enter op' none) (.group m op parens children) =
      visit config scope (.group m op parens' children) := by
  have henter : ∀ op'', (scope.enter op' none).enter op'' m.field =
      (scope.enter op'' m.field).atDepth (scope.depth + 2) := by
    intro op''
    simp [Scope.enter, Scope.atDepth]
  have hdepth : ∀ op'', (scope.enter op'' m.field).depth = scope.depth + 1 := fun _ => rfl
  have hdepth' : ∀ op'', ((scope.enter op'' m.field).atDepth (scope.depth + 2)).depth =
      scope.depth + 2 := fun _ => rfl
  rw [visit, visit]
  simp only [henter]
  rw [if_neg (by rw [hdepth']; omega), if_neg (by rw [hdepth]; omega)]
  exact visitAll_atDepth config children _ _ {} (by rw [hdepth]; omega) (by omega)

/-- A group without marks that is alone in a query compiles as if it were the query. -/
theorem compile_alone {config : Config} (op : Option Connective) (parens : Bool)
    {children : List Clause} (h : Clause.deepest children + 2 ≤ config.settings.maxDepth) :
    config.compile (.group {} none false [.group {} op parens children]) =
      config.compile (.group {} op false children) := by
  have hvisit : visitAll config config.rootScope {}
      [.group {} none false [.group {} op parens children]] =
      visitAll config config.rootScope {} [.group {} op false children] := by
    have hroot : config.rootScope.depth = 0 := rfl
    have hinner : ∀ op', (config.rootScope.enter op' none).depth = 1 := fun _ => rfl
    rw [visitAll_alone config _ rfl, visitAll_alone config _ rfl]
    conv_lhs => rw [visit]
    dsimp only
    rw [if_neg (by rw [hinner]; omega), visitAll_alone config _ rfl]
    exact visit_inside config _ _ _ _ _ _ _ (by rw [hroot]; omega)
  rw [Config.compile, Config.compile, hvisit]

/-! ## A query in parentheses -/

/-- A text in `n` pairs of parentheses. -/
def wrapped : Nat → String → String
  | 0, text => text
  | n + 1, text => "(" ++ wrapped n text ++ ")"

namespace QueryForm

def wrap (q : QueryForm) : QueryForm :=
  .cons (.last (.last (.group [] none q))) .nil

theorem tokens_wrap (q : QueryForm) :
    q.wrap.tokens = .openParen :: (q.tokens ++ [.closeParen]) := by
  simp [wrap, QueryForm.tokens, OrForm.tokens, AndForm.tokens, ClauseForm.tokens, leadTokens,
    headTokens]

/-- A group in parentheses is not lifted, so it stays the only clause of the query. -/
theorem root_wrap (q : QueryForm) :
    q.wrap.root = { children := [.group {} q.root.op true q.root.children] } := by
  rw [wrap, QueryForm.root, OrForm.root, AndForm.root, ClauseForm.clause]
  rfl

theorem depth_root (q : QueryForm) : q.root.depth = Clause.deepest q.root.children + 1 := by
  rw [q.root_eq, Group.depth_ofSequence]

theorem depth_wrap (q : QueryForm) : q.wrap.root.depth = q.root.depth + 1 := by
  rw [depth_root, depth_root, root_wrap]
  simp [Clause.depth, Clause.deepest]

end QueryForm

theorem compile_wrap {config : Config} {q : QueryForm}
    (h : q.wrap.root.depth ≤ config.settings.maxDepth) :
    config.compile q.wrap.root.toClause = config.compile q.root.toClause := by
  rw [q.depth_wrap, q.depth_root] at h
  rw [q.root_wrap, q.toClause_root]
  exact compile_alone q.root.op true h

/-- The tree of a query in `n` pairs of parentheses is `n` levels deeper. It compiles to the same,
where it may be that deep. -/
theorem wrapped_form {text : String} {q : QueryForm} (h : tokenize text = .ok q.tokens) (n : Nat) :
    ∃ p : QueryForm, tokenize (wrapped n text) = .ok p.tokens ∧
      p.root.depth = q.root.depth + n ∧
      ∀ config : Config, p.root.depth ≤ config.settings.maxDepth →
        config.compile p.root.toClause = config.compile q.root.toClause := by
  induction n with
  | zero => exact ⟨q, h, rfl, fun _ _ => rfl⟩
  | succ n ih =>
    obtain ⟨p, hp, hdepth, hcompile⟩ := ih
    refine ⟨p.wrap, ?_, ?_, fun config hlimit => ?_⟩
    · rw [p.tokens_wrap]
      exact tokenize_parens hp
    · rw [p.depth_wrap, hdepth, Nat.add_assoc]
    · have hinner := p.depth_wrap
      rw [compile_wrap hlimit, hcompile config (by omega)]

/-! ## The answer for a text -/

theorem compileQuery_of_form (config : Config) {text : String} {q : QueryForm}
    (h : tokenize text = .ok q.tokens) :
    config.compileQuery text =
      if q.root.depth ≤ config.settings.maxDepth then config.compileClause q.root.toClause
      else Traced.fail (.parse (.tooDeep config.settings.maxDepth)) := by
  rw [Config.compileQuery, parseWithin_of_form h]
  by_cases hle : q.root.depth ≤ config.settings.maxDepth
  · rw [if_pos hle, if_pos hle]
  · rw [if_neg hle, if_neg hle]

/-- In a tree that keeps to the limit only an expander can fail. -/
theorem expansion_of_compile_error {config : Config} {root : Clause} {e : CompileError}
    (hdepth : root.depth ≤ config.settings.maxDepth)
    (h : (config.compile root).result = .error e) : ∃ x, e = .expansion x := by
  have hvisit : (visit config (config.scope []) root).result = .error e := by
    rw [compile_result] at h
    cases hv : (visit config (config.scope []) root).result with
    | error e' =>
      rw [hv] at h
      exact congrArg Except.error (Except.error.inj h)
    | ok k =>
      rw [hv] at h
      cases h
  obtain ⟨before, s, after, -, -, hbad⟩ := (visit_error_iff config root [] e).1 hvisit
  cases hbad with
  | tooDeep _ => exact absurd h (compile_unrefused hdepth _)
  | expansion _ _ => exact ⟨_, rfl⟩

/-- A query that is read, put into `n` pairs of parentheses. As long as its depth and `n` together keep
to the limit, compiling gives the same answer with the same reports, which is a filter or the error of
an expander. Beyond that the text is refused, and the error names the limit. -/
theorem compileQuery_wrapped {config : Config} {text : String} {root : Group}
    (h : parseWithin config.settings.maxDepth text = .ok root) (n : Nat) :
    (root.depth + n ≤ config.settings.maxDepth →
      config.compileQuery (wrapped n text) = config.compileQuery text ∧
        ((∃ f, (config.compileQuery text).result = .ok f) ∨
          ∃ e, (config.compileQuery text).result = .error (.compile (.expansion e)))) ∧
    (config.settings.maxDepth < root.depth + n →
      (config.compileQuery (wrapped n text)).result =
        .error (.parse (.tooDeep config.settings.maxDepth))) := by
  obtain ⟨q, hq, rfl, hle⟩ := parseWithin_ok_iff.1 h
  obtain ⟨p, hp, hdepth, hcompile⟩ := wrapped_form hq n
  rw [compileQuery_of_form config hp, compileQuery_of_form config hq, if_pos hle]
  constructor
  · intro hfits
    have hlimit : p.root.depth ≤ config.settings.maxDepth := by omega
    rw [if_pos hlimit, Config.compileClause, Config.compileClause, hcompile config hlimit]
    refine ⟨rfl, ?_⟩
    cases hresult : (config.compile q.root.toClause).result with
    | ok f =>
      refine .inl ⟨f, ?_⟩
      rw [Traced.result_mapError, hresult]
      rfl
    | error e =>
      obtain ⟨x, rfl⟩ := expansion_of_compile_error hle hresult
      refine .inr ⟨x, ?_⟩
      rw [Traced.result_mapError, hresult]
      rfl
  · intro hexceeds
    rw [if_neg (by omega)]
    rfl

/-- The connectives make two groups, so that two pairs of parentheses fit under a limit of four. -/
theorem compileQuery_wrapped_lifted :
    let config : Config := { settings := { maxDepth := 4 }, expanders := [Expander.recorder] }
    ∃ root, parseWithin 4 "a OR -b AND c" = .ok root ∧ root.depth = 2 ∧
      config.compileQuery "((a OR -b AND c))" = config.compileQuery "a OR -b AND c" ∧
      (config.compileQuery "(((a OR -b AND c)))").result = .error (.parse (.tooDeep 4)) := by
  intro config
  let root : Group :=
    { op := some .or
      children :=
        [.leaf {} (.term "a" false),
          .group {} (some .and) false
            [.leaf { occur := some .prohibited } (.term "b" false),
              .leaf {} (.term "c" false)]] }
  have hroot : parseWithin config.settings.maxDepth "a OR -b AND c" = .ok root := by decide +kernel
  have hdepth : root.depth = 2 := by decide
  refine ⟨root, hroot, hdepth, ?_, ?_⟩
  · exact ((compileQuery_wrapped hroot 2).1 (by decide)).1
  · exact (compileQuery_wrapped hroot 3).2 (by decide)

end SearchQuery
