import SearchQuery.Proofs.Acceptance
import SearchQuery.Query

/-!
# SearchQuery.Proofs.DepthLimit

What the limit on nested groups does, in the parser and in the compiler.

A limit only ever turns an answer into the error that names it. A tree is refused exactly when it is
deeper than the limit, though the parser counts open parentheses as it goes and the groups of the
tree at the end. The compiler, which counts once more, has nothing left to refuse.

* `run_limited`             — a run under some limit against a run under one that is out of reach.
* `parseWithin_limited`     — the same for whole texts.
* `parseWithin_accepts_iff` — a tree is kept exactly when it is no deeper than the limit.
* `parseWithin_of_form`     — the answer for a text whose derivation is known.
* `visit_unrefused`         — the compiler refuses no clause of a tree that keeps to the limit.
* `depth_limits_agree`      — all three counts together.
-/

namespace SearchQuery

/-- An answer under the limit `m`, compared with the answer under no limit. -/
def LimitedBy {α : Type} (m : Nat) (limited full : Except ParseError α) : Prop :=
  limited = full ∨ limited = .error (.tooDeep m)

/-- An answer that no limit has a part in. -/
def NotTooDeep {α : Type} (answer : Except ParseError α) : Prop :=
  ∀ limit, answer ≠ .error (.tooDeep limit)

/-! ## The parser -/

namespace Parser

theorem conclude_limited (p p' : Parser) (b : Builder) (m : Nat) :
    LimitedBy m (p.conclude b).1 (p'.conclude b).1 ∧ NotTooDeep (p'.conclude b).1 := by
  unfold conclude
  cases b.finish with
  | some cs => exact ⟨.inl rfl, fun _ h => by cases h⟩
  | none => exact ⟨.inl rfl, fun _ h => by cases h⟩

theorem reject_limited (p p' : Parser) (b : Builder) (position : Nat) (t : Token) (m : Nat) :
    LimitedBy m (p.reject b position t).1 (p'.reject b position t).1 ∧
      NotTooDeep (p'.reject b position t).1 := by
  unfold reject
  cases b.expected (some t) <;> exact ⟨.inl rfl, fun _ h => by cases h⟩

/-- A run that can never reach its limit tells what any other limit may change. A step opens at most
one group, so a limit is out of reach if there are too few tokens left. -/
theorem run_limited (p p' : Parser) (hp' : p'.depth = 0) {b : Builder} {us : List Token}
    (hb : b.Reads us) (position : Nat) (t : Token) {pending : List Lexeme}
    (hfar : b.depth + pending.length + 1 ≤ p'.maxDepth) :
    LimitedBy p.maxDepth (p.run b position t pending).1 (p'.run b position t pending).1 ∧
      NotTooDeep (p'.run b position t pending).1 := by
  induction pending generalizing b us position t with
  | nil =>
    rw [run, run]
    cases hs : b.step t with
    | none => exact reject_limited _ _ b position t _
    | some b' =>
      have hdepth := (Builder.step_grows hb hs).depth
      simp only [List.length_nil] at hfar
      dsimp only
      rw [if_neg (show ¬ p'.maxDepth < p'.depth + b'.depth by omega)]
      split
      · exact ⟨.inr rfl, (conclude_limited p' _ b' 0).2⟩
      · exact conclude_limited _ _ b' _
  | cons x rest ih =>
    rw [run, run]
    cases hs : b.step t with
    | none => exact reject_limited _ _ b position t _
    | some b' =>
      have hdepth := (Builder.step_grows hb hs).depth
      simp only [List.length_cons] at hfar
      cases hx : x.token with
      | error e =>
        simp only [hx]
        exact ⟨.inl rfl, fun _ h => by cases h⟩
      | ok t' =>
        simp only [hx]
        rw [if_neg (show ¬ p'.maxDepth < p'.depth + b'.depth by omega)]
        -- one token fewer is left and at most one group more is open
        obtain ⟨hlimited, hfull⟩ := ih (Builder.step_reads hb hs) x.start t' (by omega)
        split
        · exact ⟨.inr rfl, hfull⟩
        · exact ⟨hlimited, hfull⟩

theorem sequence_limited {xs : List Lexeme} {p : Parser} (hp : ofLexemes xs = .ok p) (m : Nat)
    {n : Nat} (hn : xs.length + 1 ≤ n) :
    LimitedBy m ({ p with maxDepth := m }.sequence).1 ({ p with maxDepth := n }.sequence).1 ∧
      NotTooDeep ({ p with maxDepth := n }.sequence).1 := by
  have hpos : ¬ n < 1 := by omega
  cases xs with
  | nil =>
    obtain rfl := Except.ok.inj hp
    rw [sequence_end, sequence_end, if_neg hpos]
    split
    · exact ⟨.inr rfl, (conclude_limited { current := none, pending := [] } _ {} 0).2⟩
    · exact conclude_limited _ _ {} m
  | cons x pending =>
    rw [ofLexemes] at hp
    cases hx : x.token with
    | error e => simp only [hx] at hp; cases hp
    | ok t =>
      simp only [hx] at hp
      obtain rfl := Except.ok.inj hp
      rw [sequence_token, sequence_token, if_neg hpos]
      have hfar : Builder.depth {} + pending.length + 1 ≤ n := by
        simp only [Builder.depth, List.length_nil, List.length_cons] at hn ⊢
        omega
      let p : Parser := { current := some (x.start, t), pending, maxDepth := m }
      let p' : Parser := { current := some (x.start, t), pending, maxDepth := n }
      have hrun := run_limited p p' rfl Builder.reads_start x.start t hfar
      split
      · exact ⟨.inr rfl, hrun.2⟩
      · exact hrun

end Parser

theorem parseWithin_limited {text : String} (m : Nat) {n : Nat}
    (hn : (Lexer.ofText text).lexemes.length + 1 ≤ n) :
    LimitedBy m (parseWithin m text) (parseWithin n text) ∧ NotTooDeep (parseWithin n text) := by
  unfold parseWithin Parser.ofText
  cases hp : Parser.ofLexemes (Lexer.ofText text).lexemes with
  | error e => exact ⟨.inl rfl, fun _ h => by cases h⟩
  | ok p =>
    dsimp only
    rw [Parser.parse_eq, Parser.parse_eq]
    obtain ⟨hlimited, hfull⟩ := Parser.sequence_limited hp m hn
    cases hcs : ({ p with maxDepth := n }.sequence).1 with
    | error e =>
      rw [hcs] at hlimited hfull
      refine ⟨?_, fun limit h => hfull limit (by cases h; rfl)⟩
      rcases hlimited with hsame | hdeep
      · rw [hsame]
        exact .inl rfl
      · rw [hdeep]
        exact .inr rfl
    | ok cs =>
      obtain ⟨q, hq, rfl⟩ := Parser.sequence_ok hp hcs
      have hle : q.root.depth ≤ n := by
        have hlength := mapM_token_length hq
        have hdepth := q.depth_le
        omega
      rw [hcs] at hlimited
      dsimp only
      rw [q.root_eq] at hle
      rw [if_neg (Nat.not_lt.2 hle)]
      refine ⟨?_, fun _ h => by cases h⟩
      rcases hlimited with hsame | hdeep
      · -- the parentheses kept to the limit, so what counts is the finished tree
        rw [hsame]
        dsimp only
        split
        · exact .inr rfl
        · exact .inl rfl
      · rw [hdeep]
        exact .inr rfl

/-- Under any limit a text is read to the same tree, or to none when the tree is too deep. -/
theorem parseWithin_accepts_iff {n : Nat} {text : String} {root : Group}
    (h : parseWithin n text = .ok root) (m : Nat) :
    (∃ root', parseWithin m text = .ok root') ↔ root.depth ≤ m := by
  obtain ⟨q, hq, rfl, -⟩ := parseWithin_ok_iff.1 h
  constructor
  · rintro ⟨root', hroot'⟩
    obtain ⟨q', hq', rfl, hle⟩ := parseWithin_ok_iff.1 hroot'
    rw [hq] at hq'
    obtain rfl := QueryForm.unique (Except.ok.inj hq')
    exact hle
  · intro hle
    exact ⟨q.root, parseWithin_ok_iff.2 ⟨q, hq, rfl, hle⟩⟩

/-- A text whose tokens have a derivation is read to the tree of that derivation, unless the tree is
deeper than the limit. -/
theorem parseWithin_of_form {text : String} {q : QueryForm} (h : tokenize text = .ok q.tokens)
    (m : Nat) :
    parseWithin m text = if q.root.depth ≤ m then .ok q.root else .error (.tooDeep m) := by
  split
  · rename_i hle
    exact parseWithin_ok_iff.2 ⟨q, h, rfl, hle⟩
  · rename_i hdeeper
    have hfar : parseWithin ((Lexer.ofText text).lexemes.length + 1) text = .ok q.root := by
      have hlength := mapM_token_length h
      have hdepth := q.depth_le
      exact parseWithin_ok_iff.2 ⟨q, h, rfl, by omega⟩
    rcases (parseWithin_limited m (Nat.le_refl _)).1 with hsame | htooDeep
    · exact absurd ((parseWithin_accepts_iff hfar m).1 ⟨_, hsame.trans hfar⟩) hdeeper
    · exact htooDeep

/-! ## The compiler -/

/-- The compiler has not refused a part of the tree for its depth. -/
def Unrefused {α : Type} (x : Traced CompileError α) : Prop :=
  ∀ limit, x.result ≠ .error (.tooDeep limit)

theorem unrefused_bind {α β : Type} {x : Traced CompileError α} {f : α → Traced CompileError β}
    (hx : Unrefused x) (hf : ∀ a, Unrefused (f a)) : Unrefused (x >>= f) := by
  intro limit h
  rw [Traced.result_bind] at h
  cases hr : x.result with
  | error e =>
    rw [hr] at h
    obtain rfl : e = .tooDeep limit := Except.error.inj h
    exact hx limit hr
  | ok a =>
    rw [hr] at h
    exact hf a limit h

theorem unrefused_pure {α : Type} (a : α) : Unrefused (pure a : Traced CompileError α) := by
  intro limit h
  cases h

theorem unrefused_emit (event : Event) : Unrefused (Traced.emit event) := by
  intro limit h
  cases h

theorem visitLeaf_unrefused (config : Config) (scope : Scope) (m : Marks) (l : Leaf) :
    Unrefused (visitLeaf config scope m l) := by
  unfold visitLeaf
  dsimp only
  split
  · exact unrefused_bind (unrefused_emit _) fun _ => unrefused_pure _
  · refine unrefused_bind (unrefused_emit _) fun _ => unrefused_bind ?_ fun _ => unrefused_pure _
    -- an expander has errors of its own kind
    intro limit h
    rw [Traced.result_mapError] at h
    cases hr : (Expander.runAll config.expanders (Clause.leaf m l) _).result with
    | error e => rw [hr] at h; cases h
    | ok a => rw [hr] at h; cases h

mutual

theorem visit_unrefused (config : Config) : ∀ (c : Clause) (scope : Scope),
    scope.depth + c.depth ≤ config.settings.maxDepth → Unrefused (visit config scope c)
  | .leaf m l, scope, _ => by
    rw [visit]
    exact visitLeaf_unrefused config scope m l
  | .group m op parens children, scope, h => by
    rw [Clause.depth] at h
    rw [visit]
    have henter : ∀ op', (scope.enter op' m.field).depth = scope.depth + 1 := fun _ => rfl
    rw [if_neg (by rw [henter]; omega)]
    exact visitAll_unrefused config children _ {} (by rw [henter]; omega)

theorem visitAll_unrefused (config : Config) : ∀ (cs : List Clause) (scope : Scope)
    (before : Contribution), scope.depth + Clause.deepest cs ≤ config.settings.maxDepth →
    Unrefused (visitAll config scope before cs)
  | [], scope, before, _ => by
    rw [visitAll]
    exact unrefused_pure before
  | c :: cs, scope, before, h => by
    rw [Clause.deepest] at h
    rw [visitAll]
    exact unrefused_bind (visit_unrefused config c scope (by omega)) fun next =>
      visitAll_unrefused config cs scope _ (by omega)

end

theorem compile_unrefused {config : Config} {root : Clause}
    (h : root.depth ≤ config.settings.maxDepth) : Unrefused (config.compile root) := by
  refine unrefused_bind (visitAll_unrefused config [root] _ {} ?_) fun total =>
    unrefused_bind (unrefused_emit _) fun _ => unrefused_pure _
  rw [Clause.deepest, Clause.deepest, Nat.max_zero]
  simpa [Config.rootScope] using h

theorem compileQuery_unrefused (config : Config) (text : String) (limit : Nat) :
    (config.compileQuery text).result ≠ .error (.compile (.tooDeep limit)) := by
  unfold Config.compileQuery
  cases hparse : parseWithin config.settings.maxDepth text with
  | error e =>
    intro h
    cases h
  | ok root =>
    obtain ⟨-, -, -, hle⟩ := parseWithin_ok_iff.1 hparse
    have hroot : Unrefused (config.compile root.toClause) := compile_unrefused hle
    intro h
    simp only [Config.compileClause, Traced.result_mapError] at h
    cases hr : (config.compile root.toClause).result with
    | error e =>
      rw [hr] at h
      cases h
      exact hroot limit hr
    | ok f =>
      rw [hr] at h
      cases h

/-! ## All counts together -/

/-- From some limit on a text is not refused for its depth. Against that answer a limit `m` shows
what it does: it keeps the answer or names itself as an error, it keeps a tree exactly when the tree
is no deeper than `m`, and what it keeps the compiler does not refuse under the same limit. -/
theorem depth_limits_agree (text : String) :
    ∃ far, ∀ n, far ≤ n → (∀ limit, parseWithin n text ≠ .error (.tooDeep limit)) ∧ ∀ m,
      (parseWithin m text = parseWithin n text ∨ parseWithin m text = .error (.tooDeep m)) ∧
      (∀ root, parseWithin n text = .ok root →
        ((∃ root', parseWithin m text = .ok root') ↔ root.depth ≤ m)) ∧
      ∀ config : Config, config.settings.maxDepth = m →
        ∀ limit, (config.compileQuery text).result ≠ .error (.compile (.tooDeep limit)) := by
  refine ⟨(Lexer.ofText text).lexemes.length + 1, fun n hn => ?_⟩
  refine ⟨(parseWithin_limited n hn).2, fun m => ⟨(parseWithin_limited m hn).1, ?_, ?_⟩⟩
  · intro root hroot
    exact parseWithin_accepts_iff hroot m
  · intro config _ limit
    exact compileQuery_unrefused config text limit

/-- The group that `AND` makes is not in parentheses and counts all the same. -/
theorem depth_limits_agree_connective :
    ∃ root, parseWithin 3 "(a OR b AND c)" = .ok root ∧ root.depth = 3 ∧
      parseWithin 2 "(a OR b AND c)" = .error (.tooDeep 2) ∧
      ∀ limit, (Config.compileQuery { settings := { maxDepth := 2 } } "(a OR b AND c)").result ≠
        .error (.compile (.tooDeep limit)) := by
  let root : Group :=
    { children :=
        [.group {} (some .or) true
          [.leaf {} (.term "a" false),
            .group {} (some .and) false [.leaf {} (.term "b" false), .leaf {} (.term "c" false)]]] }
  have hroot : parseWithin 3 "(a OR b AND c)" = .ok root := by decide +kernel
  obtain ⟨far, hfar⟩ := depth_limits_agree "(a OR b AND c)"
  obtain ⟨-, h⟩ := hfar far (Nat.le_refl far)
  have hsame : parseWithin far "(a OR b AND c)" = .ok root := by
    rcases (h 3).1 with hkept | hdeep
    · rw [← hkept, hroot]
    · rw [hroot] at hdeep
      cases hdeep
  have hrefused : ¬ ∃ root', parseWithin 2 "(a OR b AND c)" = .ok root' := by
    rw [(h 2).2.1 root hsame]
    decide
  refine ⟨root, hroot, by decide, ?_, (h 2).2.2 _ rfl⟩
  rcases (h 2).1 with hkept | hdeep
  · exact absurd ⟨root, hkept.trans hsame⟩ hrefused
  · exact hdeep

end SearchQuery
