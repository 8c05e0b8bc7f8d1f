import SearchQuery.Proofs.Parentheses
import SearchQuery.Proofs.Request
import SearchQuery.Proofs.Required

/-!
# SearchQuery.Proofs.Juxtaposition

Two texts side by side.

The whole text has the clauses of the first one and then those of the second. Its tree need not be
made of their trees: a disjunction that is all of a query is lifted to be the query itself, and next to
other clauses it stays a group among them. A request never gets so far with a lifted group, and for a
filter lifting makes no difference, so both are said on the clauses here.

* `Group.ofSequence_cases`    — a group around clauses is lifted or holds just them.
* `compileRequest_of_form`    — a request, by its clauses.
* `compileQuery_of_clauses`   — a query, by its clauses.
* `compileRequest_juxtaposed` — requests side by side give their aggregations one after the other.
* `compileQuery_juxtaposed`   — queries side by side are joined by the configured `AND`.
-/

namespace SearchQuery

open Clause

/-! ## Clauses of a query -/

theorem juxtaposed_form {first second : String} {p q : QueryForm}
    (hp : tokenize first = .ok p.tokens) (hq : tokenize second = .ok q.tokens) :
    tokenize (first ++ " " ++ second) = .ok (p.append q).tokens := by
  rw [p.tokens_append]
  exact tokenize_side_by_side hp hq

theorem deepest_append (cs ds : List Clause) :
    deepest (cs ++ ds) = max (deepest cs) (deepest ds) := by
  induction cs with
  | nil => simp [deepest]
  | cons c cs ih => rw [List.cons_append, deepest, deepest, ih, Nat.max_assoc]

theorem Group.ofSequence_cases (cs : List Clause) :
    (∃ op children, cs = [.group {} op false children] ∧
      Group.ofSequence cs = { op, children }) ∨
    Group.ofSequence cs = { children := cs } := by
  rw [Group.ofSequence.eq_def]
  split
  · rename_i op children
    exact .inl ⟨op, children, rfl, rfl⟩
  · exact .inr rfl

/-- A lifted group has the depth that its clauses had. -/
theorem deepest_le_depth_ofSequence (cs : List Clause) :
    deepest cs ≤ (Group.ofSequence cs).depth := by
  rw [Group.depth_ofSequence]
  rcases Group.ofSequence_cases cs with ⟨op, children, hcs, hroot⟩ | hroot
  · rw [hroot, hcs]
    simp [deepest, depth]
  · rw [hroot]
    exact Nat.le_succ _

/-! ## Groups without parentheses -/

/-- Every operand of a conjunction was written as a clause. -/
theorem AndForm.bare_not_mem : ∀ (a : AndForm) (m : Marks) (op : Option Connective)
    (children : List Clause), .group m op false children ∉ a.operands
  | .last c, m, op, children => by
    rw [AndForm.operands, List.mem_singleton]
    exact c.bare_ne_clause m op children
  | .and c a, m, op, children => by
    rw [AndForm.operands, List.mem_cons, not_or]
    exact ⟨c.bare_ne_clause m op children, a.bare_not_mem m op children⟩

theorem connective_of_joinOperands {op' : Connective} {cs children : List Clause} {m : Marks}
    {op : Option Connective} (h : .group m op false children = joinOperands op' cs)
    (hcs : .group m op false children ∈ cs → op ≠ none) : op ≠ none := by
  rw [joinOperands.eq_def] at h
  split at h
  · exact hcs (by rw [h]; exact List.mem_singleton_self _)
  · injection h with _ hop
    rw [hop]
    exact Option.some_ne_none op'

theorem OrForm.connective_of_mem : ∀ (o : OrForm) {m : Marks} {op : Option Connective}
    {children : List Clause}, .group m op false children ∈ o.operands → op ≠ none
  | .last a, m, op, children, h => by
    rw [OrForm.operands, List.mem_singleton, a.clause_eq] at h
    exact connective_of_joinOperands h fun hmem => absurd hmem (a.bare_not_mem m op children)
  | .or a o, m, op, children, h => by
    rw [OrForm.operands, List.mem_cons, a.clause_eq] at h
    rcases h with h | h
    · exact connective_of_joinOperands h fun hmem => absurd hmem (a.bare_not_mem m op children)
    · exact o.connective_of_mem h

/-- A group without parentheses comes from a connective. -/
theorem QueryForm.connective_of_mem : ∀ (q : QueryForm) {m : Marks} {op : Option Connective}
    {children : List Clause}, .group m op false children ∈ q.clauses → op ≠ none
  | .nil, m, op, children, h => by
    rw [QueryForm.clauses] at h
    cases h
  | .cons o q, m, op, children, h => by
    rw [QueryForm.clauses, List.mem_cons, o.clause_eq] at h
    rcases h with h | h
    · exact connective_of_joinOperands h o.connective_of_mem
    · exact q.connective_of_mem h

/-! ## Requests -/

theorem aggregation_unmarked (schema : Schema) (op : Option Connective) (parens : Bool)
    (children : List Clause) :
    schema.aggregation (.group {} op parens children) =
      .error (.invalidAggregation (.group {} op parens children) .noField) :=
  rfl

theorem root_of_aggregations {schema : Schema} {q : QueryForm} {as : List Aggregation}
    (h : q.clauses.mapM schema.aggregation = .ok as) : q.root = { children := q.clauses } := by
  rcases Group.ofSequence_cases q.clauses with ⟨op, children, hcs, -⟩ | hroot
  · rw [hcs, List.mapM_cons, aggregation_unmarked] at h
    cases h
  · exact q.root_eq.trans hroot

/-- A group that would be lifted gives no aggregations in either place: as the whole request for its
connective, and among clauses because it has no field. -/
theorem aggregations_root_iff (schema : Schema) (q : QueryForm) (as : List Aggregation) :
    schema.aggregations q.root = .ok as ↔ q.clauses.mapM schema.aggregation = .ok as := by
  constructor
  · intro h
    obtain ⟨hnone, hmap⟩ := aggregations_ok_iff.1 h
    rcases Group.ofSequence_cases q.clauses with ⟨op, children, hcs, hroot⟩ | hroot
    · have hop : op ≠ none := q.connective_of_mem (by rw [hcs]; exact List.mem_singleton_self _)
      rw [q.root_eq, hroot] at hnone
      exact absurd hnone hop
    · rw [q.root_eq, hroot] at hmap
      exact hmap
  · intro h
    rw [root_of_aggregations h]
    exact aggregations_ok_iff.2 ⟨rfl, h⟩

/-- A request is accepted when its clauses are and none of them is too deep. -/
theorem compileRequest_of_form (config : Config) {text : String} {q : QueryForm}
    (h : tokenize text = .ok q.tokens) (as : List Aggregation) :
    (config.compileRequest text).result = .ok as ↔
      deepest q.clauses < config.settings.maxDepth ∧
        q.clauses.mapM config.schema.aggregation = .ok as := by
  have hdepth : ∀ {as}, q.clauses.mapM config.schema.aggregation = .ok as →
      q.root.depth = deepest q.clauses + 1 := by
    intro as hmap
    rw [q.depth_root, root_of_aggregations hmap]
  rw [compileRequest_ok_iff]
  constructor
  · rintro ⟨root, hroot, has⟩
    obtain ⟨q', hq', rfl, hle⟩ := parseWithin_ok_iff.1 hroot
    obtain rfl : q' = q := QueryForm.unique (Except.ok.inj (hq'.symm.trans h))
    have hmap := (aggregations_root_iff config.schema q' as).1 has
    rw [hdepth hmap] at hle
    exact ⟨hle, hmap⟩
  · rintro ⟨hle, hmap⟩
    refine ⟨q.root, parseWithin_ok_iff.2 ⟨q, h, rfl, ?_⟩, (aggregations_root_iff _ q as).2 hmap⟩
    rw [hdepth hmap]
    exact hle

/-- Two requests side by side are accepted exactly when both are, and then give the aggregations of the
first followed by those of the second. If one of them fails, so does the whole. -/
theorem compileRequest_juxtaposed {config : Config} {first second : String} {root₁ root₂ : Group}
    (h₁ : parseWithin config.settings.maxDepth first = .ok root₁)
    (h₂ : parseWithin config.settings.maxDepth second = .ok root₂) :
    (∀ as, (config.compileRequest (first ++ " " ++ second)).result = .ok as ↔
      ∃ as₁ as₂, (config.compileRequest first).result = .ok as₁ ∧
        (config.compileRequest second).result = .ok as₂ ∧ as = as₁ ++ as₂) ∧
    ∀ e, (config.compileRequest first).result = .error e ∨
        (config.compileRequest second).result = .error e →
      ∃ e', (config.compileRequest (first ++ " " ++ second)).result = .error e' := by
  obtain ⟨p, hp, -, -⟩ := parseWithin_ok_iff.1 h₁
  obtain ⟨q, hq, -, -⟩ := parseWithin_ok_iff.1 h₂
  have hboth : ∀ as, (config.compileRequest (first ++ " " ++ second)).result = .ok as ↔
      ∃ as₁ as₂, (config.compileRequest first).result = .ok as₁ ∧
        (config.compileRequest second).result = .ok as₂ ∧ as = as₁ ++ as₂ := by
    intro as
    simp only [compileRequest_of_form config (juxtaposed_form hp hq),
      compileRequest_of_form config hp, compileRequest_of_form config hq, p.clauses_append,
      deepest_append, Nat.max_lt, mapM_append_ok_iff]
    constructor
    · rintro ⟨⟨hd₁, hd₂⟩, as₁, as₂, has₁, has₂, rfl⟩
      exact ⟨as₁, as₂, ⟨hd₁, has₁⟩, ⟨hd₂, has₂⟩, rfl⟩
    · rintro ⟨as₁, as₂, ⟨hd₁, has₁⟩, ⟨hd₂, has₂⟩, rfl⟩
      exact ⟨⟨hd₁, hd₂⟩, as₁, as₂, has₁, has₂, rfl⟩
  refine ⟨hboth, fun e hfails => ?_⟩
  cases hresult : (config.compileRequest (first ++ " " ++ second)).result with
  | error e' => exact ⟨e', rfl⟩
  | ok as =>
    obtain ⟨as₁, as₂, has₁, has₂, -⟩ := (hboth as).1 hresult
    rcases hfails with hfails | hfails
    · rw [has₁] at hfails
      cases hfails
    · rw [has₂] at hfails
      cases hfails

/-- The second request is as deep as the limit allows. Next to a kind that is not known it comes to
nothing. -/
theorem compileRequest_juxtaposed_terms :
    let config : Config := { settings := { maxDepth := 2 } }
    let least : Aggregation := { name := "min_price", kind := .min, source := .field "price" }
    let listed : Aggregation :=
      { name := "terms_status", kind := .terms, source := .field "status"
        options := ⟨[("min_doc_count", .int 2)]⟩ }
    (config.compileRequest "min:price").result = .ok [least] ∧
      (config.compileRequest "terms:(status @min:2)").result = .ok [listed] ∧
      (config.compileRequest "min:price terms:(status @min:2)").result = .ok [least, listed] ∧
      ∃ e, (config.compileRequest "terms:(status @min:2) median:price").result = .error e := by
  intro config least listed
  let price : Clause := .leaf { field := some "min" } (.term "price" false)
  let status : Clause := .group { field := some "terms" } none true
    [.leaf {} (.term "status" false), .leaf { field := some "@min" } (.term "2" false)]
  let median : Clause := .leaf { field := some "median" } (.term "price" false)
  have hprice : parseWithin config.settings.maxDepth "min:price" = .ok { children := [price] } := by
    decide +kernel
  have hstatus : parseWithin config.settings.maxDepth "terms:(status @min:2)" =
      .ok { children := [status] } := by decide +kernel
  have hmedian : parseWithin config.settings.maxDepth "median:price" =
      .ok { children := [median] } := by decide +kernel
  have hleast : (config.compileRequest "min:price").result = .ok [least] :=
    compileRequest_ok_iff.2 ⟨_, hprice, rfl⟩
  have hlisted : (config.compileRequest "terms:(status @min:2)").result = .ok [listed] :=
    compileRequest_ok_iff.2 ⟨_, hstatus, rfl⟩
  have hunknown : (config.compileRequest "median:price").result =
      .error (.compile (.unsupportedAggregation "median")) := by
    rw [compileRequest_result, hmedian]
    rfl
  refine ⟨hleast, hlisted, ?_, ?_⟩
  · exact ((compileRequest_juxtaposed hprice hstatus).1 _).2
      ⟨_, _, hleast, hlisted, rfl⟩
  · exact (compileRequest_juxtaposed hstatus hmedian).2 _ (.inr hunknown)

/-! ## Queries -/

/-- Lifting makes no difference to the filter, as long as the group could also stay where it was. -/
theorem compile_ofSequence {config : Config} {cs : List Clause}
    (h : deepest cs < config.settings.maxDepth) :
    config.compile (Group.ofSequence cs).toClause = config.compile (.group {} none false cs) := by
  rcases Group.ofSequence_cases cs with ⟨op, children, rfl, hroot⟩ | hroot
  · rw [hroot]
    have hfits : deepest children + 2 ≤ config.settings.maxDepth := by
      simp only [deepest, depth] at h
      omega
    exact (compile_alone op false hfits).symm
  · rw [hroot]
    rfl

/-- A query compiles to what its clauses contribute side by side. -/
theorem compileQuery_of_clauses (config : Config) {text : String} {q : QueryForm}
    (h : tokenize text = .ok q.tokens) (hdepth : deepest q.clauses < config.settings.maxDepth)
    (f : Filter) :
    (config.compileQuery text).result = .ok f ↔
      ∃ k, (visitAll config (config.scope [⟨none, none⟩]) {} q.clauses).result = .ok k ∧
        k.filter.getD .matchAll = f := by
  have hroot : q.root.depth ≤ config.settings.maxDepth := by
    have hle := deepest_ofSequence_le q.clauses
    rw [q.root_eq, Group.depth_ofSequence]
    omega
  rw [compileQuery_of_form config h, if_pos hroot, Config.compileClause, q.root_eq,
    compile_ofSequence hdepth, Traced.result_mapError, compile_result, visit_group,
    if_neg (by simp only [List.length_nil]; omega)]
  simp only [Clause.marks, add_unmarked, List.nil_append, mapError_ok_iff]
  cases (visitAll config (config.scope [⟨none, none⟩]) {} q.clauses).result with
  | error e => simp [Except.map]
  | ok k => simp [Except.map]

/-- Whether clauses compile does not depend on those before them. -/
theorem visitAll_ok_of_ok {config : Config} {groups : List Enclosure} {before k : Contribution}
    {cs : List Clause}
    (h : (visitAll config (config.scope groups) before cs).result = .ok k)
    (before' : Contribution) :
    ∃ k', (visitAll config (config.scope groups) before' cs).result = .ok k' := by
  cases hresult : (visitAll config (config.scope groups) before' cs).result with
  | ok k' => exact ⟨k', rfl⟩
  | error e =>
    have hbad := (visitAll_error_iff config cs groups before' e).1 hresult
    rw [(visitAll_error_iff config cs groups before e).2 hbad] at h
    cases h

theorem conjunction_append (os os' : List Operand) :
    Conjunction (os ++ os') ↔ Conjunction os ∧ Conjunction os' := by
  simp only [Conjunction, List.mem_append, or_imp, forall_and]

/-- Under `AND` no filter at all is as good as one that lets everything pass. -/
theorem Represents.holds_iff {ρ : Constraint → Prop} {f : Option Filter} {os : List Operand}
    (h : Represents ρ .and f os) : (f.getD .matchAll).Holds ρ ↔ Conjunction os := by
  cases f with
  | none =>
    obtain rfl : os = [] := h
    simp [Filter.Holds, Conjunction]
  | some f => exact h.2

/-- Two queries side by side, where `AND` joins what stands side by side and one more group fits around
each of their trees. If both compile then so does the whole, and its filter lets pass what both let
pass. -/
theorem compileQuery_juxtaposed {config : Config} (hop : config.settings.defaultOp = .and)
    {first second : String} {root₁ root₂ : Group} {f₁ f₂ : Filter}
    (hroot₁ : parseWithin config.settings.maxDepth first = .ok root₁)
    (hroot₂ : parseWithin config.settings.maxDepth second = .ok root₂)
    (hdepth₁ : root₁.depth + 1 ≤ config.settings.maxDepth)
    (hdepth₂ : root₂.depth + 1 ≤ config.settings.maxDepth)
    (hf₁ : (config.compileQuery first).result = .ok f₁)
    (hf₂ : (config.compileQuery second).result = .ok f₂) :
    ∃ f, (config.compileQuery (first ++ " " ++ second)).result = .ok f ∧
      ∀ ρ, f.Holds ρ ↔ f₁.Holds ρ ∧ f₂.Holds ρ := by
  obtain ⟨p, hp, rfl, -⟩ := parseWithin_ok_iff.1 hroot₁
  obtain ⟨q, hq, rfl, -⟩ := parseWithin_ok_iff.1 hroot₂
  rw [p.root_eq] at hdepth₁
  rw [q.root_eq] at hdepth₂
  have hd₁ : deepest p.clauses < config.settings.maxDepth :=
    Nat.lt_of_le_of_lt (deepest_le_depth_ofSequence p.clauses) hdepth₁
  have hd₂ : deepest q.clauses < config.settings.maxDepth :=
    Nat.lt_of_le_of_lt (deepest_le_depth_ofSequence q.clauses) hdepth₂
  have hd : deepest (p.append q).clauses < config.settings.maxDepth := by
    rw [p.clauses_append, deepest_append]
    exact Nat.max_lt.2 ⟨hd₁, hd₂⟩
  obtain ⟨k₁, hk₁, rfl⟩ := (compileQuery_of_clauses config hp hd₁ f₁).1 hf₁
  obtain ⟨k₂, hk₂, rfl⟩ := (compileQuery_of_clauses config hq hd₂ f₂).1 hf₂
  -- the clauses of the second query are added to what those of the first have come to
  obtain ⟨k, hk⟩ := visitAll_ok_of_ok hk₂ k₁
  have hwhole : (visitAll config (config.scope [⟨none, none⟩]) {} (p.append q).clauses).result =
      .ok k := by
    rw [p.clauses_append, visitAll_append, hk₁]
    exact hk
  refine ⟨_, (compileQuery_of_clauses config (juxtaposed_form hp hq) hd _).2 ⟨k, hwhole, rfl⟩, ?_⟩
  intro ρ
  have hand : (config.scope [⟨none, none⟩]).op = .and := hop
  have hr₁ := visitAll_represents config ρ _ {} p.clauses [] k₁ rfl hk₁
  have hr₂ := visitAll_represents config ρ _ {} q.clauses [] k₂ rfl hk₂
  have hr := visitAll_represents config ρ _ k₁ q.clauses _ k hr₁ hk
  rw [hand] at hr₁ hr₂ hr
  rw [hr.holds_iff, hr₁.holds_iff, hr₂.holds_iff, conjunction_append]
  rfl

/-- Alone the disjunction is the whole query; next to the other clause it is a group of its own. -/
theorem compileQuery_juxtaposed_lifted :
    let config : Config := { settings := { defaultOp := .and, maxDepth := 2 } }
    let either : Filter := .join .or [.term "a" "1", .term "b" "2"]
    let neither : Filter := .not (.term "c" "3")
    (config.compileQuery "a:1 OR b:2").result = .ok either ∧
      (config.compileQuery "-c:3").result = .ok neither ∧
      ∃ f, (config.compileQuery "a:1 OR b:2 -c:3").result = .ok f ∧
        ∀ ρ, f.Holds ρ ↔ either.Holds ρ ∧ neither.Holds ρ := by
  intro config either neither
  let root₁ : Group :=
    { op := some .or
      children :=
        [.leaf { field := some "a" } (.term "1" false),
          .leaf { field := some "b" } (.term "2" false)] }
  let root₂ : Group :=
    { children := [.leaf { field := some "c", occur := some .prohibited } (.term "3" false)] }
  have hroot₁ : parseWithin config.settings.maxDepth "a:1 OR b:2" = .ok root₁ := by decide +kernel
  have hroot₂ : parseWithin config.settings.maxDepth "-c:3" = .ok root₂ := by decide +kernel
  have hf₁ : (config.compileQuery "a:1 OR b:2").result = .ok either := by
    rw [Config.compileQuery, hroot₁]
    rfl
  have hf₂ : (config.compileQuery "-c:3").result = .ok neither := by
    rw [Config.compileQuery, hroot₂]
    rfl
  have hboth := compileQuery_juxtaposed (show config.settings.defaultOp = .and from rfl) hroot₁ hroot₂
    (by decide) (by decide) hf₁ hf₂
  exact ⟨hf₁, hf₂, hboth⟩

end SearchQuery
