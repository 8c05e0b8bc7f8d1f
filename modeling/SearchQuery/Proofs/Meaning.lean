import SearchQuery.Filter.Compile

/-!
# SearchQuery.Proofs.Meaning

What a clause tree means, and that compiling keeps it.

A filter is true or false once it is known which constraints hold (`Filter.Holds`). A clause is true
or false in the same way, said on the tree itself: each leaf by the filter its expansion ends with,
each group by the values of those of its clauses that contribute (`meaning`). No filter is put
together for it, so nothing of how filters are joined and flattened is in that definition.

* `combine_holds`, `negate_holds` — flattening and the removal of a double negation keep the truth.
* `visitAll_represents`           — the loop over the clauses of a group, from any accumulator.
* `compile_holds_iff`             — the filter of a tree is true exactly when the tree is.
-/

namespace SearchQuery

/-! ## Truth of filters -/

namespace Filter

mutual

/-- Whether a filter lets a document pass on which `ρ` says what constraints hold. -/
def Holds (ρ : Constraint → Prop) : Filter → Prop
  | .matchAll => True
  | .leaf c => ρ c
  | .join .and parts => AllHold ρ parts
  | .join .or parts => AnyHolds ρ parts
  | .not f => ¬ f.Holds ρ

def AllHold (ρ : Constraint → Prop) : List Filter → Prop
  | [] => True
  | f :: fs => f.Holds ρ ∧ AllHold ρ fs

def AnyHolds (ρ : Constraint → Prop) : List Filter → Prop
  | [] => False
  | f :: fs => f.Holds ρ ∨ AnyHolds ρ fs

end

/-- Truth of a list of filters that stand under one connective. -/
def ListHolds (ρ : Constraint → Prop) : Connective → List Filter → Prop
  | .and => AllHold ρ
  | .or => AnyHolds ρ

theorem join_holds (ρ : Constraint → Prop) (op : Connective) (parts : List Filter) :
    (join op parts).Holds ρ ↔ ListHolds ρ op parts := by
  cases op <;> simp only [Holds, ListHolds]

end Filter

/-- A connective on two statements. -/
def Connective.holds : Connective → Prop → Prop → Prop
  | .and => And
  | .or => Or

namespace Filter

theorem allHold_append (ρ : Constraint → Prop) (fs gs : List Filter) :
    AllHold ρ (fs ++ gs) ↔ AllHold ρ fs ∧ AllHold ρ gs := by
  induction fs with
  | nil => simp [AllHold]
  | cons f fs ih => simp only [List.cons_append, AllHold, ih, and_assoc]

theorem anyHolds_append (ρ : Constraint → Prop) (fs gs : List Filter) :
    AnyHolds ρ (fs ++ gs) ↔ AnyHolds ρ fs ∨ AnyHolds ρ gs := by
  induction fs with
  | nil => simp [AnyHolds]
  | cons f fs ih => simp only [List.cons_append, AnyHolds, ih, or_assoc]

theorem listHolds_append (ρ : Constraint → Prop) (op : Connective) (fs gs : List Filter) :
    ListHolds ρ op (fs ++ gs) ↔ op.holds (ListHolds ρ op fs) (ListHolds ρ op gs) := by
  cases op with
  | and => exact allHold_append ρ fs gs
  | or => exact anyHolds_append ρ fs gs

theorem listHolds_singleton (ρ : Constraint → Prop) (op : Connective) (f : Filter) :
    ListHolds ρ op [f] ↔ f.Holds ρ := by
  cases op <;> simp [ListHolds, AllHold, AnyHolds]

/-- Opening up a join under its own connective keeps its truth. -/
theorem operands_holds (ρ : Constraint → Prop) (op : Connective) (f : Filter) :
    ListHolds ρ op (f.operands op) ↔ f.Holds ρ := by
  unfold operands
  split
  · rename_i op' parts
    split
    · rename_i heq
      subst heq
      exact (join_holds ρ op' parts).symm
    · exact listHolds_singleton ρ op _
  · exact listHolds_singleton ρ op _

theorem combine_holds (ρ : Constraint → Prop) (op : Connective) (f g : Filter) :
    (f.combine op g).Holds ρ ↔ op.holds (f.Holds ρ) (g.Holds ρ) := by
  unfold combine
  rw [join_holds, listHolds_append]
  cases op <;> simp only [Connective.holds, operands_holds]

theorem negate_holds (ρ : Constraint → Prop) (f : Filter) : f.negate.Holds ρ ↔ ¬ f.Holds ρ := by
  unfold negate
  split
  · rename_i g
    simp only [Holds, Classical.not_not]
  · rfl

end Filter

/-! ## Truth of clauses -/

/-- Whether a clause is inverted. Two marks that ask for it invert it once. -/
def Marks.inverts (m : Marks) : Bool :=
  m.negated || m.occur = some .prohibited

/-- The value of a clause, from the value it has without its marks. -/
def Marks.value (m : Marks) (base : Prop) : Prop :=
  if m.inverts then ¬ base else base

/-- What a contributing clause gives to its group. -/
structure Operand where
  required : Bool
  value : Prop

def Marks.operand (m : Marks) (base : Prop) : Operand where
  required := m.occur = some .required
  value := m.value base

def Conjunction (os : List Operand) : Prop :=
  ∀ o ∈ os, o.value

/-- The required operands after position `i` are true. -/
def RequiredAfter (os : List Operand) (i : Nat) : Prop :=
  ∀ j o, i < j → os[j]? = some o → o.required = true → o.value

/-- An operand is true that is the first or not required, and so are the required ones after it. -/
def Disjunction (os : List Operand) : Prop :=
  ∃ i o, os[i]? = some o ∧ (i = 0 ∨ o.required = false) ∧ o.value ∧ RequiredAfter os i

def Connective.value : Connective → List Operand → Prop
  | .and => Conjunction
  | .or => Disjunction

/-- The filter with which the expansion of a leaf ends; `none` when the leaf is suppressed or its
expansion fails. -/
def leafFilter? (config : Config) (scope : Scope) (marks : Marks) (leaf : Leaf) : Option Filter :=
  let field := scope.qualify marks.field
  match leafConstraint scope.op field (field.any config.schema.isAnalyzed) leaf with
  | none => none
  | some constraint =>
    match (Expander.runAll config.expanders (.leaf marks leaf)
      { defaultField := scope.defaultField, filter := .leaf constraint }).result with
    | .error _ => none
    | .ok context => some context.filter

mutual

/-- The value of a clause without its marks; `none` when it contributes nothing. A group that names
no connective takes the configured one. -/
def meaning (config : Config) (ρ : Constraint → Prop) (scope : Scope) : Clause → Option Prop
  | .leaf marks leaf => (leafFilter? config scope marks leaf).map (Filter.Holds ρ)
  | .group marks op _ children =>
    let op := op.getD config.settings.defaultOp
    match contributions config ρ (scope.enter op marks.field) children with
    | [] => none
    | os => some (op.value os)

/-- The clauses that contribute, in their order. -/
def contributions (config : Config) (ρ : Constraint → Prop) (scope : Scope) :
    List Clause → List Operand
  | [] => []
  | c :: cs =>
    match meaning config ρ scope c with
    | none => contributions config ρ scope cs
    | some base => c.marks.operand base :: contributions config ρ scope cs

end

/-- The value of a whole tree. One that contributes nothing is true. -/
def Clause.Meant (config : Config) (ρ : Constraint → Prop) (root : Clause) : Prop :=
  match meaning config ρ config.rootScope root with
  | none => True
  | some base => root.marks.value base

/-! ## One more operand -/

theorem conjunction_snoc (os : List Operand) (o : Operand) :
    Conjunction (os ++ [o]) ↔ Conjunction os ∧ o.value := by
  simp only [Conjunction, List.mem_append, List.mem_singleton, or_imp, forall_and, forall_eq]

theorem requiredAfter_length (os : List Operand) (i : Nat) (hi : os.length ≤ i + 1) :
    RequiredAfter os i := by
  intro j o hj ho
  rw [List.getElem?_eq_none (by omega)] at ho
  cases ho

theorem requiredAfter_snoc {os : List Operand} {i : Nat} (o : Operand) (hi : i < os.length) :
    RequiredAfter (os ++ [o]) i ↔ RequiredAfter os i ∧ (o.required = true → o.value) := by
  constructor
  · intro h
    refine ⟨fun j r hj hr => h j r hj ?_, h os.length o hi (by simp)⟩
    rw [List.getElem?_append_left (List.getElem?_eq_some_iff.1 hr).1]
    exact hr
  · rintro ⟨h, ho⟩ j r hj hr
    by_cases hjl : j < os.length
    · rw [List.getElem?_append_left hjl] at hr
      exact h j r hj hr
    · rw [List.getElem?_append_right (Nat.le_of_not_lt hjl)] at hr
      obtain rfl : r = o := List.mem_singleton.1 (List.mem_of_getElem? hr)
      exact ho

theorem disjunction_singleton (o : Operand) : Disjunction [o] ↔ o.value := by
  constructor
  · rintro ⟨i, p, hi, _, hv, _⟩
    obtain rfl : p = o := List.mem_singleton.1 (List.mem_of_getElem? hi)
    exact hv
  · intro hv
    exact ⟨0, o, rfl, .inl rfl, hv, requiredAfter_length _ _ (Nat.le_refl _)⟩

/-- The operand that makes the disjunction true is an old one, which the new one must not undo, or
the new one itself. -/
theorem disjunction_snoc {os : List Operand} (o : Operand) (hos : os ≠ []) :
    Disjunction (os ++ [o]) ↔
      (Disjunction os ∧ (o.required = true → o.value)) ∨ (o.required = false ∧ o.value) := by
  have hpos : 0 < os.length := List.length_pos_iff.2 hos
  constructor
  · rintro ⟨i, p, hi, hfirst, hv, hafter⟩
    by_cases hlt : i < os.length
    · rw [List.getElem?_append_left hlt] at hi
      rw [requiredAfter_snoc o hlt] at hafter
      exact .inl ⟨⟨i, p, hi, hfirst, hv, hafter.1⟩, hafter.2⟩
    · rw [List.getElem?_append_right (Nat.le_of_not_lt hlt)] at hi
      obtain rfl : p = o := List.mem_singleton.1 (List.mem_of_getElem? hi)
      exact .inr ⟨hfirst.resolve_left (by omega), hv⟩
  · rintro (⟨⟨i, p, hi, hfirst, hv, hafter⟩, ho⟩ | ⟨hopt, hv⟩)
    · have hlt : i < os.length := (List.getElem?_eq_some_iff.1 hi).1
      refine ⟨i, p, ?_, hfirst, hv, (requiredAfter_snoc o hlt).2 ⟨hafter, ho⟩⟩
      rw [List.getElem?_append_left hlt]
      exact hi
    · exact ⟨os.length, o, by simp, .inr hopt, hv, requiredAfter_length _ _ (by simp)⟩

theorem value_singleton (op : Connective) (o : Operand) : op.value [o] ↔ o.value := by
  cases op with
  | and => simp [Connective.value, Conjunction]
  | or => exact disjunction_singleton o

/-- Adding an operand to a group that has one already is one step of the connective, where a
required operand is added by conjunction. -/
theorem value_snoc (op : Connective) {os : List Operand} (o : Operand) (hos : os ≠ []) :
    op.value (os ++ [o]) ↔
      (if o.required then .and else op : Connective).holds (op.value os) o.value := by
  cases op with
  | and =>
    rw [ite_self]
    exact conjunction_snoc os o
  | or =>
    show Disjunction _ ↔ _
    rw [disjunction_snoc o hos]
    cases o.required <;> simp [Connective.holds, Connective.value]

/-! ## Compiling keeps the meaning -/

/-- A filter, or none, has the value of a clause, or none. -/
def Agrees (ρ : Constraint → Prop) : Option Filter → Option Prop → Prop
  | none, none => True
  | some f, some base => f.Holds ρ ↔ base
  | _, _ => False

/-- A filter, or none, stands for the operands joined so far. -/
def Represents (ρ : Constraint → Prop) (op : Connective) : Option Filter → List Operand → Prop
  | none, os => os = []
  | some f, os => os ≠ [] ∧ (f.Holds ρ ↔ op.value os)

/-- One step of the accumulation, for a clause that contributes. -/
theorem joinFilter_represents {ρ : Constraint → Prop} {op : Connective} {before : Option Filter}
    {os : List Operand} (h : Represents ρ op before os) (marks : Marks) {f : Filter} {base : Prop}
    (hf : f.Holds ρ ↔ base) :
    Represents ρ op (some (joinFilter op marks before f)) (os ++ [marks.operand base]) := by
  refine ⟨by simp, ?_⟩
  -- a filter is inverted on its own, before it meets what is there
  have hin : (if marks.negated || marks.occur = some .prohibited then f.negate else f).Holds ρ ↔
      marks.value base := by
    unfold Marks.value Marks.inverts
    split
    · rw [Filter.negate_holds, hf]
    · exact hf
  cases before with
  | none =>
    obtain rfl : os = [] := h
    simp only [joinFilter, List.nil_append, value_singleton]
    exact hin
  | some g =>
    obtain ⟨hos, hg⟩ := h
    simp only [joinFilter]
    rw [Filter.combine_holds, value_snoc op _ hos, hin, hg]
    simp only [Marks.operand, decide_eq_true_eq]

/-- One step of the loop over the clauses of a group. -/
theorem add_represents {ρ : Constraint → Prop} {op : Connective} {before : Contribution}
    {os : List Operand} (h : Represents ρ op before.filter os) (marks : Marks) {next : Contribution}
    {base : Option Prop} (hn : Agrees ρ next.filter base) :
    Represents ρ op (before.add op marks next).filter
      (os ++ (base.map marks.operand).toList) := by
  unfold Contribution.add
  cases hf : next.filter with
  | none =>
    rw [hf] at hn
    cases base with
    | none => simpa using h
    | some p => cases hn
  | some f =>
    rw [hf] at hn
    cases base with
    | none => cases hn
    | some p => exact joinFilter_represents h marks hn

theorem visitLeaf_agrees {config : Config} {scope : Scope} {marks : Marks} {leaf : Leaf}
    {k : Contribution} (ρ : Constraint → Prop)
    (h : (visitLeaf config scope marks leaf).result = .ok k) :
    Agrees ρ k.filter ((leafFilter? config scope marks leaf).map (Filter.Holds ρ)) := by
  unfold visitLeaf at h
  unfold leafFilter?
  dsimp only at h ⊢
  cases hc : leafConstraint scope.op (scope.qualify marks.field)
      ((scope.qualify marks.field).any config.schema.isAnalyzed) leaf with
  | none =>
    simp only [hc, Traced.result_bind, Traced.result_emit, Traced.result_pure] at h
    cases h
    trivial
  | some c =>
    simp only [hc, Traced.result_bind, Traced.result_emit, Traced.result_pure,
      Traced.result_mapError] at h
    cases hx : (Expander.runAll config.expanders (.leaf marks leaf)
        { defaultField := scope.defaultField, filter := .leaf c }).result with
    | error e => rw [hx] at h; cases h
    | ok context =>
      rw [hx] at h
      cases h
      simp only [hx]
      exact Iff.rfl

theorem contributions_cons (config : Config) (ρ : Constraint → Prop) (scope : Scope) (c : Clause)
    (cs : List Clause) :
    contributions config ρ scope (c :: cs) =
      ((meaning config ρ scope c).map c.marks.operand).toList ++
        contributions config ρ scope cs := by
  rw [contributions]
  cases meaning config ρ scope c <;> rfl

mutual

theorem visit_agrees (config : Config) (ρ : Constraint → Prop) :
    ∀ (scope : Scope) (c : Clause) (k : Contribution), (visit config scope c).result = .ok k →
      Agrees ρ k.filter (meaning config ρ scope c)
  | scope, .leaf marks leaf, k, h => by
    rw [meaning]
    exact visitLeaf_agrees ρ (by rwa [visit] at h)
  | scope, .group marks op _ children, k, h => by
    rw [visit] at h
    split at h
    · cases h
    · -- before the first clause there is no filter, which stands for no operands
      have hr := visitAll_represents config ρ _ {} children [] k rfl h
      rw [List.nil_append] at hr
      rw [meaning]
      cases hk : k.filter with
      | none =>
        rw [hk] at hr
        rw [show contributions config ρ _ children = [] from hr]
        trivial
      | some f =>
        rw [hk] at hr
        split
        · rename_i hnil
          exact absurd hnil hr.1
        · exact hr.2

/-- The loop over the clauses of a group: if the accumulator stands for the operands before them,
the result stands for these and what the clauses contribute. -/
theorem visitAll_represents (config : Config) (ρ : Constraint → Prop) :
    ∀ (scope : Scope) (before : Contribution) (cs : List Clause) (os : List Operand)
      (k : Contribution), Represents ρ scope.op before.filter os →
      (visitAll config scope before cs).result = .ok k →
      Represents ρ scope.op k.filter (os ++ contributions config ρ scope cs)
  | scope, before, [], os, k, hb, h => by
    rw [visitAll, Traced.result_pure] at h
    cases h
    rw [contributions, List.append_nil]
    exact hb
  | scope, before, c :: cs, os, k, hb, h => by
    rw [visitAll, Traced.result_bind] at h
    cases hv : (visit config scope c).result with
    | error e => rw [hv] at h; cases h
    | ok next =>
      rw [hv] at h
      have hstep := add_represents hb c.marks (visit_agrees config ρ scope c next hv)
      rw [contributions_cons, ← List.append_assoc]
      exact visitAll_represents config ρ scope _ cs _ k hstep h

end

/-- The filter that a tree compiles to is true exactly when the tree is, whatever constraints hold,
and it is the one that lets everything pass when nothing in the tree contributes. -/
theorem compile_holds_iff {config : Config} {root : Clause} {f : Filter}
    (h : (config.compile root).result = .ok f) (ρ : Constraint → Prop) :
    (f.Holds ρ ↔ root.Meant config ρ) ∧
      (meaning config ρ config.rootScope root = none → f = .matchAll) := by
  unfold Config.compile at h
  rw [Traced.result_bind] at h
  cases hv : (visitAll config config.rootScope {} [root]).result with
  | error e => rw [hv] at h; cases h
  | ok total =>
    rw [hv] at h
    simp only [Traced.result_bind, Traced.result_emit, Traced.result_pure] at h
    -- the root is joined like the only clause of a group, so its own marks count too
    have hr := visitAll_represents config ρ config.rootScope {} [root] [] total rfl hv
    rw [List.nil_append, contributions_cons, contributions, List.append_nil] at hr
    obtain rfl : total.filter.getD .matchAll = f := Except.ok.inj h
    unfold Clause.Meant
    cases hm : meaning config ρ config.rootScope root with
    | none =>
      rw [hm] at hr
      cases hf : total.filter with
      | none => exact ⟨Iff.rfl, fun _ => rfl⟩
      | some g =>
        rw [hf] at hr
        exact absurd rfl hr.1
    | some base =>
      rw [hm] at hr
      cases hf : total.filter with
      | none =>
        rw [hf] at hr
        cases hr
      | some g =>
        rw [hf] at hr
        exact ⟨hr.2.trans (value_singleton _ _), fun hnone => by cases hnone⟩

/-- The conjunction has a field, and in it stands a group that names no connective and so is a
disjunction, in which `d` is required but `e` is an alternative. What `a` asks is changed by an
expander. The tree is true of a document that has only `e`, and not of one that has only `c`. -/
theorem compile_holds_iff_nested :
    let a : Clause := .leaf { field := some "x" } (.term "a" false)
    let expander : Expander := fun clause context =>
      pure (if clause = a then { context with filter := .presence .present "x" } else context)
    let config : Config := { expanders := [expander] }
    let inner : Clause := .group {} none true
      [.leaf { field := some "y" } (.term "c" false),
        .leaf { field := some "y", occur := some .required } (.term "d" false),
        .leaf { field := some "z" } (.term "e" false)]
    let root : Clause := .group {} none false
      [a,
        .group { field := some "p" } (some .and) true
          [.leaf { field := some "y", occur := some .prohibited } (.term "b" false),
            .leaf {} (.range {}), inner]]
    let f : Filter := .join .or [.presence .present "x",
      .join .and [.not (.term "p.y" "b"),
        .join .or [.join .and [.term "p.y" "c", .term "p.y" "d"], .term "p.z" "e"]]]
    (config.compile root).result = .ok f ∧
      root.Meant config (fun c => c = .term "p.z" "e") ∧
      ¬ root.Meant config (fun c => c = .term "p.y" "c") := by
  intro a expander config inner root f
  have hcompile : (config.compile root).result = .ok f := rfl
  refine ⟨hcompile, (compile_holds_iff hcompile _).1.1 ?_, fun hmeant => ?_⟩
  · simp [f, Filter.Holds, Filter.AllHold, Filter.AnyHolds, Filter.term, Filter.presence]
  · have hholds := (compile_holds_iff hcompile _).1.2 hmeant
    simp [f, Filter.Holds, Filter.AllHold, Filter.AnyHolds, Filter.term, Filter.presence] at hholds

end SearchQuery
