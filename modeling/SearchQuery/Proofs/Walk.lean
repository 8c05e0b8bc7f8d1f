import Mathlib.Data.List.Forall2
import Mathlib.Data.List.Induction
import SearchQuery.Filter.Compile

/-!
# SearchQuery.Proofs.Walk

The way a compilation takes through a clause tree.

The compiler carries a scope that it changes at every group. What a leaf gets from it is said here
on the tree alone, by the groups around the leaf: its full name, the connective it stands under, the
field it falls back on. A tree is then a list of stops in the order in which they are met, which are
the entries of its groups and its leaves. A compilation that succeeds is what came of the leaves,
each compiled once and in its place, gathered up along the tree.

* `Clause.stops`, `Clause.leaves` — the stops of a tree, and the leaves among them.
* `Config.scope_eq`               — what the scope holds, from the groups that were entered.
* `Expander.Passes`               — a run of expanders in which none fails.
* `Occurrence.Compiles`           — what may come of a leaf.
* `joinFilter_cases`              — what joining a filter with those before it can do.
* `visitAll_gathered`             — the loop over the clauses of a group, from any accumulator.
* `compile_gathered`              — a whole tree: its reports, and how its filter comes about.
-/

namespace SearchQuery

/-! ## Places in a tree -/

/-- What the leaves in a group see of it. -/
structure Enclosure where
  field : Option String
  op : Option Connective

/-- A leaf in its place. The groups around it are listed from the outermost inward. -/
structure Occurrence where
  groups : List Enclosure
  marks : Marks
  leaf : Leaf

inductive Stop where
  /-- A group is entered; it is the last of `groups`. -/
  | entry (groups : List Enclosure)
  | leaf (occurrence : Occurrence)

def Stop.occurrence? : Stop → Option Occurrence
  | .entry _ => none
  | .leaf o => some o

namespace Clause

mutual

/-- The stops of a clause that stands in `groups`, in the order of the text. -/
def stops (groups : List Enclosure) : Clause → List Stop
  | .leaf marks l => [.leaf ⟨groups, marks, l⟩]
  | .group marks op _ children =>
    .entry (groups ++ [⟨marks.field, op⟩]) :: stopsAll (groups ++ [⟨marks.field, op⟩]) children

def stopsAll (groups : List Enclosure) : List Clause → List Stop
  | [] => []
  | c :: cs => c.stops groups ++ stopsAll groups cs

end

theorem stopsAll_append (groups : List Enclosure) (cs ds : List Clause) :
    stopsAll groups (cs ++ ds) = stopsAll groups cs ++ stopsAll groups ds := by
  induction cs with
  | nil => simp [stopsAll]
  | cons c cs ih => simp [stopsAll, ih]

/-- The leaves of a whole tree, each in its place. -/
def leaves (root : Clause) : List Occurrence :=
  (root.stops []).filterMap Stop.occurrence?

end Clause

/-! ## What a place determines -/

/-- What joins the clauses of the innermost group. -/
def Config.connective (config : Config) (groups : List Enclosure) : Connective :=
  (groups.getLast?.bind Enclosure.op).getD config.settings.defaultOp

/-- The field of the nearest group that has one, else the configured one. -/
def Config.nearestField (config : Config) (groups : List Enclosure) : Option String :=
  (groups.reverse.findSome? Enclosure.field).or config.settings.defaultField

namespace Occurrence

def clause (o : Occurrence) : Clause :=
  .leaf o.marks o.leaf

/-- The full name of a leaf's field: the fields of the groups around it and its own. The configured
field stands in only where no group and no mark names one. -/
def name (config : Config) (o : Occurrence) : Option String :=
  match o.groups.filterMap Enclosure.field, o.marks.field with
  | [], own => own.or config.settings.defaultField
  | fields, none => some (".".intercalate fields)
  | fields, some own => some (".".intercalate fields ++ "." ++ own)

def analyzed (config : Config) (o : Occurrence) : Bool :=
  (o.name config).any config.schema.isAnalyzed

/-- The field is known and holds whole values. -/
def exact (config : Config) (o : Occurrence) : Bool :=
  (o.name config).any fun field => !config.schema.isAnalyzed field

/-- A range or a presence test is left out unless it is on an exact field, and a range also when all
its bounds are blank. -/
def suppressed (config : Config) (o : Occurrence) : Bool :=
  match o.leaf with
  | .term _ _ => false
  | .range r => !o.exact config || (r.min.all Text.isBlankText && r.max.all Text.isBlankText)
  | .presence _ => !o.exact config

/-- What a leaf asks. Besides the leaf itself only its name and the connective it stands under
decide. -/
def constraint? (config : Config) (o : Occurrence) : Option Constraint :=
  leafConstraint (config.connective o.groups) (o.name config) (o.analyzed config) o.leaf

/-- What the expanders are given first. -/
def context (config : Config) (o : Occurrence) (c : Constraint) : Context where
  defaultField := config.nearestField o.groups
  filter := .leaf c

end Occurrence

/-! ## The scope of a place -/

/-- The scope after the groups were entered one after the other. -/
def Config.scope (config : Config) (groups : List Enclosure) : Scope :=
  groups.foldl (fun s g => s.enter (g.op.getD config.settings.defaultOp) g.field) config.rootScope

theorem Config.scope_snoc (config : Config) (groups : List Enclosure) (g : Enclosure) :
    config.scope (groups ++ [g]) =
      (config.scope groups).enter (g.op.getD config.settings.defaultOp) g.field := by
  simp [Config.scope]

theorem Config.scope_eq (config : Config) (groups : List Enclosure) :
    config.scope groups =
      { op := config.connective groups
        rootField := config.settings.defaultField
        fields := groups.filterMap Enclosure.field
        depth := groups.length } := by
  induction groups using List.reverseRecOn with
  | nil => rfl
  | append_singleton groups g ih =>
    rw [Config.scope_snoc, ih]
    cases hf : g.field <;> simp [Scope.enter, Config.connective, hf]

@[simp] theorem Config.scope_op (config : Config) (groups : List Enclosure) :
    (config.scope groups).op = config.connective groups := by
  rw [Config.scope_eq]

@[simp] theorem Config.scope_depth (config : Config) (groups : List Enclosure) :
    (config.scope groups).depth = groups.length := by
  rw [Config.scope_eq]

@[simp] theorem Config.scope_defaultField (config : Config) (groups : List Enclosure) :
    (config.scope groups).defaultField = config.nearestField groups := by
  rw [Config.scope_eq, Scope.defaultField, Config.nearestField, List.getLast?_filterMap]

/-- A part more stands after one separator more, unless it is the first. -/
theorem intercalate_snoc (sep last : String) {parts : List String} (h : parts ≠ []) :
    sep.intercalate (parts ++ [last]) = sep.intercalate parts ++ sep ++ last := by
  induction parts with
  | nil => exact absurd rfl h
  | cons p ps ih =>
    cases ps with
    | nil => simp [String.intercalate_cons_cons]
    | cons q qs =>
      have hqs := ih (List.cons_ne_nil q qs)
      simp only [List.cons_append, String.intercalate_cons_cons] at hqs ⊢
      rw [hqs]
      simp only [String.append_assoc]

theorem Config.scope_qualify (config : Config) (o : Occurrence) :
    (config.scope o.groups).qualify o.marks.field = o.name config := by
  rw [Config.scope_eq, Scope.qualify, Occurrence.name]
  dsimp only
  cases hfields : o.groups.filterMap Enclosure.field with
  | nil => simp
  | cons field fields =>
    cases o.marks.field with
    | none => simp
    | some own =>
      have hne : field :: fields ≠ [] := List.cons_ne_nil field fields
      simp [← intercalate_snoc "." own hne]

/-! ## Suppression -/

theorem usableBound_eq_none_iff (bound : Option String) :
    usableBound bound = none ↔ bound.all Text.isBlankText = true := by
  cases bound with
  | none => simp [usableBound]
  | some s => simp [usableBound, Option.filter]

theorem Range.bounds?_eq_none_iff (r : Range) (field : String) :
    r.bounds? field = none ↔
      (r.min.all Text.isBlankText && r.max.all Text.isBlankText) = true := by
  rw [Bool.and_eq_true, ← usableBound_eq_none_iff, ← usableBound_eq_none_iff, Range.bounds?]
  dsimp only [Bounds.isUnbounded]
  by_cases hmin : r.minInclusive = some false <;> by_cases hmax : r.maxInclusive = some false <;>
    simp [hmin, hmax]

/-- A leaf asks nothing exactly when it is one of those that are left out. -/
theorem Occurrence.constraint?_eq_none_iff (config : Config) (o : Occurrence) :
    o.constraint? config = none ↔ o.suppressed config = true := by
  unfold Occurrence.constraint? Occurrence.suppressed Occurrence.exact Occurrence.analyzed
  cases o.leaf with
  | term text quoted => simp [leafConstraint]
  | range r =>
    cases o.name config with
    | none => simp [leafConstraint]
    | some field =>
      cases ha : config.schema.isAnalyzed field with
      | false => simp [leafConstraint, ha, Range.bounds?_eq_none_iff]
      | true => simp [leafConstraint, ha]
  | presence p =>
    cases o.name config with
    | none => simp [leafConstraint]
    | some field => cases ha : config.schema.isAnalyzed field <;> simp [leafConstraint, ha]

/-! ## Expanders -/

namespace Expander

/-- The expanders run one after the other, each on what the one before it has left, and none fails.
Their reports stand in that order. -/
inductive Passes (clause : Clause) : List Expander → Context → List Event → Context → Prop where
  | nil {context : Context} : Passes clause [] context [] context
  | cons {r : Expander} {rs : List Expander} {before middle after : Context}
      {events events' : List Event} :
      r clause before = ⟨events, .ok middle⟩ → Passes clause rs middle events' after →
      Passes clause (r :: rs) before (events ++ events') after

theorem runAll_passes {clause : Clause} {rs : List Expander} {before after : Context}
    (h : (runAll rs clause before).result = .ok after) :
    Passes clause rs before (runAll rs clause before).events after := by
  induction rs generalizing before with
  | nil =>
    rw [runAll, Traced.result_pure] at h
    cases h
    exact .nil
  | cons r rs ih =>
    rw [runAll] at h ⊢
    cases hr : (r clause before).result with
    | error e =>
      rw [Traced.result_bind, hr] at h
      cases h
    | ok middle =>
      rw [Traced.bind_of_ok hr] at h ⊢
      exact .cons (by rw [← hr]) (ih h)

end Expander

/-! ## What comes of a leaf -/

/-- The reports about a leaf, and its filter unless it was suppressed. -/
structure Outcome where
  events : List Event
  filter : Option Filter

/-- A leaf that is suppressed is left out. On what any other asks all expanders are run, once and in
order. -/
inductive Occurrence.Compiles (config : Config) (o : Occurrence) : Outcome → Prop where
  | suppressed (h : o.suppressed config = true) :
      Compiles config o ⟨[.suppressedLeaf o.clause (o.name config) (o.analyzed config)], none⟩
  | expanded {c : Constraint} {events : List Event} {context : Context}
      (h : o.constraint? config = some c)
      (hrun : Expander.Passes o.clause config.expanders (o.context config c) events context) :
      Compiles config o
        ⟨.compiledLeaf o.clause (o.name config) (o.analyzed config) :: events, some context.filter⟩

def Outcome.contribution (x : Outcome) : Contribution :=
  match x.filter with
  | none => { suppressed := 1 }
  | some f => { filter := some f, leaves := 1 }

theorem visitLeaf_of_none {config : Config} {o : Occurrence} (h : o.constraint? config = none) :
    visitLeaf config (config.scope o.groups) o.marks o.leaf =
      ⟨[.suppressedLeaf o.clause (o.name config) (o.analyzed config)],
        .ok { suppressed := 1 }⟩ := by
  unfold Occurrence.constraint? Occurrence.analyzed at h
  simp only [visitLeaf, Config.scope_qualify, Config.scope_op, h]
  rfl

theorem visitLeaf_of_some {config : Config} {o : Occurrence} {c : Constraint}
    (h : o.constraint? config = some c) :
    visitLeaf config (config.scope o.groups) o.marks o.leaf =
      Traced.emit (.compiledLeaf o.clause (o.name config) (o.analyzed config)) >>= fun _ =>
        (Expander.runAll config.expanders o.clause (o.context config c)).mapError .expansion >>=
          fun context => pure { filter := some context.filter, leaves := 1 } := by
  unfold Occurrence.constraint? Occurrence.analyzed at h
  simp only [visitLeaf, Config.scope_qualify, Config.scope_op, Config.scope_defaultField, h]
  rfl

theorem visitLeaf_compiles {config : Config} {o : Occurrence} {k : Contribution}
    (h : (visitLeaf config (config.scope o.groups) o.marks o.leaf).result = .ok k) :
    ∃ x, o.Compiles config x ∧ x.contribution = k ∧
      (visitLeaf config (config.scope o.groups) o.marks o.leaf).events = x.events := by
  cases hc : o.constraint? config with
  | none =>
    rw [visitLeaf_of_none hc] at h ⊢
    cases h
    exact ⟨_, .suppressed ((o.constraint?_eq_none_iff config).1 hc), rfl, rfl⟩
  | some c =>
    rw [visitLeaf_of_some hc, Traced.bind_of_ok (Traced.result_emit _)] at h ⊢
    cases hx : (Expander.runAll config.expanders o.clause (o.context config c)).result with
    | error e =>
      simp only [Traced.result_bind, Traced.result_mapError, hx] at h
      cases h
    | ok context =>
      have hmap : ((Expander.runAll config.expanders o.clause
          (o.context config c)).mapError CompileError.expansion).result = .ok context := by
        rw [Traced.result_mapError, hx]
        rfl
      rw [Traced.bind_of_ok hmap] at h ⊢
      cases h
      refine ⟨_, .expanded hc (Expander.runAll_passes hx), rfl, ?_⟩
      exact congrArg (List.cons _) (List.append_nil _)

/-! ## What comes of a tree -/

/-- The outcomes of some leaves, in their order, put together to one contribution. How the tree
groups them decides the connectives and the marks, and is left open here. -/
inductive Gathered : List Outcome → Contribution → Prop where
  | nothing : Gathered [] {}
  | leaf (x : Outcome) : Gathered [x] x.contribution
  | add {xs ys : List Outcome} {before next : Contribution} (op : Connective) (marks : Marks) :
      Gathered xs before → Gathered ys next → Gathered (xs ++ ys) (before.add op marks next)

/-- What joining can do: the filter comes in as it is or inverted, and stands alone or behind what
was there. -/
theorem joinFilter_cases (op : Connective) (marks : Marks) (before : Option Filter) (f : Filter) :
    ∃ incoming op', (incoming = f ∨ incoming = f.negate) ∧
      joinFilter op marks before f =
        before.elim incoming fun existing => existing.combine op' incoming := by
  refine ⟨if marks.negated || marks.occur = some .prohibited then f.negate else f,
    if marks.occur = some .required then .and else op, ?_, ?_⟩
  · split
    · exact .inr rfl
    · exact .inl rfl
  · cases before <;> rfl

/-- The work on a group, said by its place. -/
theorem visit_group (config : Config) (groups : List Enclosure) (marks : Marks)
    (op : Option Connective) (parens : Bool) (children : List Clause) :
    visit config (config.scope groups) (.group marks op parens children) =
      if config.settings.maxDepth < groups.length + 1 then
        Traced.fail (.tooDeep config.settings.maxDepth)
      else visitAll config (config.scope (groups ++ [⟨marks.field, op⟩])) {} children := by
  rw [visit, ← Config.scope_snoc config groups ⟨marks.field, op⟩, Config.scope_depth,
    List.length_append, List.length_singleton]

mutual

theorem visit_gathered (config : Config) :
    ∀ (c : Clause) (groups : List Enclosure) (k : Contribution),
      (visit config (config.scope groups) c).result = .ok k →
      ∃ xs, List.Forall₂ (Occurrence.Compiles config)
          ((c.stops groups).filterMap Stop.occurrence?) xs ∧
        (visit config (config.scope groups) c).events = xs.flatMap Outcome.events ∧
        Gathered xs k
  | .leaf marks leaf, groups, k, h => by
    rw [visit] at h ⊢
    obtain ⟨x, hx, rfl, hevents⟩ := visitLeaf_compiles (o := ⟨groups, marks, leaf⟩) h
    refine ⟨[x], ?_, ?_, .leaf x⟩
    · rw [Clause.stops]
      exact .cons hx .nil
    · rw [hevents]
      simp
  | .group marks op parens children, groups, k, h => by
    rw [visit_group] at h ⊢
    split at h
    · cases h
    · rename_i hdepth
      rw [if_neg hdepth]
      obtain ⟨xs, hxs, hevents, hk⟩ := visitAll_gathered config children _ {} [] k .nothing h
      refine ⟨xs, ?_, hevents, by simpa using hk⟩
      rw [Clause.stops]
      exact hxs

/-- The loop over the clauses of a group: if the accumulator was gathered from the outcomes before
them, the result is gathered from these and the outcomes of the clauses. -/
theorem visitAll_gathered (config : Config) :
    ∀ (cs : List Clause) (groups : List Enclosure) (before : Contribution) (ys : List Outcome)
      (k : Contribution), Gathered ys before →
      (visitAll config (config.scope groups) before cs).result = .ok k →
      ∃ xs, List.Forall₂ (Occurrence.Compiles config)
          ((Clause.stopsAll groups cs).filterMap Stop.occurrence?) xs ∧
        (visitAll config (config.scope groups) before cs).events = xs.flatMap Outcome.events ∧
        Gathered (ys ++ xs) k
  | [], groups, before, ys, k, hb, h => by
    rw [visitAll] at h ⊢
    cases h
    exact ⟨[], .nil, rfl, by simpa using hb⟩
  | c :: cs, groups, before, ys, k, hb, h => by
    rw [visitAll] at h ⊢
    cases hv : (visit config (config.scope groups) c).result with
    | error e =>
      rw [Traced.result_bind, hv] at h
      cases h
    | ok next =>
      rw [Traced.bind_of_ok hv] at h ⊢
      obtain ⟨xs, hxs, hevents, hnext⟩ := visit_gathered config c groups next hv
      obtain ⟨zs, hzs, hevents', hk⟩ :=
        visitAll_gathered config cs groups _ (ys ++ xs) k (.add _ c.marks hb hnext) h
      refine ⟨xs ++ zs, ?_, ?_, by simpa using hk⟩
      · rw [Clause.stopsAll, List.filterMap_append]
        exact List.rel_append hxs hzs
      · rw [hevents, hevents', List.flatMap_append]

end

/-- The answer for a tree is that for its root, which is joined with nothing and may contribute
nothing. -/
theorem compile_result (config : Config) (root : Clause) :
    (config.compile root).result = (visit config (config.scope []) root).result.map fun k =>
      (Contribution.add {} config.settings.defaultOp root.marks k).filter.getD .matchAll := by
  show _ = Except.map _ (visit config config.rootScope root).result
  simp only [Config.compile, visitAll, Traced.result_bind, Traced.result_emit, Traced.result_pure]
  cases (visit config config.rootScope root).result <;> rfl

/-- A compilation that succeeds: what came of each leaf, the filter gathered from that, and the
reports, which are those about the leaves in their order and one about the whole. -/
theorem compile_gathered {config : Config} {root : Clause} {f : Filter}
    (h : (config.compile root).result = .ok f) :
    ∃ xs total, List.Forall₂ (Occurrence.Compiles config) root.leaves xs ∧ Gathered xs total ∧
      total.filter.getD .matchAll = f ∧
      (config.compile root).events = xs.flatMap Outcome.events ++
        [.compiledFilter total.leaves total.suppressed total.filter.isNone] := by
  unfold Config.compile at h ⊢
  cases hv : (visitAll config config.rootScope {} [root]).result with
  | error e =>
    rw [Traced.result_bind, hv] at h
    cases h
  | ok total =>
    rw [Traced.bind_of_ok hv] at h ⊢
    obtain ⟨xs, hxs, hevents, htotal⟩ := visitAll_gathered config [root] [] {} [] total .nothing hv
    rw [Clause.stopsAll, Clause.stopsAll, List.append_nil] at hxs
    refine ⟨xs, total, hxs, htotal, Except.ok.inj h, ?_⟩
    exact congrArg (· ++ _) hevents

end SearchQuery
