import SearchQuery.Proofs.LeafOrder

/-!
# SearchQuery.Proofs.Neutral

What is suppressed might as well not be written.

Taking the suppressed leaves out of a tree, and with them the groups that are left with nothing,
leaves its filter as it is. It does not matter where they stand or which marks they carry: the first
clause that contributes starts the filter of its group, and what comes before it does not count.

* `Clause.prune`     — a clause without its suppressed leaves.
* `visitAll_prune`   — the loop over the clauses of a group and over those that are left of them.
* `Gathered.counts`  — how many leaves were compiled or suppressed.
* `compile_prune`    — whole trees, and the counts that are reported.
-/

namespace SearchQuery

namespace Clause

mutual

/-- What is left of a clause in `groups` without the suppressed leaves, if anything is. -/
def prune (config : Config) (groups : List Enclosure) : Clause → Option Clause
  | .leaf marks l =>
    if Occurrence.suppressed config ⟨groups, marks, l⟩ then none else some (.leaf marks l)
  | .group marks op parens children =>
    match pruneAll config (groups ++ [⟨marks.field, op⟩]) children with
    | [] => none
    | c :: cs => some (.group marks op parens (c :: cs))

def pruneAll (config : Config) (groups : List Enclosure) : List Clause → List Clause
  | [] => []
  | c :: cs => (c.prune config groups).toList ++ pruneAll config groups cs

end

end Clause

/-- A whole query without its suppressed leaves. The outermost group stays even when it is empty. -/
def Group.prune (config : Config) (g : Group) : Group :=
  { g with children := Clause.pruneAll config [⟨g.marks.field, g.op⟩] g.children }

/-! ## What is left of the leaves -/

mutual

theorem leaves_prune (config : Config) : ∀ (c : Clause) (groups : List Enclosure),
    (Clause.stopsAll groups (c.prune config groups).toList).filterMap Stop.occurrence? =
      ((c.stops groups).filterMap Stop.occurrence?).filter fun o => !o.suppressed config
  | .leaf marks leaf, groups => by
    rw [Clause.prune, Clause.stops]
    by_cases hs : Occurrence.suppressed config ⟨groups, marks, leaf⟩ = true
    · simp [hs, Clause.stopsAll, Stop.occurrence?]
    · simp [hs, Clause.stopsAll, Clause.stops, Stop.occurrence?]
  | .group marks op parens children, groups => by
    have hchildren := leaves_pruneAll config children (groups ++ [⟨marks.field, op⟩])
    rw [Clause.prune, Clause.stops]
    cases hp : Clause.pruneAll config (groups ++ [⟨marks.field, op⟩]) children with
    | nil =>
      rw [hp] at hchildren
      exact hchildren
    | cons c cs =>
      rw [hp] at hchildren
      simp only [Option.toList_some, Clause.stopsAll, Clause.stops, List.append_nil]
      exact hchildren

theorem leaves_pruneAll (config : Config) : ∀ (cs : List Clause) (groups : List Enclosure),
    (Clause.stopsAll groups (Clause.pruneAll config groups cs)).filterMap Stop.occurrence? =
      ((Clause.stopsAll groups cs).filterMap Stop.occurrence?).filter
        fun o => !o.suppressed config
  | [], groups => by
    rw [Clause.pruneAll, Clause.stopsAll]
    rfl
  | c :: cs, groups => by
    rw [Clause.pruneAll, Clause.stopsAll_append, List.filterMap_append,
      leaves_prune config c groups, leaves_pruneAll config cs groups, ← List.filter_append,
      ← List.filterMap_append, Clause.stopsAll]

end

/-! ## What is left of the filter -/

/-- For the filter of a sum the counts do not matter. -/
theorem add_filter_congr {before before' next next' : Contribution}
    (hb : before'.filter = before.filter) (hn : next'.filter = next.filter) (op : Connective)
    (marks : Marks) : (before'.add op marks next').filter = (before.add op marks next).filter := by
  simp only [Contribution.add, hb, hn]

theorem add_filter_of_none {before next : Contribution} (hn : next.filter = none)
    (op : Connective) (marks : Marks) : (before.add op marks next).filter = before.filter := by
  simp only [Contribution.add, hn]

mutual

theorem visit_prune (config : Config) :
    ∀ (c : Clause) (groups : List Enclosure) (k : Contribution),
      (visit config (config.scope groups) c).result = .ok k →
      match c.prune config groups with
      | none => k.filter = none
      | some c' => c'.marks = c.marks ∧
          ∃ k', (visit config (config.scope groups) c').result = .ok k' ∧ k'.filter = k.filter
  | .leaf marks leaf, groups, k, h => by
    rw [Clause.prune]
    by_cases hs : Occurrence.suppressed config ⟨groups, marks, leaf⟩ = true
    · rw [if_pos hs]
      have hnone := (Occurrence.constraint?_eq_none_iff config ⟨groups, marks, leaf⟩).2 hs
      rw [visit, visitLeaf_of_none hnone] at h
      cases h
      rfl
    · rw [if_neg hs]
      exact ⟨rfl, k, h, rfl⟩
  | .group marks op parens children, groups, k, h => by
    rw [visit_group] at h
    split at h
    · cases h
    · rename_i hdepth
      obtain ⟨k', hk', hfilter⟩ := visitAll_prune config children _ {} {} k rfl h
      rw [Clause.prune]
      cases hp : Clause.pruneAll config (groups ++ [⟨marks.field, op⟩]) children with
      | nil =>
        rw [hp, visitAll] at hk'
        cases hk'
        exact hfilter.symm
      | cons c cs =>
        rw [hp] at hk'
        refine ⟨rfl, k', ?_, hfilter⟩
        rw [visit_group, if_neg hdepth]
        exact hk'

/-- The loop over the clauses of a group, beside the loop over what is left of them. -/
theorem visitAll_prune (config : Config) :
    ∀ (cs : List Clause) (groups : List Enclosure) (before before' k : Contribution),
      before'.filter = before.filter →
      (visitAll config (config.scope groups) before cs).result = .ok k →
      ∃ k', (visitAll config (config.scope groups) before'
          (Clause.pruneAll config groups cs)).result = .ok k' ∧ k'.filter = k.filter
  | [], groups, before, before', k, hb, h => by
    rw [visitAll] at h
    cases h
    rw [Clause.pruneAll, visitAll]
    exact ⟨before', rfl, hb⟩
  | c :: cs, groups, before, before', k, hb, h => by
    rw [visitAll, Traced.result_bind] at h
    rw [Clause.pruneAll]
    cases hv : (visit config (config.scope groups) c).result with
    | error e =>
      rw [hv] at h
      cases h
    | ok next =>
      rw [hv] at h
      have hc := visit_prune config c groups next hv
      cases hp : c.prune config groups with
      | none =>
        -- the clause is gone, and it added nothing
        rw [hp] at hc
        have hskip := (add_filter_of_none hc (config.scope groups).op c.marks).trans hb.symm
        exact visitAll_prune config cs groups _ before' k hskip.symm h
      | some c' =>
        rw [hp] at hc
        obtain ⟨hmarks, next', hv', hnext⟩ := hc
        have hadd := add_filter_congr hb hnext (config.scope groups).op c.marks
        obtain ⟨k', hk', hfilter⟩ := visitAll_prune config cs groups _ _ k hadd h
        refine ⟨k', ?_, hfilter⟩
        rw [Option.toList_some, List.singleton_append, visitAll, Traced.result_bind, hv', hmarks]
        exact hk'

end

/-- The group that a whole query is stays, so it is its clauses that count. -/
theorem visit_pruneRoot {config : Config} {root : Group} {k : Contribution}
    (h : (visit config (config.scope []) root.toClause).result = .ok k) :
    ∃ k', (visit config (config.scope []) (root.prune config).toClause).result = .ok k' ∧
      k'.filter = k.filter := by
  rw [Group.toClause, visit_group] at h ⊢
  split at h
  · cases h
  · rename_i hdepth
    rw [if_neg hdepth]
    exact visitAll_prune config root.children _ {} {} k rfl h

/-! ## Counts -/

/-- Every leaf is counted once, as compiled if it has a filter. -/
theorem Gathered.counts {xs : List Outcome} {k : Contribution} (h : Gathered xs k) :
    k.leaves = (xs.filterMap Outcome.filter).length ∧ k.leaves + k.suppressed = xs.length := by
  induction h with
  | nothing => exact ⟨rfl, rfl⟩
  | leaf x =>
    unfold Outcome.contribution
    cases hx : x.filter <;> simp [hx]
  | add op marks _ _ ihb ihn =>
    simp only [Contribution.add, List.filterMap_append, List.length_append]
    omega

theorem compiled_length {config : Config} {os : List Occurrence} {xs : List Outcome}
    (h : List.Forall₂ (Occurrence.Compiles config) os xs) :
    (xs.filterMap Outcome.filter).length = (os.filter fun o => !o.suppressed config).length := by
  induction h with
  | nil => rfl
  | @cons o x os xs hx _ ih =>
    cases hx with
    | suppressed hs => simp [hs, ih]
    | expanded hc _ =>
      have hs : o.suppressed config ≠ true := by
        intro hs
        rw [(o.constraint?_eq_none_iff config).2 hs] at hc
        cases hc
      simp [hs, ih]

/-- A query and what is left of it without its suppressed leaves compile to the same filter. The
last report counts the leaves that are left and those that are gone, and says that everything passes
exactly when none is left. -/
theorem compile_prune {config : Config} {root : Group} {f : Filter}
    (h : (config.compile root.toClause).result = .ok f) :
    (config.compile (root.prune config).toClause).result = .ok f ∧
      (root.prune config).toClause.leaves =
        root.toClause.leaves.filter (fun o => !o.suppressed config) ∧
      ∃ events leaves suppressed matchAll, (config.compile root.toClause).events =
          events ++ [.compiledFilter leaves suppressed matchAll] ∧
        leaves = (root.prune config).toClause.leaves.length ∧
        leaves + suppressed = root.toClause.leaves.length ∧
        (matchAll = true ↔ leaves = 0) ∧ (matchAll = true → f = .matchAll) := by
  have hleaves : (root.prune config).toClause.leaves =
      root.toClause.leaves.filter fun o => !o.suppressed config := by
    have := leaves_pruneAll config root.children [⟨root.marks.field, root.op⟩]
    simpa [Clause.leaves, Group.toClause, Clause.stops, Group.prune, Stop.occurrence?,
      List.filterMap_cons] using this
  refine ⟨?_, hleaves, ?_⟩
  · rw [compile_result] at h ⊢
    cases hv : (visit config (config.scope []) root.toClause).result with
    | error e =>
      rw [hv] at h
      cases h
    | ok k =>
      rw [hv] at h
      obtain ⟨k', hk', hfilter⟩ := visit_pruneRoot hv
      rw [hk', ← h]
      simp only [Except.map, add_filter_congr rfl hfilter]
      rfl
  · obtain ⟨xs, total, hxs, htotal, rfl, hevents⟩ := compile_gathered h
    obtain ⟨hcompiled, hall⟩ := htotal.counts
    refine ⟨_, _, _, _, hevents, ?_, ?_, ?_, ?_⟩
    · rw [hleaves, hcompiled, compiled_length hxs]
    · rw [hall, hxs.length_eq]
    · rw [hcompiled, List.length_eq_zero_iff]
      exact htotal.lists.isNone_iff
    · intro hnone
      rw [Option.isNone_iff_eq_none] at hnone
      rw [hnone]
      rfl

/-- Before the first clause that contributes stand a negated test and a required group that is left
with nothing. -/
theorem compile_prune_leading :
    let config : Config := { schema := { isAnalyzed := fun field => field = "body" } }
    let kept : List Clause :=
      [.leaf { field := some "x", occur := some .prohibited } (.term "a" false),
        .leaf { field := some "x" } (.term "b" false)]
    let root : Group :=
      { children :=
          .leaf { field := some "body", negated := true } (.presence .present) ::
            .group { field := some "x", occur := some .required } (some .and) true
              [.leaf { occur := some .prohibited } (.range { min := some " " })] :: kept }
    let f : Filter := .join .or [.not (.term "x" "a"), .term "x" "b"]
    (config.compile root.toClause).result = .ok f ∧
      (root.prune config).toClause = ({ children := kept } : Group).toClause ∧
      (config.compile (root.prune config).toClause).result = .ok f :=
  ⟨rfl, rfl, (compile_prune rfl).1⟩

end SearchQuery
