import Mathlib.Control.Monad.Basic
import SearchQuery.Proofs.Meaning

/-!
# SearchQuery.Proofs.Required

How far a `+` makes its clause mandatory.

A group takes up its clauses one after the other, and a sign decides only how its own clause is taken
up. In a disjunction a required clause is joined by conjunction to what came before it, but a clause
after it that is not required is an alternative to all of that, the required clause included.

* `contributed?`                 — the filter that a clause adds to its group.
* `TakesOver`                    — a clause that is not required decides for those before it.
* `visitAll_continues`           — what the remaining clauses make of the filter so far.
* `required_or_taken_over`       — a required clause is mandatory unless a later one takes over.
* `required_first_not_mandatory` — a required clause that comes first, and is taken over.
-/

namespace SearchQuery

/-! ## What clauses add -/

/-- The filter that a clause adds to its group, its own marks applied. `none` when it contributes
nothing or does not compile. -/
def contributed? (config : Config) (scope : Scope) (c : Clause) : Option Filter :=
  match (visit config scope c).result with
  | .error _ => none
  | .ok k => k.filter.map fun f => if c.marks.inverts then f.negate else f

/-- The required clauses among `cs` hold, as far as they contribute. -/
def RequiredHold (config : Config) (scope : Scope) (ρ : Constraint → Prop) (cs : List Clause) :
    Prop :=
  ∀ c ∈ cs, c.marks.occur = some .required → ∀ f, contributed? config scope c = some f → f.Holds ρ

/-- In a disjunction, one of the clauses is not required and holds, and so do the required ones
after it. -/
def TakesOver (config : Config) (scope : Scope) (ρ : Constraint → Prop) (cs : List Clause) : Prop :=
  scope.op = .or ∧ ∃ before d after f, cs = before ++ d :: after ∧
    d.marks.occur ≠ some .required ∧ contributed? config scope d = some f ∧ f.Holds ρ ∧
    RequiredHold config scope ρ after

section

variable {config : Config} {scope : Scope} {ρ : Constraint → Prop}

theorem requiredHold_cons {c : Clause} {cs : List Clause} :
    RequiredHold config scope ρ (c :: cs) ↔
      (c.marks.occur = some .required → ∀ f, contributed? config scope c = some f → f.Holds ρ) ∧
        RequiredHold config scope ρ cs := by
  simp only [RequiredHold, List.forall_mem_cons]

theorem not_takesOver_nil : ¬ TakesOver config scope ρ [] := by
  rintro ⟨-, before, d, after, f, hcs, -⟩
  simp at hcs

theorem takesOver_cons {c : Clause} {cs : List Clause} :
    TakesOver config scope ρ (c :: cs) ↔
      (scope.op = .or ∧ c.marks.occur ≠ some .required ∧
        (∃ f, contributed? config scope c = some f ∧ f.Holds ρ) ∧ RequiredHold config scope ρ cs) ∨
      TakesOver config scope ρ cs := by
  constructor
  · rintro ⟨hop, before, d, after, f, hcs, hd, hf, hholds, hafter⟩
    cases before with
    | nil =>
      obtain ⟨rfl, rfl⟩ := List.cons.inj hcs
      exact .inl ⟨hop, hd, ⟨f, hf, hholds⟩, hafter⟩
    | cons b before =>
      obtain ⟨rfl, rfl⟩ := List.cons.inj hcs
      exact .inr ⟨hop, before, d, after, f, rfl, hd, hf, hholds, hafter⟩
  · rintro (⟨hop, hc, ⟨f, hf, hholds⟩, hcs⟩ | ⟨hop, before, d, after, f, rfl, hrest⟩)
    · exact ⟨hop, [], c, cs, f, rfl, hc, hf, hholds, hcs⟩
    · exact ⟨hop, c :: before, d, after, f, rfl, hrest⟩

/-! ## One step -/

/-- What joins a clause to the filter before it. -/
def Scope.joins (scope : Scope) (marks : Marks) : Connective :=
  if marks.occur = some .required then .and else scope.op

/-- The filter after one more clause, by what the clause contributes. -/
theorem add_filter_eq {c : Clause} {next : Contribution}
    (hv : (visit config scope c).result = .ok next) (before : Contribution) :
    (before.add scope.op c.marks next).filter =
      match contributed? config scope c, before.filter with
      | none, f => f
      | some g, none => some g
      | some g, some f => some (f.combine (scope.joins c.marks) g) := by
  simp only [contributed?, hv, Contribution.add]
  cases hn : next.filter with
  | none => rfl
  | some f =>
    cases hb : before.filter with
    | none => rfl
    | some e => rfl

/-! ## The clauses that follow -/

/-- What the clauses `cs` make of the filter `f` to which they are joined, when `h` results. -/
structure Continues (config : Config) (scope : Scope) (ρ : Constraint → Prop) (cs : List Clause)
    (f h : Filter) : Prop where
  kept : h.Holds ρ → (f.Holds ρ ∧ RequiredHold config scope ρ cs) ∨ TakesOver config scope ρ cs
  passed : scope.op = .or → f.Holds ρ → RequiredHold config scope ρ cs → h.Holds ρ
  taken : TakesOver config scope ρ cs → h.Holds ρ

theorem continues_nil (f : Filter) : Continues config scope ρ [] f f where
  kept hf := .inl ⟨hf, by simp [RequiredHold]⟩
  passed _ hf _ := hf
  taken h := absurd h not_takesOver_nil

theorem Continues.skip {c : Clause} {cs : List Clause} {f h : Filter}
    (hc : contributed? config scope c = none) (hcs : Continues config scope ρ cs f h) :
    Continues config scope ρ (c :: cs) f h := by
  have hrequired : RequiredHold config scope ρ (c :: cs) ↔ RequiredHold config scope ρ cs := by
    simp [requiredHold_cons, hc]
  have htakes : TakesOver config scope ρ (c :: cs) ↔ TakesOver config scope ρ cs := by
    simp [takesOver_cons, hc]
  obtain ⟨kept, passed, taken⟩ := hcs
  exact ⟨by rwa [hrequired, htakes], by rwa [hrequired], by rwa [htakes]⟩

theorem Continues.join {c : Clause} {cs : List Clause} {f g h : Filter}
    (hc : contributed? config scope c = some g)
    (hcs : Continues config scope ρ cs (f.combine (scope.joins c.marks) g) h) :
    Continues config scope ρ (c :: cs) f h := by
  obtain ⟨kept, passed, taken⟩ := hcs
  rw [Filter.combine_holds] at kept passed
  by_cases hrequired : c.marks.occur = some .required
  · -- a required clause is joined by conjunction, so nothing of `f` is given up
    simp only [Scope.joins, if_pos hrequired, Connective.holds] at kept passed
    refine ⟨fun hh => ?_, fun hop hf hr => ?_, fun ht => ?_⟩
    · rcases kept hh with ⟨⟨hf, hg⟩, hr⟩ | ht
      · refine .inl ⟨hf, requiredHold_cons.2 ⟨fun _ g' hg' => ?_, hr⟩⟩
        obtain rfl : g = g' := Option.some.inj (hc.symm.trans hg')
        exact hg
      · exact .inr (takesOver_cons.2 (.inr ht))
    · obtain ⟨hhead, hr⟩ := requiredHold_cons.1 hr
      exact passed hop ⟨hf, hhead hrequired g hc⟩ hr
    · rcases takesOver_cons.1 ht with ⟨-, hne, -⟩ | ht
      · exact absurd hrequired hne
      · exact taken ht
  · simp only [Scope.joins, if_neg hrequired] at kept passed
    have hskip : RequiredHold config scope ρ (c :: cs) ↔ RequiredHold config scope ρ cs := by
      simp [requiredHold_cons, hrequired]
    cases hop : scope.op with
    | and =>
      rw [hop] at kept
      refine ⟨fun hh => ?_, fun hor => ?_, fun ht => ?_⟩
      · rcases kept hh with ⟨⟨hf, -⟩, hr⟩ | ht
        · exact .inl ⟨hf, hskip.2 hr⟩
        · exact .inr (takesOver_cons.2 (.inr ht))
      · rw [hop] at hor; cases hor
      · have hor := ht.1
        rw [hop] at hor
        cases hor
    | or =>
      -- here `f` and `c` are alternatives, and the clauses after `c` have to be passed either way
      rw [hop] at kept passed
      refine ⟨fun hh => ?_, fun _ hf hr => passed rfl (.inl hf) (hskip.1 hr), fun ht => ?_⟩
      · rcases kept hh with ⟨hf | hg, hr⟩ | ht
        · exact .inl ⟨hf, hskip.2 hr⟩
        · exact .inr (takesOver_cons.2 (.inl ⟨hop, hrequired, ⟨g, hc, hg⟩, hr⟩))
        · exact .inr (takesOver_cons.2 (.inr ht))
      · rcases takesOver_cons.1 ht with ⟨-, -, ⟨g', hg', hholds⟩, hr⟩ | ht
        · obtain rfl : g = g' := Option.some.inj (hc.symm.trans hg')
          exact passed rfl (.inr hholds) hr
        · exact taken ht

/-- The loop over the clauses of a group, from a filter that is there already. -/
theorem visitAll_continues {before k : Contribution} {cs : List Clause} {f : Filter}
    (hf : before.filter = some f) (h : (visitAll config scope before cs).result = .ok k) :
    ∃ g, k.filter = some g ∧ Continues config scope ρ cs f g := by
  induction cs generalizing before f with
  | nil =>
    rw [visitAll, Traced.result_pure] at h
    cases h
    exact ⟨f, hf, continues_nil f⟩
  | cons c cs ih =>
    rw [visitAll, Traced.result_bind] at h
    cases hv : (visit config scope c).result with
    | error e => rw [hv] at h; cases h
    | ok next =>
      rw [hv] at h
      have hstep := add_filter_eq hv before
      rw [hf] at hstep
      cases hc : contributed? config scope c with
      | none =>
        rw [hc] at hstep
        obtain ⟨g, hk, hcs⟩ := ih hstep h
        exact ⟨g, hk, hcs.skip hc⟩
      | some e =>
        rw [hc] at hstep
        obtain ⟨g, hk, hcs⟩ := ih hstep h
        exact ⟨g, hk, hcs.join hc⟩

/-- The clauses of a group one part after the other. -/
theorem visitAll_append (before : Contribution) (cs ds : List Clause) :
    (visitAll config scope before (cs ++ ds)).result =
      (visitAll config scope before cs).result >>= fun k =>
        (visitAll config scope k ds).result := by
  induction cs generalizing before with
  | nil => rw [List.nil_append, visitAll, Traced.result_pure]; rfl
  | cons c cs ih =>
    rw [List.cons_append, visitAll, visitAll, Traced.result_bind, Traced.result_bind]
    cases (visit config scope c).result with
    | error e => rfl
    | ok next => exact ih _

/-- After a required clause the filter of the group holds only if the clause does. -/
theorem add_required {c : Clause} {next : Contribution} {g : Filter}
    (hv : (visit config scope c).result = .ok next) (hc : c.marks.occur = some .required)
    (hg : contributed? config scope c = some g) (before : Contribution) :
    ∃ f, (before.add scope.op c.marks next).filter = some f ∧ (f.Holds ρ → g.Holds ρ) := by
  rw [add_filter_eq hv, hg]
  cases before.filter with
  | none => exact ⟨g, rfl, id⟩
  | some e =>
    refine ⟨_, rfl, fun hf => ?_⟩
    rw [Filter.combine_holds, Scope.joins, if_pos hc] at hf
    exact hf.2

end

/-! ## Required clauses -/

/-- The filter `h` of a group against what its required clause `c` contributes. If the group holds,
so does the clause, unless a clause after it takes over; and then the group holds whatever becomes of
the required one. In a conjunction, or when all that contributes after the clause is required too,
nothing can take over. -/
theorem required_or_taken_over {config : Config} {scope : Scope} {marks : Marks}
    {op : Option Connective} {parens : Bool} {before after : List Clause} {c : Clause}
    {k : Contribution} {g h : Filter}
    (hgroup : (visit config scope (.group marks op parens (before ++ c :: after))).result = .ok k)
    (hh : k.filter = some h) (hc : c.marks.occur = some .required)
    (hg : contributed? config
      (scope.enter (op.getD config.settings.defaultOp) marks.field) c = some g) :
    let inner := scope.enter (op.getD config.settings.defaultOp) marks.field
    (inner.op = .and ∨ (∀ d ∈ after, (contributed? config inner d).isSome →
        d.marks.occur = some .required) → ∀ ρ, h.Holds ρ → g.Holds ρ) ∧
      ∀ ρ, (h.Holds ρ → g.Holds ρ ∨ TakesOver config inner ρ after) ∧
        (TakesOver config inner ρ after → h.Holds ρ) := by
  intro inner
  have hexact : ∀ ρ, (h.Holds ρ → g.Holds ρ ∨ TakesOver config inner ρ after) ∧
      (TakesOver config inner ρ after → h.Holds ρ) := by
    intro ρ
    rw [visit] at hgroup
    split at hgroup
    · cases hgroup
    · rw [visitAll_append] at hgroup
      cases hbefore : (visitAll config inner {} before).result with
      | error e => rw [hbefore] at hgroup; cases hgroup
      | ok k₀ =>
        rw [hbefore] at hgroup
        change (visitAll config inner k₀ (c :: after)).result = .ok k at hgroup
        rw [visitAll, Traced.result_bind] at hgroup
        cases hv : (visit config inner c).result with
        | error e => rw [hv] at hgroup; cases hgroup
        | ok next =>
          rw [hv] at hgroup
          obtain ⟨f, hf, hfg⟩ := add_required (ρ := ρ) hv hc hg k₀
          obtain ⟨h', hk, hcontinues⟩ := visitAll_continues (ρ := ρ) hf hgroup
          obtain rfl : h' = h := Option.some.inj (hk.symm.trans hh)
          refine ⟨fun hholds => ?_, hcontinues.taken⟩
          rcases hcontinues.kept hholds with ⟨hholds, -⟩ | htaken
          · exact .inl (hfg hholds)
          · exact .inr htaken
  refine ⟨fun hlast ρ hholds => ?_, hexact⟩
  rcases (hexact ρ).1 hholds with hg | ⟨hop, ds, d, es, f, rfl, hd, hf, -⟩
  · exact hg
  · rcases hlast with hand | hlast
    · rw [hand] at hop; cases hop
    · exact absurd (hlast d (by simp) (by rw [hf]; rfl)) hd

/-- After the required clause come a presence test that has no field, and so does not count, and
another required clause. -/
theorem required_or_taken_over_last :
    let a : Clause := .leaf { field := some "x" } (.term "a" false)
    let b : Clause := .leaf { field := some "x", occur := some .required } (.term "b" false)
    let after : List Clause :=
      [.leaf {} (.presence .present),
        .leaf { field := some "x", negated := true, occur := some .required } (.term "c" false)]
    let h : Filter := .join .and [.term "x" "a", .term "x" "b", .not (.term "x" "c")]
    (visit {} ({} : Config).rootScope (.group {} (some .or) true ([a] ++ b :: after))).result =
        .ok { filter := some h, leaves := 3, suppressed := 1 } ∧
      ∀ ρ, h.Holds ρ → (Filter.term "x" "b").Holds ρ := by
  intro a b after h
  have hgroup : (visit {} ({} : Config).rootScope
      (.group {} (some .or) true ([a] ++ b :: after))).result =
      .ok { filter := some h, leaves := 3, suppressed := 1 } := rfl
  refine ⟨hgroup, (required_or_taken_over hgroup rfl rfl rfl).1 (.inr fun d hd hsome => ?_)⟩
  rcases List.mem_cons.1 hd with rfl | hd
  · cases hsome
  · obtain rfl := List.mem_singleton.1 hd
    rfl

/-- A required clause is not mandatory as such. This one comes first and is joined to nothing, so the
other one is an alternative to it: a document that has only `b` passes. -/
theorem required_first_not_mandatory :
    let a : Clause := .leaf { field := some "a", occur := some .required } (.term "1" false)
    let b : Clause := .leaf { field := some "b" } (.term "2" false)
    let h : Filter := .join .or [.term "a" "1", .term "b" "2"]
    let ρ : Constraint → Prop := fun c => c = .term "b" "2"
    parse "+a:1 OR b:2" = .ok { op := some .or, children := [a, b] } ∧
      (visit {} ({} : Config).rootScope (.group {} (some .or) false [a, b])).result =
        .ok { filter := some h, leaves := 2 } ∧
      contributed? {} (({} : Config).rootScope.enter .or none) a = some (.term "a" "1") ∧
      h.Holds ρ ∧ ¬ (Filter.term "a" "1").Holds ρ := by
  refine ⟨by decide +kernel, rfl, rfl, ?_, ?_⟩
  · simp [Filter.Holds, Filter.AnyHolds, Filter.term]
  · simp [Filter.Holds, Filter.term]

end SearchQuery
