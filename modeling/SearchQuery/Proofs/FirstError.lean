import SearchQuery.Proofs.Walk

/-!
# SearchQuery.Proofs.FirstError

Which error a compilation ends with.

Two things can go wrong on the way through a tree: a group is entered that is nested too deeply, or
an expander fails on a leaf. Both are said here of a stop and of the groups around it, whatever came
before. A compilation fails exactly when some stop is bad, and then with the error of the first bad
one.

* `Expander.runAll_error_iff` — a run of expanders ends with the error of the first that fails.
* `firstBad_append`           — the first bad stop of one list after another.
* `visitAll_error_iff`        — the loop over the clauses of a group.
* `compile_error_first`       — whole trees.
-/

namespace SearchQuery

/-! ## Expanders -/

namespace Expander

/-- Some expander fails with `e` on what the ones before it have left, and none of those fails. -/
def FailsWith (clause : Clause) (rs : List Expander) (context : Context) (e : ExpansionError) :
    Prop :=
  ∃ before r after events left, rs = before ++ r :: after ∧
    Passes clause before context events left ∧ (r clause left).result = .error e

theorem failsWith_cons {clause : Clause} {r : Expander} {rs : List Expander} {context : Context}
    {e : ExpansionError} :
    FailsWith clause (r :: rs) context e ↔
      (r clause context).result = .error e ∨
        ∃ events middle, r clause context = ⟨events, .ok middle⟩ ∧
          FailsWith clause rs middle e := by
  constructor
  · rintro ⟨before, s, after, events, left, hrs, hpass, hfail⟩
    cases hpass with
    | nil =>
      obtain ⟨rfl, -⟩ := List.cons.inj hrs
      exact .inl hfail
    | cons hr hpass =>
      obtain ⟨rfl, htail⟩ := List.cons.inj hrs
      exact .inr ⟨_, _, hr, _, s, after, _, left, htail, hpass, hfail⟩
  · rintro (hfail | ⟨events, middle, hr, before, s, after, events', left, rfl, hpass, hfail⟩)
    · exact ⟨[], r, rs, [], context, rfl, .nil, hfail⟩
    · exact ⟨r :: before, s, after, _, left, rfl, .cons hr hpass, hfail⟩

theorem runAll_error_iff (clause : Clause) (rs : List Expander) (context : Context)
    (e : ExpansionError) :
    (runAll rs clause context).result = .error e ↔ FailsWith clause rs context e := by
  induction rs generalizing context with
  | nil =>
    constructor
    · intro h
      cases h
    · rintro ⟨before, r, after, events, left, hrs, -⟩
      simp at hrs
  | cons r rs ih =>
    rw [runAll, Traced.result_bind, failsWith_cons]
    cases hr : (r clause context).result with
    | error e' =>
      constructor
      · intro h
        exact .inl h
      · rintro (h | ⟨events, middle, hok, -⟩)
        · exact h
        · rw [hok] at hr
          cases hr
    | ok middle =>
      constructor
      · intro h
        exact .inr ⟨_, middle, by rw [← hr], (ih middle).1 h⟩
      · rintro (h | ⟨events, middle', hok, hfail⟩)
        · cases h
        · rw [hok] at hr
          obtain rfl := Except.ok.inj hr
          exact (ih middle').2 hfail

end Expander

/-! ## Bad stops -/

/-- What a leaf asks that is not suppressed. -/
def Occurrence.constraint (config : Config) (o : Occurrence) (h : o.suppressed config = false) :
    Constraint :=
  (o.constraint? config).get <| by
    rw [Option.isSome_iff_ne_none, Ne, o.constraint?_eq_none_iff, h]
    exact Bool.false_ne_true

theorem Occurrence.constraint?_of_not_suppressed {config : Config} {o : Occurrence}
    (h : o.suppressed config = false) : o.constraint? config = some (o.constraint config h) :=
  (Option.some_get _).symm

/-- What makes a stop bad, and the error it is bad with. A leaf that is suppressed is never bad. -/
inductive Stop.Bad (config : Config) : Stop → CompileError → Prop where
  | tooDeep {groups : List Enclosure} (h : config.settings.maxDepth < groups.length) :
      Bad config (.entry groups) (.tooDeep config.settings.maxDepth)
  | expansion {o : Occurrence} {e : ExpansionError} (hkept : o.suppressed config = false)
      (hfail : Expander.FailsWith o.clause config.expanders
        (o.context config (o.constraint config hkept)) e) :
      Bad config (.leaf o) (.expansion e)

/-- None of the stops is bad. -/
def Clean (config : Config) (stops : List Stop) : Prop :=
  ∀ s ∈ stops, ∀ e, ¬ s.Bad config e

/-- The first bad stop is bad with `e`. -/
def FirstBad (config : Config) (stops : List Stop) (e : CompileError) : Prop :=
  ∃ before s after, stops = before ++ s :: after ∧ Clean config before ∧ s.Bad config e

theorem bad_entry_iff {config : Config} {groups : List Enclosure} {e : CompileError} :
    (Stop.entry groups).Bad config e ↔
      config.settings.maxDepth < groups.length ∧ .tooDeep config.settings.maxDepth = e := by
  constructor
  · rintro (h | -)
    exact ⟨h, rfl⟩
  · rintro ⟨h, rfl⟩
    exact .tooDeep h

section Lists

variable {config : Config}

theorem clean_cons {s : Stop} {stops : List Stop} :
    Clean config (s :: stops) ↔ (∀ e, ¬ s.Bad config e) ∧ Clean config stops := by
  simp [Clean]

theorem firstBad_nil {e : CompileError} : ¬ FirstBad config [] e := by
  rintro ⟨before, s, after, h, -⟩
  simp at h

theorem firstBad_cons {s : Stop} {stops : List Stop} {e : CompileError} :
    FirstBad config (s :: stops) e ↔
      s.Bad config e ∨ (∀ e, ¬ s.Bad config e) ∧ FirstBad config stops e := by
  constructor
  · rintro ⟨before, t, after, heq, hclean, hbad⟩
    cases before with
    | nil =>
      obtain ⟨rfl, -⟩ := List.cons.inj heq
      exact .inl hbad
    | cons u before =>
      obtain ⟨rfl, rfl⟩ := List.cons.inj heq
      obtain ⟨hs, hclean⟩ := clean_cons.1 hclean
      exact .inr ⟨hs, before, t, after, rfl, hclean, hbad⟩
  · rintro (hbad | ⟨hs, before, t, after, rfl, hclean, hbad⟩)
    · exact ⟨[], s, stops, rfl, by simp [Clean], hbad⟩
    · exact ⟨s :: before, t, after, rfl, clean_cons.2 ⟨hs, hclean⟩, hbad⟩

theorem firstBad_append {xs ys : List Stop} {e : CompileError} :
    FirstBad config (xs ++ ys) e ↔
      FirstBad config xs e ∨ Clean config xs ∧ FirstBad config ys e := by
  induction xs with
  | nil => simp [firstBad_nil, Clean]
  | cons s xs ih =>
    rw [List.cons_append, firstBad_cons, firstBad_cons, clean_cons, ih]
    tauto

theorem clean_iff {stops : List Stop} :
    Clean config stops ↔ ∀ e, ¬ FirstBad config stops e := by
  induction stops with
  | nil => simp [Clean, firstBad_nil]
  | cons s stops ih =>
    rw [clean_cons, ih]
    constructor
    · rintro ⟨hs, hstops⟩ e h
      rcases firstBad_cons.1 h with hbad | ⟨-, hfirst⟩
      · exact hs e hbad
      · exact hstops e hfirst
    · intro h
      have hs : ∀ e, ¬ s.Bad config e := fun e hbad => h e (firstBad_cons.2 (.inl hbad))
      exact ⟨hs, fun e hfirst => h e (firstBad_cons.2 (.inr ⟨hs, hfirst⟩))⟩

/-- If stops account for the errors of a computation, they are clean exactly when it succeeds. -/
theorem clean_iff_ok {α : Type} {x : Traced CompileError α} {stops : List Stop}
    (h : ∀ e, x.result = .error e ↔ FirstBad config stops e) :
    Clean config stops ↔ ∃ a, x.result = .ok a := by
  rw [clean_iff]
  simp only [← h]
  cases hx : x.result with
  | error e => simp
  | ok a => simp

end Lists

/-! ## The walk -/

theorem visitLeaf_error_iff (config : Config) (o : Occurrence) (e : CompileError) :
    (visitLeaf config (config.scope o.groups) o.marks o.leaf).result = .error e ↔
      (Stop.leaf o).Bad config e := by
  cases hs : o.suppressed config with
  | true =>
    rw [visitLeaf_of_none ((o.constraint?_eq_none_iff config).2 hs)]
    constructor
    · intro h
      cases h
    · intro h
      cases h with
      | expansion hkept _ =>
        rw [hs] at hkept
        cases hkept
  | false =>
    rw [visitLeaf_of_some (o.constraint?_of_not_suppressed hs)]
    simp only [Traced.result_bind, Traced.result_emit, Traced.result_mapError, Traced.result_pure]
    constructor
    · intro h
      cases hx : (Expander.runAll config.expanders o.clause
          (o.context config (o.constraint config hs))).result with
      | error e' =>
        rw [hx] at h
        cases h
        exact .expansion hs ((Expander.runAll_error_iff _ _ _ _).1 hx)
      | ok context =>
        rw [hx] at h
        cases h
    · intro h
      cases h with
      | expansion _ hfail =>
        rw [(Expander.runAll_error_iff _ _ _ _).2 hfail]
        rfl

mutual

theorem visit_error_iff (config : Config) :
    ∀ (c : Clause) (groups : List Enclosure) (e : CompileError),
      (visit config (config.scope groups) c).result = .error e ↔
        FirstBad config (c.stops groups) e
  | .leaf marks leaf, groups, e => by
    rw [visit, Clause.stops, firstBad_cons, visitLeaf_error_iff config ⟨groups, marks, leaf⟩ e]
    simp [firstBad_nil]
  | .group marks op parens children, groups, e => by
    rw [visit_group, Clause.stops, firstBad_cons]
    simp only [bad_entry_iff, List.length_append, List.length_singleton]
    by_cases hdeep : config.settings.maxDepth < groups.length + 1
    · -- the entry itself is bad, so what is inside does not matter
      rw [if_pos hdeep]
      simp [Traced.fail, hdeep]
    · rw [if_neg hdeep, visitAll_error_iff config children _ {} e]
      simp [hdeep]

theorem visitAll_error_iff (config : Config) :
    ∀ (cs : List Clause) (groups : List Enclosure) (before : Contribution) (e : CompileError),
      (visitAll config (config.scope groups) before cs).result = .error e ↔
        FirstBad config (Clause.stopsAll groups cs) e
  | [], groups, before, e => by
    rw [visitAll, Clause.stopsAll, Traced.result_pure]
    simp [firstBad_nil]
  | c :: cs, groups, before, e => by
    have hc := visit_error_iff config c groups
    rw [visitAll, Traced.result_bind, Clause.stopsAll, firstBad_append, ← hc e, clean_iff_ok hc]
    cases hv : (visit config (config.scope groups) c).result with
    | error e' => simp [bind, Except.bind]
    | ok next =>
      -- the clause is clean, whatever it adds to the accumulator
      show (visitAll config (config.scope groups) (before.add _ c.marks next) cs).result = _ ↔ _
      rw [visitAll_error_iff config cs groups _ e]
      simp

end

/-- Compiling succeeds exactly when no stop of the tree is bad: no group is nested deeper than the
limit and on no leaf does an expander fail. Otherwise its error is that of the first bad stop. -/
theorem compile_error_first (config : Config) (root : Clause) :
    ((∃ f, (config.compile root).result = .ok f) ↔
      ∀ s ∈ root.stops [], ∀ e, ¬ s.Bad config e) ∧
    ∀ e, (config.compile root).result = .error e ↔
      ∃ before s after, root.stops [] = before ++ s :: after ∧
        (∀ t ∈ before, ∀ e', ¬ t.Bad config e') ∧ s.Bad config e := by
  have herror : ∀ e, (config.compile root).result = .error e ↔
      FirstBad config (root.stops []) e := by
    intro e
    rw [compile_result, ← visit_error_iff config root [] e]
    cases (visit config (config.scope []) root).result with
    | error e' => simp [Except.map]
    | ok k => simp [Except.map]
  exact ⟨(clean_iff_ok herror).symm, herror⟩

/-- The expander fails on the range that has a bound. Before it stand a range of which the bound is
blank and a presence test without a field, which are both suppressed; and the group after it would be
nested too deeply. -/
theorem compile_error_first_leaf :
    let fails : Expander := fun _ _ => Traced.fail (.custom "no")
    let config : Config := { settings := { maxDepth := 1 }, expanders := [fails] }
    let range (min : String) : Clause := .leaf { field := some "x" } (.range { min := some min })
    let root : Clause := .group {} none false
      [range " ", .leaf {} (.presence .present), range "1", .group {} none true []]
    (config.compile root).result = .error (.expansion (.custom "no")) := by
  intro fails config range root
  let groups : List Enclosure := [⟨none, none⟩]
  let stop (min : String) : Stop := .leaf ⟨groups, { field := some "x" }, .range { min := some min }⟩
  refine ((compile_error_first config root).2 _).2
    ⟨[.entry groups, stop " ", .leaf ⟨groups, {}, .presence .present⟩], stop "1", _, rfl, ?_, ?_⟩
  · intro s hs e hbad
    simp only [List.mem_cons, List.not_mem_nil, or_false] at hs
    rcases hs with rfl | rfl | rfl
    · cases hbad with
      | tooDeep h => simp [groups, config] at h
    · cases hbad with
      | expansion hkept _ => cases hkept
    · cases hbad with
      | expansion hkept _ => cases hkept
  · exact .expansion rfl ⟨[], fails, [], [], _, rfl, .nil, rfl⟩

end SearchQuery
