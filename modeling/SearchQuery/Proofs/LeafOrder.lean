import SearchQuery.Proofs.Walk

/-!
# SearchQuery.Proofs.LeafOrder

No leaf of a tree is lost, repeated or moved by compiling.

A filter is put together from filters that are not (`Filter.atoms`, from left to right). Joining
flattens, negating unwraps, and a group hands its filter over to the group around it; none of this
touches the list of atoms. So the atoms of a compiled filter are those of the leaves' own filters,
in the order of the leaves, and each of these comes from one run of the expanders in the leaf's
place.

* `Filter.combine_atoms`, `Filter.negate_atoms` — joining appends the atoms, negating keeps them.
* `Gathered.lists`                              — whatever is gathered along a tree.
* `compile_atoms`                               — whole trees.
-/

namespace SearchQuery

namespace Filter

mutual

/-- The filters that a filter is put together from and that are not put together themselves. -/
def atoms : Filter → List Filter
  | .matchAll => [.matchAll]
  | .leaf c => [.leaf c]
  | .join _ parts => atomsAll parts
  | .not f => f.atoms

def atomsAll : List Filter → List Filter
  | [] => []
  | f :: fs => f.atoms ++ atomsAll fs

end

theorem atomsAll_append (fs gs : List Filter) :
    atomsAll (fs ++ gs) = atomsAll fs ++ atomsAll gs := by
  induction fs with
  | nil => simp [atomsAll]
  | cons f fs ih => simp [atomsAll, ih]

theorem atomsAll_singleton (f : Filter) : atomsAll [f] = f.atoms := by
  simp [atomsAll]

/-- Opening up a join keeps its atoms. -/
theorem operands_atoms (op : Connective) (f : Filter) : atomsAll (f.operands op) = f.atoms := by
  unfold operands
  split
  · split
    · rw [atoms]
    · rw [atomsAll_singleton]
  · rw [atomsAll_singleton]

theorem combine_atoms (op : Connective) (f g : Filter) :
    (f.combine op g).atoms = f.atoms ++ g.atoms := by
  rw [combine, atoms, atomsAll_append, operands_atoms, operands_atoms]

theorem negate_atoms (f : Filter) : f.negate.atoms = f.atoms := by
  unfold negate
  split
  · rw [atoms]
  · rw [atoms]

end Filter

/-- A filter, or none, has the atoms of these filters, or there are none. -/
def Lists : Option Filter → List Filter → Prop
  | none, fs => fs = []
  | some f, fs => fs ≠ [] ∧ f.atoms = fs.flatMap Filter.atoms

theorem Lists.isNone_iff {o : Option Filter} {fs : List Filter} (h : Lists o fs) :
    o.isNone = true ↔ fs = [] := by
  cases o with
  | none => exact ⟨fun _ => h, fun _ => rfl⟩
  | some f => simp [h.1]

/-- One step of the accumulation. -/
theorem joinFilter_lists {before : Option Filter} {fs gs : List Filter} (hb : Lists before fs)
    (op : Connective) (marks : Marks) {f : Filter} (hf : Lists (some f) gs) :
    Lists (some (joinFilter op marks before f)) (fs ++ gs) := by
  obtain ⟨hgs, hatoms⟩ := hf
  refine ⟨by simp [hgs], ?_⟩
  obtain ⟨incoming, op', hincoming, hjoin⟩ := joinFilter_cases op marks before f
  have hin : incoming.atoms = gs.flatMap Filter.atoms := by
    rcases hincoming with rfl | rfl
    · exact hatoms
    · rw [Filter.negate_atoms, hatoms]
  rw [hjoin]
  cases before with
  | none =>
    obtain rfl : fs = [] := hb
    exact hin
  | some g =>
    show (g.combine op' incoming).atoms = _
    rw [Filter.combine_atoms, hin, hb.2, List.flatMap_append]

theorem Gathered.lists {xs : List Outcome} {k : Contribution} (h : Gathered xs k) :
    Lists k.filter (xs.filterMap Outcome.filter) := by
  induction h with
  | nothing => rfl
  | leaf x =>
    unfold Outcome.contribution
    cases hx : x.filter with
    | none => simp [hx, Lists]
    | some f => simp [hx, Lists]
  | @add xs ys before next op marks _ _ ihb ihn =>
    rw [List.filterMap_append]
    unfold Contribution.add
    cases hn : next.filter with
    | none =>
      rw [hn] at ihn
      rw [show ys.filterMap Outcome.filter = [] from ihn, List.append_nil]
      exact ihb
    | some f =>
      rw [hn] at ihn
      exact joinFilter_lists ihb op marks ihn

/-- When a tree compiles, each leaf has been compiled in its place. The reports are those about the
leaves, one after the other, so none was expanded twice. The atoms of the filter are those of the
leaves' filters in the same order; where all leaves were suppressed it lets everything pass. -/
theorem compile_atoms {config : Config} {root : Clause} {f : Filter}
    (h : (config.compile root).result = .ok f) :
    ∃ xs, List.Forall₂ (Occurrence.Compiles config) root.leaves xs ∧
      (∃ leaves suppressed matchAll, (config.compile root).events =
        xs.flatMap Outcome.events ++ [.compiledFilter leaves suppressed matchAll]) ∧
      (xs.filterMap Outcome.filter ≠ [] →
        f.atoms = (xs.filterMap Outcome.filter).flatMap Filter.atoms) ∧
      (xs.filterMap Outcome.filter = [] → f = .matchAll) := by
  obtain ⟨xs, total, hxs, htotal, rfl, hevents⟩ := compile_gathered h
  refine ⟨xs, hxs, ⟨_, _, _, hevents⟩, ?_⟩
  have hlists := htotal.lists
  cases hf : total.filter with
  | none =>
    rw [hf] at hlists
    exact ⟨fun hne => absurd hlists hne, fun _ => rfl⟩
  | some g =>
    rw [hf] at hlists
    exact ⟨fun _ => hlists.2, fun hnil => absurd hnil hlists.1⟩

/-- A test that is suppressed, a group on the field `a` that is negated, and in it a group on the
field `b`; the expander takes notes. -/
theorem compile_atoms_nested :
    let config : Config :=
      { schema := { isAnalyzed := fun field => field = "body" }, expanders := [Expander.recorder] }
    let root : Clause := .group {} none false
      [.leaf { field := some "body" } (.presence .present),
        .group { field := some "a", negated := true } none true
          [.leaf {} (.term "v" false),
            .group { field := some "b" } (some .and) true
              [.leaf { field := some "c" } (.term "w" false)]]]
    let f : Filter := .not (.join .or [.term "a" "v", .term "a.b.c" "w"])
    (config.compile root).result = .ok f ∧
      ∃ xs, List.Forall₂ (Occurrence.Compiles config) root.leaves xs ∧
        (∃ leaves suppressed matchAll, (config.compile root).events =
          xs.flatMap Outcome.events ++ [.compiledFilter leaves suppressed matchAll]) ∧
        (xs.filterMap Outcome.filter ≠ [] →
          f.atoms = (xs.filterMap Outcome.filter).flatMap Filter.atoms) ∧
        (xs.filterMap Outcome.filter = [] → f = .matchAll) :=
  ⟨rfl, compile_atoms rfl⟩

end SearchQuery
