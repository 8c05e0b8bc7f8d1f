import SearchQuery.Proofs.LeafOrder

/-!
# SearchQuery.Proofs.NormalForm

The form in which filters come.

A filter is normal when each join has two parts or more, none of which is a join of the same kind,
and no negation stands right inside another. Joining and negating lead from normal filters to normal
filters, so all that is ever put together from atoms is normal, and what a tree compiles to is put
together in this way from the filters of its leaves.

* `Filter.combine_isNormal`, `Filter.negate_isNormal` — one step keeps the form.
* `Filter.Assembled.isNormal`                         — any number of steps.
* `Gathered.assembled`                                — compiling is nothing but such steps.
* `Range.bounds?_proper`                              — the bounds of a range that is kept.
* `filters_normal`                                    — all of it together.
-/

namespace SearchQuery

namespace Filter

/-! ## Normal filters -/

def isAtom : Filter → Bool
  | .matchAll => true
  | .leaf _ => true
  | .join _ _ => false
  | .not _ => false

def isNot : Filter → Bool
  | .not _ => true
  | _ => false

/-- What joins the parts of a join. -/
def joinedBy? : Filter → Option Connective
  | .join op _ => some op
  | _ => none

mutual

/-- Each join has two parts or more and none of them is a join of the same kind, and no negation
stands right inside another. -/
def isNormal : Filter → Bool
  | .matchAll => true
  | .leaf _ => true
  | .join op parts => 2 ≤ parts.length && partsNormal op parts
  | .not f => !f.isNot && f.isNormal

/-- The filters are normal, and none is a join by `op`. -/
def partsNormal (op : Connective) : List Filter → Bool
  | [] => true
  | f :: fs => f.joinedBy? ≠ some op && f.isNormal && partsNormal op fs

end

theorem partsNormal_iff (op : Connective) (fs : List Filter) :
    partsNormal op fs = true ↔ ∀ f ∈ fs, f.joinedBy? ≠ some op ∧ f.isNormal = true := by
  induction fs with
  | nil => simp [partsNormal]
  | cons f fs ih => simp [partsNormal, ih, and_assoc]

theorem join_isNormal_iff (op : Connective) (parts : List Filter) :
    (join op parts).isNormal = true ↔
      2 ≤ parts.length ∧ ∀ f ∈ parts, f.joinedBy? ≠ some op ∧ f.isNormal = true := by
  rw [isNormal, Bool.and_eq_true, decide_eq_true_eq, partsNormal_iff]

theorem isNormal_of_isAtom {f : Filter} (h : f.isAtom = true) : f.isNormal = true := by
  cases f with
  | matchAll => rfl
  | leaf c => rfl
  | join op parts => cases h
  | not f => cases h

/-! ## One step -/

/-- What a normal filter adds to a join can stand in it. -/
theorem operands_isNormal {f : Filter} (h : f.isNormal = true) (op : Connective) :
    f.operands op ≠ [] ∧
      ∀ g ∈ f.operands op, g.joinedBy? ≠ some op ∧ g.isNormal = true := by
  unfold operands
  split
  · rename_i op' parts
    split
    · rename_i hop
      subst hop
      obtain ⟨hlength, hparts⟩ := (join_isNormal_iff op' parts).1 h
      refine ⟨?_, hparts⟩
      rintro rfl
      simp at hlength
    · rename_i hop
      simp [joinedBy?, hop, h]
  · rename_i hjoin
    refine ⟨by simp, ?_⟩
    intro g hg
    obtain rfl := List.mem_singleton.1 hg
    refine ⟨?_, h⟩
    cases g with
    | join op' parts => exact absurd rfl (hjoin op' parts)
    | matchAll => simp [joinedBy?]
    | leaf c => simp [joinedBy?]
    | not g => simp [joinedBy?]

theorem combine_isNormal {f g : Filter} (hf : f.isNormal = true) (hg : g.isNormal = true)
    (op : Connective) : (f.combine op g).isNormal = true := by
  obtain ⟨hfne, hfparts⟩ := operands_isNormal hf op
  obtain ⟨hgne, hgparts⟩ := operands_isNormal hg op
  rw [combine, join_isNormal_iff]
  constructor
  · have hfpos := List.length_pos_iff.2 hfne
    have hgpos := List.length_pos_iff.2 hgne
    rw [List.length_append]
    omega
  · intro p hp
    rcases List.mem_append.1 hp with hp | hp
    · exact hfparts p hp
    · exact hgparts p hp

theorem negate_isNormal {f : Filter} (h : f.isNormal = true) : f.negate.isNormal = true := by
  cases f with
  | not g =>
    rw [isNormal, Bool.and_eq_true] at h
    exact h.2
  | matchAll => rfl
  | leaf c => rfl
  | join op parts => simpa [negate, isNormal, isNot] using h

/-- On a negation of a negation this would fail: both would be taken off. -/
theorem negate_negate {f : Filter} (h : f.isNormal = true) : f.negate.negate = f := by
  cases f with
  | not g =>
    cases g with
    | not g => simp [isNormal, isNot] at h
    | matchAll => rfl
    | leaf c => rfl
    | join op parts => rfl
  | matchAll => rfl
  | leaf c => rfl
  | join op parts => rfl

theorem operands_combine (op : Connective) (f g : Filter) :
    (f.combine op g).operands op = f.operands op ++ g.operands op := by
  simp [combine, operands]

theorem combine_assoc (op : Connective) (f g h : Filter) :
    (f.combine op g).combine op h = f.combine op (g.combine op h) := by
  calc (f.combine op g).combine op h
      = join op ((f.combine op g).operands op ++ h.operands op) := rfl
    _ = join op (f.operands op ++ (g.combine op h).operands op) := by
      rw [operands_combine, operands_combine, List.append_assoc]
    _ = f.combine op (g.combine op h) := rfl

/-! ## Many steps -/

/-- Put together from the filters in `base` by joining and negating. -/
inductive Assembled (base : Filter → Prop) : Filter → Prop where
  | base {f : Filter} : base f → Assembled base f
  | and {f g : Filter} : Assembled base f → Assembled base g → Assembled base (f.and g)
  | or {f g : Filter} : Assembled base f → Assembled base g → Assembled base (f.or g)
  | combine {f g : Filter} (op : Connective) :
      Assembled base f → Assembled base g → Assembled base (f.combine op g)
  | negate {f : Filter} : Assembled base f → Assembled base f.negate

theorem Assembled.isNormal {base : Filter → Prop} (hbase : ∀ f, base f → f.isNormal = true)
    {f : Filter} (h : Assembled base f) : f.isNormal = true := by
  induction h with
  | base hf => exact hbase _ hf
  | and _ _ ihf ihg => exact combine_isNormal ihf ihg .and
  | or _ _ ihf ihg => exact combine_isNormal ihf ihg .or
  | combine op _ _ ihf ihg => exact combine_isNormal ihf ihg op
  | negate _ ih => exact negate_isNormal ih

end Filter

/-! ## Compiled filters -/

section Gathering

variable {base : Filter → Prop}

theorem joinFilter_assembled {before : Option Filter} {f : Filter}
    (hb : ∀ g, before = some g → Filter.Assembled base g) (hf : Filter.Assembled base f)
    (op : Connective) (marks : Marks) :
    Filter.Assembled base (joinFilter op marks before f) := by
  obtain ⟨incoming, op', hincoming, hjoin⟩ := joinFilter_cases op marks before f
  have hin : Filter.Assembled base incoming := by
    rcases hincoming with rfl | rfl
    · exact hf
    · exact .negate hf
  rw [hjoin]
  cases before with
  | none => exact hin
  | some g => exact .combine op' (hb g rfl) hin

/-- What is gathered from leaves is put together from their filters. -/
theorem Gathered.assembled {xs : List Outcome} {k : Contribution} (h : Gathered xs k)
    (hxs : ∀ f ∈ xs.filterMap Outcome.filter, base f) :
    ∀ f, k.filter = some f → Filter.Assembled base f := by
  induction h with
  | nothing =>
    intro f hf
    cases hf
  | leaf x =>
    intro f hf
    refine .base (hxs f ?_)
    unfold Outcome.contribution at hf
    cases hx : x.filter with
    | none => simp [hx] at hf
    | some g => simpa [hx] using hf.symm
  | @add xs ys before next op marks _ _ ihb ihn =>
    intro f hf
    simp only [List.filterMap_append, List.mem_append, or_imp, forall_and] at hxs
    unfold Contribution.add at hf
    cases hn : next.filter with
    | none =>
      simp only [hn] at hf
      exact ihb hxs.1 f hf
    | some g =>
      simp only [hn] at hf
      obtain rfl := Option.some.inj hf
      exact joinFilter_assembled (ihb hxs.1) (ihn hxs.2 g hn) op marks

end Gathering

/-- An expander that gives normal filters for normal filters. -/
def Expander.KeepsNormal (r : Expander) : Prop :=
  ∀ clause before after, before.filter.isNormal = true →
    (r clause before).result = .ok after → after.filter.isNormal = true

theorem Expander.Passes.isNormal {clause : Clause} {rs : List Expander} {before after : Context}
    {events : List Event} (h : Passes clause rs before events after)
    (hrs : ∀ r ∈ rs, KeepsNormal r) (hb : before.filter.isNormal = true) :
    after.filter.isNormal = true := by
  induction h with
  | nil => exact hb
  | @cons r rs before middle after events events' hr _ ih =>
    have hmiddle : middle.filter.isNormal = true :=
      hrs r List.mem_cons_self clause before middle hb (by rw [hr])
    exact ih (fun s hs => hrs s (List.mem_cons_of_mem r hs)) hmiddle

/-- A filter that a leaf has come to is what the expanders have left of its constraint. -/
theorem expanded_of_mem {config : Config} {os : List Occurrence} {xs : List Outcome} {f : Filter}
    (h : List.Forall₂ (Occurrence.Compiles config) os xs)
    (hf : f ∈ xs.filterMap Outcome.filter) :
    ∃ o c events context, Occurrence.constraint? config o = some c ∧
      Expander.Passes o.clause config.expanders (o.context config c) events context ∧
      context.filter = f := by
  induction h with
  | nil => cases hf
  | @cons o x os xs hx _ ih =>
    cases hx with
    | suppressed _ => exact ih (by simpa using hf)
    | @expanded c events context hc hrun =>
      simp only [List.filterMap_cons] at hf
      rcases List.mem_cons.1 hf with rfl | hf
      · exact ⟨o, c, events, context, hc, hrun, rfl⟩
      · exact ih hf

theorem compile_isNormal {config : Config} {root : Clause} {f : Filter}
    (h : (config.compile root).result = .ok f)
    (hrs : ∀ r ∈ config.expanders, Expander.KeepsNormal r) : f.isNormal = true := by
  obtain ⟨xs, total, hxs, htotal, rfl, -⟩ := compile_gathered h
  have hleaves : ∀ g ∈ xs.filterMap Outcome.filter, g.isNormal = true := by
    intro g hg
    obtain ⟨o, c, events, context, -, hrun, rfl⟩ := expanded_of_mem hxs hg
    exact hrun.isNormal hrs rfl
  cases hf : total.filter with
  | none => rfl
  | some g => exact (htotal.assembled hleaves g hf).isNormal fun _ h => h

/-! ## Ranges -/

/-- The bounds that are set. -/
def Bounds.ends (b : Bounds) : List String :=
  [b.gt, b.gte, b.lt, b.lte].filterMap id

/-- There is a bound, each side has one at most, and none is blank. -/
structure Bounds.Proper (b : Bounds) : Prop where
  bounded : b.ends ≠ []
  lower : b.gt = none ∨ b.gte = none
  upper : b.lt = none ∨ b.lte = none
  visible : ∀ s ∈ b.ends, Text.isBlankText s = false

theorem Bounds.ends_eq_nil_iff (b : Bounds) : b.ends = [] ↔ b.isUnbounded = true := by
  cases hgt : b.gt <;> cases hgte : b.gte <;> cases hlt : b.lt <;> cases hlte : b.lte <;>
    simp [Bounds.ends, Bounds.isUnbounded, hgt, hgte, hlt, hlte]

theorem usableBound_visible {bound : Option String} {s : String} (h : usableBound bound = some s) :
    Text.isBlankText s = false := by
  cases bound with
  | none => simp [usableBound] at h
  | some t =>
    obtain ⟨ht, rfl⟩ : Text.isBlankText t = false ∧ t = s := by
      simpa [usableBound, Option.filter] using h
    exact ht

theorem Range.bounds?_proper {r : Range} {field : String} {b : Bounds}
    (h : r.bounds? field = some b) : b.Proper := by
  rw [Range.bounds?] at h
  obtain ⟨hbounded, hb⟩ := Option.ite_none_left_eq_some.1 h
  obtain rfl := Option.some.inj hb
  refine ⟨fun hnil => hbounded ((Bounds.ends_eq_nil_iff _).1 hnil), ?_, ?_, ?_⟩
  · -- whichever way the bound is meant, one of its two places is empty
    by_cases hmin : r.minInclusive = some false <;> simp [hmin]
  · by_cases hmax : r.maxInclusive = some false <;> simp [hmax]
  · intro s hs
    have hside : some s = usableBound r.min ∨ some s = usableBound r.max := by
      by_cases hmin : r.minInclusive = some false <;>
        by_cases hmax : r.maxInclusive = some false <;>
          simpa [Bounds.ends, hmin, hmax] using hs
    rcases hside with hs | hs
    · exact usableBound_visible hs.symm
    · exact usableBound_visible hs.symm

theorem leafConstraint_range_proper {op : Connective} {field : Option String} {analyzed : Bool}
    {leaf : Leaf} {b : Bounds} (h : leafConstraint op field analyzed leaf = some (.range b)) :
    b.Proper := by
  cases leaf with
  | term text quoted =>
    have hterm : termConstraint op field analyzed text quoted = .range b := Option.some.inj h
    unfold termConstraint at hterm
    split at hterm <;> cases hterm
  | presence p =>
    cases analyzed <;> cases field <;> simp [leafConstraint] at h
  | range r =>
    cases analyzed <;> cases field <;> simp [leafConstraint] at h
    exact Range.bounds?_proper h

theorem compile_ranges_proper {config : Config} {root : Clause} {f : Filter}
    (h : (config.compile root).result = .ok f) (hrs : config.expanders = []) {b : Bounds}
    (hb : .leaf (.range b) ∈ f.atoms) : b.Proper := by
  obtain ⟨xs, total, hxs, htotal, rfl, -⟩ := compile_gathered h
  have hlists := htotal.lists
  cases hf : total.filter with
  | none => simp [hf, Filter.atoms] at hb
  | some g =>
    rw [hf] at hb hlists
    rw [Option.getD_some, hlists.2] at hb
    obtain ⟨f', hmem, hatom⟩ := List.mem_flatMap.1 hb
    obtain ⟨o, c, events, context, hc, hrun, rfl⟩ := expanded_of_mem hxs hmem
    rw [hrs] at hrun
    cases hrun
    obtain rfl : .range b = c := by simpa [Occurrence.context, Filter.atoms] using hatom
    exact leafConstraint_range_proper hc

/-- Whatever is put together from atoms is normal; negating twice gives a normal filter back;
joining is associative; and what a tree compiles to is normal if the expanders keep to normal
filters, with proper bounds in all its ranges if there are no expanders. -/
theorem filters_normal :
    (∀ f, Filter.Assembled (fun g => g.isAtom = true) f → f.isNormal = true) ∧
    (∀ f : Filter, f.isNormal = true → f.negate.negate = f) ∧
    (∀ f g h : Filter, (f.and g).and h = f.and (g.and h)) ∧
    (∀ f g h : Filter, (f.or g).or h = f.or (g.or h)) ∧
    ∀ (config : Config) (root : Clause) (f : Filter), (config.compile root).result = .ok f →
      ((∀ r ∈ config.expanders, Expander.KeepsNormal r) → f.isNormal = true) ∧
      (config.expanders = [] → ∀ b, .leaf (.range b) ∈ f.atoms → b.Proper) := by
  refine ⟨?_, ?_, ?_, ?_, ?_⟩
  · intro f hf
    exact hf.isNormal fun g => Filter.isNormal_of_isAtom
  · intro f hf
    exact Filter.negate_negate hf
  · exact Filter.combine_assoc .and
  · exact Filter.combine_assoc .or
  · intro config root f h
    exact ⟨compile_isNormal h, fun hrs b hb => compile_ranges_proper h hrs hb⟩

/-- A range and a negated group in a disjunction, compiled as they are and with an expander that
inverts every leaf. -/
theorem filters_normal_inverted :
    let invert : Expander := fun _ context => pure { context with filter := context.filter.negate }
    let root : Clause := .group {} (some .or) false
      [.leaf { field := some "x" } (.range { min := some "1", minInclusive := some false }),
        .group { field := some "x", negated := true } (some .or) true
          [.leaf {} (.term "a" false), .leaf { negated := true } (.term "b" false)]]
    let b : Bounds := { field := "x", gt := some "1" }
    let plain : Filter := .join .or [.leaf (.range b),
      .not (.join .or [.term "x" "a", .not (.term "x" "b")])]
    let inverted : Filter := .join .or [.not (.leaf (.range b)),
      .not (.join .or [.not (.term "x" "a"), .term "x" "b"])]
    (Config.compile {} root).result = .ok plain ∧ b.Proper ∧ plain.negate.negate = plain ∧
      (Config.compile { expanders := [invert] } root).result = .ok inverted ∧
      inverted.isNormal = true := by
  intro invert root b plain inverted
  obtain ⟨-, hnegate, -, -, hcompile⟩ := filters_normal
  have hplain : (Config.compile {} root).result = .ok plain := rfl
  have hinverted : (Config.compile { expanders := [invert] } root).result = .ok inverted := rfl
  have hinvert : ∀ r ∈ [invert], Expander.KeepsNormal r := by
    intro r hr clause before after hb hafter
    obtain rfl := List.mem_singleton.1 hr
    obtain rfl := Except.ok.inj hafter
    exact Filter.negate_isNormal hb
  refine ⟨hplain, (hcompile _ _ _ hplain).2 rfl b ?_, hnegate plain rfl, hinverted,
    (hcompile _ _ _ hinverted).1 hinvert⟩
  simp [plain, Filter.atoms, Filter.atomsAll]

end SearchQuery
