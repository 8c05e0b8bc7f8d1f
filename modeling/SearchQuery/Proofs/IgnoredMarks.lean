import SearchQuery.Proofs.Negation
import SearchQuery.Proofs.Request

/-!
# SearchQuery.Proofs.IgnoredMarks

Marks that say nothing in a request.

In front of the field of a `terms` clause a sign asks for an order, and in front of an option's value
it is a part of that value. It is refused in front of any other field, as a connective between clauses
is. Other marks are passed over: every `NOT`, and what stands in front of the parentheses of a clause
or connects what is in them. `Group.bare` is a request without those.

* `Group.MarksInPlace`         — a request whose marks all stand where they are read.
* `aggregations_bare_ok_iff`   — what `bare` takes away makes no difference.
* `Clause.HasParts.mem`        — what may stand in the parentheses of a clause.
* `under_cases`                — how deep an accepted request can be.
* `bare_eq_of_marksInPlace`    — `bare` takes away no mark that is in its place.
* `marksInPlace_of_bare_eq`    — in an accepted request it leaves no other marks.
* `compileRequest_passes_over` — which marks of an accepted request say nothing.
-/

namespace SearchQuery

theorem map_eq_self_iff {α : Type} {f : α → α} {xs : List α} :
    xs.map f = xs ↔ ∀ x ∈ xs, f x = x := by
  conv => lhs; rhs; rw [← List.map_id xs]
  exact List.map_inj_left

namespace Clause

/-- The clause `c` stands in the groups `above` of the tree of `root`, the innermost of them first. -/
inductive Under (root : Clause) : List Clause → Clause → Prop where
  | root : Under root [] root
  | child {above : List Clause} {m : Marks} {op : Option Connective} {parens : Bool}
      {children : List Clause} {c : Clause}
      (hgroup : Under root above (.group m op parens children)) (hc : c ∈ children) :
      Under root (.group m op parens children :: above) c

/-- Where a sign is read in a request. -/
inductive TakesSign : List Clause → Clause → Prop where
  /-- An order, as in `-terms:field`. -/
  | clause {root : Clause} {m : Marks} {text : String} {quoted : Bool}
      (hterms : m.field = some "terms") : TakesSign [root] (.leaf m (.term text quoted))
  /-- An order, as in `terms:(-field)`. -/
  | field {root g : Clause} {m : Marks} {text : String} {quoted : Bool}
      (hterms : g.marks.field = some "terms") (hfield : m.field = none) :
      TakesSign [g, root] (.leaf m (.term text quoted))
  /-- A part of a value, as in `kind:(field @option:-value)`. -/
  | option {root g : Clause} {m : Marks} {text name : String} {quoted : Bool}
      (hname : m.field = some name) (hat : name.toList.head? = some '@') :
      TakesSign [g, root] (.leaf m (.term text quoted))

/-- A clause of a request without the marks that are passed over. -/
def bare : Clause → Clause
  | .leaf m l => (leaf m l).withNegated false
  | .group m _ parens children =>
    .group { field := m.field } none parens (children.map (withNegated false))

theorem marks_field_bare (c : Clause) : c.bare.marks.field = c.marks.field := by
  cases c <;> rfl

theorem withNegated_eq_iff (negated : Bool) (c : Clause) :
    c.withNegated negated = c ↔ c.marks.negated = negated := by
  rcases c with ⟨⟨field, negated', occur⟩, l⟩ | ⟨⟨field, negated', occur⟩, op, parens, children⟩ <;>
    simp [withNegated, marks, eq_comm]

theorem withNegated_withNegated (negated negated' : Bool) (c : Clause) :
    (c.withNegated negated').withNegated negated = c.withNegated negated := by
  cases c <;> rfl

theorem bare_bare (c : Clause) : c.bare.bare = c.bare := by
  cases c with
  | leaf m l => rfl
  | group m op parens children =>
    simp only [bare, List.map_map, Function.comp_def, withNegated_withNegated]

end Clause

/-- The request has no connective, no negation, and signs only where they are read. -/
def Group.MarksInPlace (root : Group) : Prop :=
  ∀ above c, root.toClause.Under above c →
    c.op? = none ∧ c.marks.negated = false ∧ (c.marks.occur ≠ none → c.TakesSign above)

def Group.bare (root : Group) : Group :=
  { root with children := root.children.map Clause.bare }

theorem Group.bare_bare (root : Group) : root.bare.bare = root.bare := by
  simp only [bare, List.map_map, Function.comp_def, Clause.bare_bare]

/-! ## What reading passes over -/

namespace RequestClause

theorem readParts_withNegated (found : Option (String × Option Occur))
    (options : List (String × String)) (cs : List Clause) :
    readParts found options (cs.map (Clause.withNegated false)) = readParts found options cs := by
  induction cs generalizing found options with
  | nil => rfl
  | cons c cs ih =>
    rcases c with ⟨m, text | range | presence⟩ | ⟨m, op, parens, children⟩ <;>
      simp only [List.map_cons, Clause.withNegated, readParts, ih]

theorem read_bare_ok_iff (c : Clause) (r' : RequestClause) :
    read c.bare = .ok r' ↔ ∃ r, read c = .ok r ∧ r' = { r with clause := c.bare } := by
  unfold read
  rw [c.marks_field_bare]
  cases c.marks.field with
  | none => simp
  | some name =>
    dsimp only
    cases AggregationKind.ofName? name with
    | none => simp
    | some kind =>
      rcases c with ⟨m, l⟩ | ⟨m, op, parens, children⟩
      · cases l <;> simp [Clause.bare, Clause.withNegated, eq_comm]
      · simp only [Clause.bare, readParts_withNegated]
        cases readParts none [] children <;> simp [eq_comm]

end RequestClause

theorem aggregation_bare_ok_iff (schema : Schema) (c : Clause) (a : Aggregation) :
    schema.aggregation c.bare = .ok a ↔ schema.aggregation c = .ok a := by
  rw [aggregation_ok_iff, aggregation_ok_iff]
  constructor
  · rintro ⟨r', hread, hbuild⟩
    obtain ⟨r, hr, rfl⟩ := (RequestClause.read_bare_ok_iff c r').1 hread
    exact ⟨r, hr, hbuild⟩
  · rintro ⟨r, hr, hbuild⟩
    exact ⟨_, (RequestClause.read_bare_ok_iff c _).2 ⟨r, hr, rfl⟩, hbuild⟩

theorem mapM_map_ok_iff {ε α β : Type} {f : α → Except ε β} {g : α → α}
    (h : ∀ x y, f (g x) = .ok y ↔ f x = .ok y) (xs : List α) (ys : List β) :
    (xs.map g).mapM f = .ok ys ↔ xs.mapM f = .ok ys := by
  induction xs generalizing ys with
  | nil => rfl
  | cons x xs ih => simp only [List.map_cons, mapM_cons_ok_iff, h, ih]

theorem aggregations_bare_ok_iff (schema : Schema) (root : Group) (as : List Aggregation) :
    schema.aggregations root.bare = .ok as ↔ schema.aggregations root = .ok as := by
  rw [aggregations_ok_iff, aggregations_ok_iff]
  exact and_congr_right' (mapM_map_ok_iff (aggregation_bare_ok_iff schema) root.children as)

/-- The answer to an accepted request is also that to every request that differs from it in nothing but
marks that are passed over. -/
theorem compileRequest_of_bare_eq {config : Config} {text : String} {root root' : Group}
    {as : List Aggregation} (h : config.schema.aggregations root = .ok as)
    (hroot' : parseWithin config.settings.maxDepth text = .ok root') (hbare : root'.bare = root.bare) :
    (config.compileRequest text).result = .ok as := by
  refine compileRequest_ok_iff.2 ⟨root', hroot', ?_⟩
  rw [← aggregations_bare_ok_iff, hbare, aggregations_bare_ok_iff]
  exact h

/-! ## What is left -/

/-- In the parentheses of an accepted clause there are only terms: the field, whose sign is that of the
clause, and options. -/
theorem Clause.HasParts.mem {m : Marks} {op : Option Connective} {parens : Bool}
    {children : List Clause} {field : String × Option Occur} {options : List (String × String)}
    (h : (Clause.group m op parens children).HasParts field options) {c : Clause}
    (hc : c ∈ children) :
    ∃ m text quoted, c = .leaf m (.term text quoted) ∧
      ((m.field = none ∧ field = (text, m.occur)) ∨
        ∃ name, m.field = some name ∧ name.toList.head? = some '@') := by
  cases h with
  | group hparts hfield =>
    rcases hparts c hc with hsome | hsome
    · obtain ⟨part, hpart⟩ := Option.ne_none_iff_exists'.1 hsome
      have hmem : part ∈ children.filterMap Clause.fieldPart? :=
        List.mem_filterMap.2 ⟨c, hc, hpart⟩
      rw [hfield, List.mem_singleton] at hmem
      subst hmem
      obtain ⟨m, quoted, rfl, hnone, hsign⟩ := Clause.fieldPart?_eq_some_iff.1 hpart
      exact ⟨m, _, quoted, rfl, .inl ⟨hnone, by rw [hsign]⟩⟩
    · obtain ⟨⟨name, value⟩, hpart⟩ := Option.ne_none_iff_exists'.1 hsome
      obtain ⟨m, text, quoted, rfl, hname, -⟩ := Clause.optionPart?_eq_some_iff.1 hpart
      exact ⟨m, text, quoted, rfl, .inr ⟨_, hname, by simp⟩⟩

namespace Group

variable {schema : Schema} {root : Group} {as : List Aggregation}

theorem read_of_mem (has : schema.aggregations root = .ok as) {c : Clause} (hc : c ∈ root.children) :
    ∃ r, RequestClause.read c = .ok r ∧ (r.occur ≠ none → r.kind = .terms) := by
  obtain ⟨a, ha⟩ := exists_of_mapM_ok (aggregations_ok_iff.1 has).2 hc
  obtain ⟨r, hr, hbuild⟩ := aggregation_ok_iff.1 ha
  exact ⟨r, hr, (RequestClause.buildChecked_ok_iff.1 hbuild).2.1⟩

/-- A clause that is itself a term has a sign only to ask for an order. -/
theorem takesSign_of_leaf (has : schema.aggregations root = .ok as) {m : Marks} {l : Leaf}
    (hc : .leaf m l ∈ root.children) (hsign : m.occur ≠ none) :
    (Clause.leaf m l).TakesSign [root.toClause] := by
  obtain ⟨⟨_, kind, _, _, _⟩, hr, horder⟩ := read_of_mem has hc
  obtain ⟨-, hkind, hparts⟩ := RequestClause.read_ok_iff.1 hr
  cases hparts with
  | term =>
    obtain rfl : kind = .terms := horder hsign
    exact .clause hkind

/-- A part of a clause is a term, with a sign to ask for an order or as a piece of its value. -/
theorem takesSign_of_part (has : schema.aggregations root = .ok as) {m : Marks}
    {op : Option Connective} {parens : Bool} {children : List Clause} {c : Clause}
    (hgroup : .group m op parens children ∈ root.children) (hc : c ∈ children) :
    (∃ m l, c = .leaf m l) ∧
      (c.marks.occur ≠ none → c.TakesSign [.group m op parens children, root.toClause]) := by
  obtain ⟨r, hr, horder⟩ := read_of_mem has hgroup
  obtain ⟨-, hkind, hparts⟩ := RequestClause.read_ok_iff.1 hr
  obtain ⟨m', text, quoted, rfl, hpart⟩ := hparts.mem hc
  refine ⟨⟨m', _, rfl⟩, fun hsign => ?_⟩
  rcases hpart with ⟨hfield, hfound⟩ | ⟨name, hname, hat⟩
  · have hoccur : r.occur = m'.occur := congrArg Prod.snd hfound
    rw [horder (hoccur ▸ hsign)] at hkind
    exact .field hkind hfield
  · exact .option hname hat

/-- An accepted request has clauses and parts of clauses, and nothing below them. -/
theorem under_cases (has : schema.aggregations root = .ok as) {above : List Clause} {c : Clause}
    (h : root.toClause.Under above c) :
    (above = [] ∧ c = root.toClause) ∨ (above = [root.toClause] ∧ c ∈ root.children) ∨
      ∃ m op parens children, .group m op parens children ∈ root.children ∧ c ∈ children ∧
        above = [.group m op parens children, root.toClause] := by
  induction h with
  | root => exact .inl ⟨rfl, rfl⟩
  | child hgroup hc ih =>
    rcases ih with ⟨rfl, heq⟩ | ⟨rfl, hmem⟩ | ⟨m, op, parens, children, hmem, hpart, -⟩
    · rw [heq]
      injection heq with _ _ _ hchildren
      exact .inr (.inl ⟨rfl, hchildren ▸ hc⟩)
    · exact .inr (.inr ⟨_, _, _, _, hmem, hc, rfl⟩)
    · -- a part is a term, so that nothing stands in it
      obtain ⟨⟨m', l, hleaf⟩, -⟩ := takesSign_of_part has hmem hpart
      cases hleaf

/-- Where all marks are in place there is nothing to pass over. -/
theorem bare_eq_of_marksInPlace (h : root.MarksInPlace) : root.bare = root := by
  have hchildren : root.children.map Clause.bare = root.children := by
    refine map_eq_self_iff.2 fun c hc => ?_
    obtain ⟨hop, hnegated, hsign⟩ := h _ c (.child .root hc)
    rcases c with ⟨m, l⟩ | ⟨⟨field, negated, occur⟩, op, parens, children⟩
    · exact (Clause.withNegated_eq_iff false (.leaf m l)).2 hnegated
    · have hparts : children.map (Clause.withNegated false) = children :=
        map_eq_self_iff.2 fun d hd =>
          (Clause.withNegated_eq_iff false d).2 (h _ d (.child (.child .root hc) hd)).2.1
      obtain rfl : op = none := hop
      obtain rfl : negated = false := hnegated
      -- no sign is read in front of a group
      obtain rfl : occur = none := by
        by_contra hoccur
        cases hsign hoccur
      rw [Clause.bare, hparts]
  rw [bare, hchildren]

/-- In an accepted request every mark is in place that is not passed over. -/
theorem marksInPlace_of_bare_eq (has : schema.aggregations root = .ok as)
    (hmarks : root.marks = {}) (hbare : root.bare = root) : root.MarksInPlace := by
  have hclauses : ∀ c ∈ root.children, c.bare = c :=
    map_eq_self_iff.1 (congrArg Group.children hbare)
  intro above c hunder
  rcases under_cases has hunder with ⟨rfl, rfl⟩ | ⟨rfl, hc⟩ | ⟨m, op, parens, children, hg, hc, rfl⟩
  · exact ⟨(aggregations_ok_iff.1 has).1, congrArg Marks.negated hmarks,
      fun hsign => absurd (congrArg Marks.occur hmarks) hsign⟩
  · have hself := hclauses c hc
    rcases c with ⟨m, l⟩ | ⟨m, op, parens, children⟩
    · exact ⟨rfl, (Clause.withNegated_eq_iff false (.leaf m l)).1 hself, takesSign_of_leaf has hc⟩
    · injection hself with hm hop
      exact ⟨hop.symm, congrArg Marks.negated hm.symm,
        fun hsign => absurd (congrArg Marks.occur hm.symm) hsign⟩
  · obtain ⟨⟨m', l, rfl⟩, hsign⟩ := takesSign_of_part has hg hc
    injection hclauses _ hg with _ _ _ hparts
    exact ⟨rfl, (Clause.withNegated_eq_iff false _).1 (map_eq_self_iff.1 hparts _ hc), hsign⟩

end Group

/-- What becomes of the marks of an accepted request. In its bare form all marks are in place, so that
none is out of place but those which `bare` takes away; and requests with the same bare form have the
same aggregations, so that these say nothing. -/
theorem compileRequest_passes_over {config : Config} {text : String} {as : List Aggregation}
    (h : (config.compileRequest text).result = .ok as) :
    ∃ root, parseWithin config.settings.maxDepth text = .ok root ∧
      root.bare.MarksInPlace ∧ (root.MarksInPlace ↔ root.bare = root) ∧
      ∀ text' root', parseWithin config.settings.maxDepth text' = .ok root' →
        root'.bare = root.bare → (config.compileRequest text').result = .ok as := by
  obtain ⟨root, hroot, has⟩ := compileRequest_ok_iff.1 h
  have hmarks : root.marks = {} := by
    obtain ⟨q, -, rfl, -⟩ := parseWithin_ok_iff.1 hroot
    exact congrArg Clause.marks q.toClause_root
  have hplace : root.bare.MarksInPlace :=
    Group.marksInPlace_of_bare_eq ((aggregations_bare_ok_iff _ root as).2 has) hmarks
      root.bare_bare
  refine ⟨root, hroot, hplace, ⟨Group.bare_eq_of_marksInPlace, fun hbare => hbare ▸ hplace⟩, ?_⟩
  intro text' root' hroot' hbare
  exact compileRequest_of_bare_eq has hroot' hbare

/-- The sign of the field asks for an order. The sign of the clause, the connective and the negation of
the option make no difference. -/
theorem compileRequest_passes_over_terms :
    let marked := "+terms:(-status AND NOT @min:2)"
    let plain := "terms:(-status @min:2)"
    let listed : Aggregation :=
      { name := "terms_status", kind := .terms, source := .field "status"
        options := ⟨[("exclude", .text "1"), ("min_doc_count", .int 2), ("order", .text "desc"),
          ("order_by", .text "status")]⟩ }
    (Config.compileRequest {} marked).result = .ok [listed] ∧
      (Config.compileRequest {} plain).result = .ok [listed] ∧
      ∃ root, parseWithin ({} : Config).settings.maxDepth plain = .ok root ∧
        root.MarksInPlace := by
  intro marked plain listed
  let parts (op : Option Connective) (m : Marks) (negated : Bool) : Group :=
    { children := [.group { m with field := some "terms" } op true
        [.leaf { occur := some .prohibited } (.term "status" false),
          .leaf { field := some "@min", negated } (.term "2" false)]] }
  have hmarked : parseWithin ({} : Config).settings.maxDepth marked =
      .ok (parts (some .and) { occur := some .required } true) := by decide +kernel
  have hplain : parseWithin ({} : Config).settings.maxDepth plain = .ok (parts none {} false) := by
    decide +kernel
  have hlisted : (Config.compileRequest {} marked).result = .ok [listed] :=
    compileRequest_ok_iff.2 ⟨_, hmarked, rfl⟩
  obtain ⟨root, hroot, hplace, -, hsame⟩ := compileRequest_passes_over hlisted
  obtain rfl := Except.ok.inj (hmarked.symm.trans hroot)
  exact ⟨hlisted, hsame _ _ hplain (by decide), _, hplain, hplace⟩

theorem exists_of_bare_ne {config : Config} {text : String} {root : Group} {as : List Aggregation}
    (hroot : parseWithin config.settings.maxDepth text = .ok root)
    (has : config.schema.aggregations root = .ok as) (hbare : root.bare ≠ root) :
    ∃ root as, parseWithin config.settings.maxDepth text = .ok root ∧
      (config.compileRequest text).result = .ok as ∧ ¬ root.MarksInPlace :=
  ⟨root, as, hroot, compileRequest_ok_iff.2 ⟨root, hroot, has⟩,
    fun h => hbare (Group.bare_eq_of_marksInPlace h)⟩

/-- A sign in front of parentheses, a negation and a connective between parts are all accepted, and
none of them is in place. In front of the field itself the sign is refused. -/
theorem marks_of_min_ignored :
    (∀ text ∈ ["-min:(price)", "NOT min:price", "min:(price AND @default:0)"],
      ∃ root as, parseWithin ({} : Config).settings.maxDepth text = .ok root ∧
        (Config.compileRequest {} text).result = .ok as ∧ ¬ root.MarksInPlace) ∧
    ∃ c, (Config.compileRequest {} "-min:price").result =
      .error (.compile (.invalidAggregation c .misplacedOrder)) := by
  let sign : Group :=
    { children := [.group { field := some "min", occur := some .prohibited } none true
        [.leaf {} (.term "price" false)]] }
  let negation : Group :=
    { children := [.leaf { field := some "min", negated := true } (.term "price" false)] }
  let connective : Group :=
    { children := [.group { field := some "min" } (some .and) true
        [.leaf {} (.term "price" false), .leaf { field := some "@default" } (.term "0" false)]] }
  let order : Clause := .leaf { field := some "min", occur := some .prohibited } (.term "price" false)
  have hsign : parseWithin ({} : Config).settings.maxDepth "-min:(price)" = .ok sign := by
    decide +kernel
  have hnegation : parseWithin ({} : Config).settings.maxDepth "NOT min:price" = .ok negation := by
    decide +kernel
  have hconnective : parseWithin ({} : Config).settings.maxDepth "min:(price AND @default:0)" =
      .ok connective := by decide +kernel
  have horder : parseWithin ({} : Config).settings.maxDepth "-min:price" =
      .ok { children := [order] } := by decide +kernel
  constructor
  · simp only [List.forall_mem_cons, List.not_mem_nil, false_implies, implies_true, and_true]
    exact ⟨exists_of_bare_ne hsign rfl (by decide), exists_of_bare_ne hnegation rfl (by decide),
      exists_of_bare_ne hconnective rfl (by decide)⟩
  · refine ⟨order, ?_⟩
    rw [compileRequest_result, horder]
    rfl

end SearchQuery
