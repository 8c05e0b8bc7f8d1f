import Mathlib.Control.Monad.Basic
import Mathlib.Data.List.Forall2
import SearchQuery.Query

/-!
# SearchQuery.Proofs.Request

Where the aggregations of an accepted request come from.

A request is read, its clauses are read one by one, and each is checked before it is built. What is
said of the building of one clause holds of every aggregation of every accepted request through
`exists_buildKind_of_mem`.

* `compileRequest_result`   — the answer to a request, by the tree of its text.
* `exists_buildKind_of_mem` — every aggregation is what one clause of the request builds.
* `readParts_ok_iff`        — the loop over what stands in the parentheses of a clause.
* `read_ok_iff`             — the parts of a clause.
* `buildKind_cases`         — what a clause can build.
-/

namespace SearchQuery

theorem mapError_ok_iff {ε ε' α : Type} {f : ε → ε'} {x : Except ε α} {a : α} :
    x.mapError f = .ok a ↔ x = .ok a := by
  cases x with
  | error e => constructor <;> intro h <;> cases h
  | ok b => constructor <;> intro h <;> cases h <;> rfl

theorem mapM_cons_ok_iff {ε α β : Type} {f : α → Except ε β} {x : α} {xs : List α} {ys : List β} :
    (x :: xs).mapM f = .ok ys ↔ ∃ z zs, f x = .ok z ∧ xs.mapM f = .ok zs ∧ ys = z :: zs := by
  rw [List.mapM_cons]
  cases f x with
  | error e => simp [bind, Except.bind]
  | ok z =>
    cases xs.mapM f with
    | error e => simp [bind, Except.bind]
    | ok zs => simp [bind, Except.bind, pure, Except.pure, eq_comm]

theorem mapM_append_ok_iff {ε α β : Type} (f : α → Except ε β) (xs ys : List α) (zs : List β) :
    (xs ++ ys).mapM f = .ok zs ↔
      ∃ as bs, xs.mapM f = .ok as ∧ ys.mapM f = .ok bs ∧ zs = as ++ bs := by
  rw [List.mapM_append]
  cases xs.mapM f with
  | error e => simp [bind, Except.bind]
  | ok as =>
    cases ys.mapM f with
    | error e => simp [bind, Except.bind]
    | ok bs => simp [bind, Except.bind, pure, Except.pure, eq_comm]

theorem mem_of_mapM_ok {ε α β : Type} {f : α → Except ε β} {y : β} :
    ∀ {xs : List α} {ys : List β}, xs.mapM f = .ok ys → y ∈ ys → ∃ x ∈ xs, f x = .ok y
  | [], ys, h, hy => by
    have hys : ys = [] := (Except.ok.inj h).symm
    simp [hys] at hy
  | x :: xs, ys, h, hy => by
    obtain ⟨z, zs, hx, hxs, rfl⟩ := mapM_cons_ok_iff.1 h
    rcases List.mem_cons.1 hy with rfl | hmem
    · exact ⟨x, List.mem_cons_self, hx⟩
    · obtain ⟨x', hx', hf⟩ := mem_of_mapM_ok hxs hmem
      exact ⟨x', List.mem_cons_of_mem x hx', hf⟩

theorem exists_of_mapM_ok {ε α β : Type} {f : α → Except ε β} {xs : List α} {ys : List β} {x : α}
    (h : xs.mapM f = .ok ys) (hx : x ∈ xs) : ∃ y, f x = .ok y := by
  induction xs generalizing ys with
  | nil => cases hx
  | cons x' xs ih =>
    obtain ⟨z, zs, hz, hzs, -⟩ := mapM_cons_ok_iff.1 h
    rcases List.mem_cons.1 hx with rfl | hx
    · exact ⟨z, hz⟩
    · exact ih hzs hx

theorem forall₂_of_mapM_ok {ε α β : Type} {f : α → Except ε β} {xs : List α} {ys : List β}
    (h : xs.mapM f = .ok ys) : List.Forall₂ (fun x y => f x = .ok y) xs ys := by
  induction xs generalizing ys with
  | nil =>
    obtain rfl : ys = [] := (Except.ok.inj h).symm
    exact .nil
  | cons x xs ih =>
    obtain ⟨z, zs, hz, hzs, rfl⟩ := mapM_cons_ok_iff.1 h
    exact .cons hz (ih hzs)

/-- The error of a list is that of its first element with one. -/
theorem first_of_mapM_error {ε α β : Type} {f : α → Except ε β} {xs : List α} {e : ε}
    (h : xs.mapM f = .error e) : ∃ before x after, xs = before ++ x :: after ∧
      (∀ y ∈ before, ∃ z, f y = .ok z) ∧ f x = .error e := by
  induction xs with
  | nil => cases h
  | cons x xs ih =>
    rw [List.mapM_cons] at h
    cases hx : f x with
    | error e' =>
      rw [hx] at h
      cases h
      exact ⟨[], x, xs, rfl, List.forall_mem_nil _, hx⟩
    | ok z =>
      have hxs : xs.mapM f = .error e := by
        rw [hx] at h
        cases hrest : xs.mapM f with
        | error e' =>
          rw [hrest] at h
          exact h
        | ok zs =>
          rw [hrest] at h
          cases h
      obtain ⟨before, y, after, rfl, hbefore, hy⟩ := ih hxs
      exact ⟨x :: before, y, after, rfl, List.forall_mem_cons.2 ⟨⟨z, hx⟩, hbefore⟩, hy⟩

/-- The answer to a request: it is read as a query is, and its tree is turned into aggregations. -/
theorem compileRequest_result (config : Config) (text : String) :
    (config.compileRequest text).result =
      match parseWithin config.settings.maxDepth text with
      | .error e => .error (.parse e)
      | .ok root => (config.schema.aggregations root).mapError .compile := by
  unfold Config.compileRequest parseWithin
  cases Parser.ofText text with
  | error e => rfl
  | ok p =>
    dsimp only
    cases ({ p with maxDepth := config.settings.maxDepth }.parse).1 with
    | error e => rfl
    | ok root =>
      simp only [Config.aggregate]
      cases config.schema.aggregations root <;> rfl

theorem compileRequest_ok_iff {config : Config} {text : String} {as : List Aggregation} :
    (config.compileRequest text).result = .ok as ↔
      ∃ root, parseWithin config.settings.maxDepth text = .ok root ∧
        config.schema.aggregations root = .ok as := by
  rw [compileRequest_result]
  cases parseWithin config.settings.maxDepth text with
  | error e => simp
  | ok root =>
    simp only [mapError_ok_iff, Except.ok.injEq, exists_eq_left']

theorem aggregation_ok_iff {schema : Schema} {c : Clause} {a : Aggregation} :
    schema.aggregation c = .ok a ↔
      ∃ r, RequestClause.read c = .ok r ∧ r.buildChecked schema = .ok a := by
  unfold Schema.aggregation
  cases RequestClause.read c with
  | error e => simp
  | ok r =>
    simp only [RequestClause.build, mapError_ok_iff, Except.ok.injEq, exists_eq_left']

/-- What is built has only options that its kind takes, and a sign only for an order. -/
theorem RequestClause.buildChecked_ok_iff {r : RequestClause} {schema : Schema} {a : Aggregation} :
    r.buildChecked schema = .ok a ↔
      r.unknownOption? = none ∧ (r.occur ≠ none → r.kind = .terms) ∧ r.buildKind schema = .ok a := by
  unfold buildChecked
  cases r.unknownOption? with
  | some name => simp
  | none =>
    by_cases hmisplaced : r.occur.isSome ∧ r.kind ≠ .terms
    · have horder : ¬ (r.occur ≠ none → r.kind = .terms) := fun hterms =>
        hmisplaced.2 (hterms (Option.isSome_iff_ne_none.1 hmisplaced.1))
      rw [if_pos hmisplaced]
      refine ⟨fun h => ?_, fun h => absurd h.2.1 horder⟩
      cases h
    · have horder : r.occur ≠ none → r.kind = .terms := fun hsome =>
        Decidable.not_not.1 fun hkind => hmisplaced ⟨Option.isSome_iff_ne_none.2 hsome, hkind⟩
      rw [if_neg hmisplaced]
      exact ⟨fun h => ⟨rfl, horder, h⟩, fun h => h.2.2⟩

theorem aggregations_ok_iff {schema : Schema} {root : Group} {as : List Aggregation} :
    schema.aggregations root = .ok as ↔
      root.op = none ∧ root.children.mapM schema.aggregation = .ok as := by
  unfold Schema.aggregations
  cases root.op <;> simp

/-- Every aggregation of an accepted request is what one of its clauses builds. -/
theorem exists_buildKind_of_mem {config : Config} {text : String} {as : List Aggregation}
    {a : Aggregation} (h : (config.compileRequest text).result = .ok as) (ha : a ∈ as) :
    ∃ root, parseWithin config.settings.maxDepth text = .ok root ∧
      ∃ c ∈ root.children, ∃ r, RequestClause.read c = .ok r ∧
        r.buildKind config.schema = .ok a := by
  obtain ⟨root, hroot, has⟩ := compileRequest_ok_iff.1 h
  obtain ⟨c, hc, hac⟩ := mem_of_mapM_ok (aggregations_ok_iff.1 has).2 ha
  obtain ⟨r, hr, hbuild⟩ := aggregation_ok_iff.1 hac
  exact ⟨root, hroot, c, hc, r, hr, (RequestClause.buildChecked_ok_iff.1 hbuild).2.2⟩

/-! ## The parts of a clause -/

@[simp] theorem AggregationKind.ofName?_eq_some_iff {s : String} {kind : AggregationKind} :
    ofName? s = some kind ↔ s = kind.name := by
  constructor
  · intro h
    have hname := List.find?_some h
    exact (of_decide_eq_true hname).symm
  · rintro rfl
    cases kind <;> rfl

theorem AggregationKind.name_injective {kind kind' : AggregationKind} (h : kind.name = kind'.name) :
    kind = kind' :=
  Option.some.inj ((ofName?_eq_some_iff.2 rfl).symm.trans (ofName?_eq_some_iff.2 h))

/-- A text with the sign in front of it, if there is one. -/
def signedText : Option Occur → String → String
  | none, text => text
  | some .required, text => "+" ++ text
  | some .prohibited, text => "-" ++ text

theorem RequestClause.writtenValue_eq (occur : Option Occur) (text : String) :
    writtenValue occur text = signedText occur text := by
  rcases occur with _ | _ | _ <;> rfl

namespace Clause

/-- A term without a field, with its sign: the field of a clause in whose parentheses it stands. -/
def fieldPart? : Clause → Option (String × Option Occur)
  | .leaf ⟨none, _, occur⟩ (.term text _) => some (text, occur)
  | _ => none

/-- A term on a field that starts with `@`: the name of an option and what is written for it. -/
def optionPart? : Clause → Option (String × String)
  | .leaf ⟨some name, _, occur⟩ (.term text _) =>
    match name.toList with
    | '@' :: option => some (String.ofList option, signedText occur text)
    | _ => none
  | _ => none

theorem fieldPart?_eq_some_iff {c : Clause} {part : String × Option Occur} :
    c.fieldPart? = some part ↔
      ∃ m quoted, c = .leaf m (.term part.1 quoted) ∧ m.field = none ∧ m.occur = part.2 := by
  obtain ⟨field, sign⟩ := part
  constructor
  · intro h
    unfold fieldPart? at h
    split at h
    · cases h
      exact ⟨_, _, rfl, rfl, rfl⟩
    · cases h
  · rintro ⟨⟨_, negated, _⟩, quoted, rfl, rfl, rfl⟩
    rfl

theorem optionPart?_eq_some_iff {c : Clause} {name value : String} :
    c.optionPart? = some (name, value) ↔
      ∃ m text quoted, c = .leaf m (.term text quoted) ∧ m.field = some ("@" ++ name) ∧
        value = signedText m.occur text := by
  constructor
  · intro h
    unfold optionPart? at h
    split at h
    · rename_i written negated occur text quoted
      split at h
      · rename_i option hname
        cases h
        refine ⟨_, _, _, rfl, ?_, rfl⟩
        have hwritten : written = "@" ++ String.ofList option := by
          rw [← String.toList_inj, hname]
          simp
        rw [hwritten]
      · cases h
    · cases h
  · rintro ⟨⟨_, negated, occur⟩, text, quoted, rfl, rfl, rfl⟩
    simp [optionPart?]

theorem optionPart?_of_fieldPart? {c : Clause} {part : String × Option Occur}
    (h : c.fieldPart? = some part) : c.optionPart? = none := by
  obtain ⟨⟨_, negated, occur⟩, quoted, rfl, rfl, -⟩ := fieldPart?_eq_some_iff.1 h
  rfl

/-- What may stand in the parentheses of a clause. -/
def IsPart (c : Clause) : Prop :=
  c.fieldPart? ≠ none ∨ c.optionPart? ≠ none

/-- The parts of a clause: its field with the sign, and its options in order. -/
inductive HasParts : Clause → String × Option Occur → List (String × String) → Prop where
  | term {m : Marks} {text : String} {quoted : Bool} :
      HasParts (.leaf m (.term text quoted)) (text, m.occur) []
  | group {m : Marks} {op : Option Connective} {parens : Bool} {children : List Clause}
      {field : String × Option Occur} (hparts : ∀ c ∈ children, c.IsPart)
      (hfield : children.filterMap fieldPart? = [field]) :
      HasParts (.group m op parens children) field (children.filterMap optionPart?)

theorem HasParts.group_inv {m : Marks} {op : Option Connective} {parens : Bool}
    {children : List Clause} {field : String × Option Occur} {options : List (String × String)}
    (h : HasParts (.group m op parens children) field options) :
    (∀ c ∈ children, c.IsPart) ∧ children.filterMap fieldPart? = [field] ∧
      options = children.filterMap optionPart? := by
  cases h with
  | group hparts hfield => exact ⟨hparts, hfield, rfl⟩

end Clause

namespace RequestClause

section Parts

variable {options : List (String × String)} {c : Clause} {cs : List Clause}

theorem readParts_field {part : String × Option Occur} (h : c.fieldPart? = some part) :
    readParts none options (c :: cs) = readParts (some part) options cs ∧
      ∀ found, readParts (some found) options (c :: cs) = .error .severalFields := by
  obtain ⟨field, sign⟩ := part
  obtain ⟨⟨_, negated, _⟩, quoted, rfl, rfl, rfl⟩ := Clause.fieldPart?_eq_some_iff.1 h
  exact ⟨rfl, fun _ => rfl⟩

theorem readParts_option {found : Option (String × Option Occur)} {option : String × String}
    (h : c.optionPart? = some option) :
    readParts found options (c :: cs) = readParts found (options ++ [option]) cs := by
  obtain ⟨name, value⟩ := option
  obtain ⟨⟨_, negated, occur⟩, text, quoted, rfl, rfl, rfl⟩ := Clause.optionPart?_eq_some_iff.1 h
  simp [readParts, writtenValue_eq]

theorem readParts_other {found : Option (String × Option Occur)} (h : ¬ c.IsPart) :
    ∃ fault, readParts found options (c :: cs) = .error fault := by
  obtain ⟨hfield, hoption⟩ : c.fieldPart? = none ∧ c.optionPart? = none := by
    simpa [Clause.IsPart] using h
  rcases c with ⟨⟨_ | name, negated, occur⟩, ⟨text, quoted⟩ | range | presence⟩ |
    ⟨m, op, parens, children⟩
  case leaf.none.term => cases hfield
  case leaf.some.term =>
    simp only [Clause.optionPart?] at hoption
    split at hoption
    · cases hoption
    · refine ⟨.unmarkedOption, ?_⟩
      simp only [readParts]
  all_goals exact ⟨.notAnOption, rfl⟩

/-- The loop over the parts of a clause. It comes to an end if all of them may stand there and exactly
one of them, with what had been found before, is the field. -/
theorem readParts_ok_iff {found : Option (String × Option Occur)} {field : String × Option Occur}
    {options' : List (String × String)} :
    readParts found options cs = .ok (field, options') ↔
      (∀ c ∈ cs, c.IsPart) ∧ found.toList ++ cs.filterMap Clause.fieldPart? = [field] ∧
        options' = options ++ cs.filterMap Clause.optionPart? := by
  induction cs generalizing found options with
  | nil => cases found <;> simp [readParts, eq_comm]
  | cons c cs ih =>
    cases hfield : c.fieldPart? with
    | some part =>
      have hoption := Clause.optionPart?_of_fieldPart? hfield
      cases found with
      | none =>
        rw [(readParts_field hfield).1, ih]
        simp [Clause.IsPart, hfield, hoption]
      | some f =>
        rw [(readParts_field hfield).2]
        simp [hfield]
    | none =>
      cases hoption : c.optionPart? with
      | some option =>
        rw [readParts_option hoption, ih]
        simp [Clause.IsPart, hfield, hoption]
      | none =>
        have hother : ¬ c.IsPart := by simp [Clause.IsPart, hfield, hoption]
        obtain ⟨fault, hfault⟩ := readParts_other hother
        rw [hfault]
        simp [hother]

end Parts

theorem read_ok_iff {c : Clause} {r : RequestClause} :
    read c = .ok r ↔
      r.clause = c ∧ c.marks.field = some r.kind.name ∧ c.HasParts (r.field, r.occur) r.options := by
  obtain ⟨clause, kind, field, occur, options⟩ := r
  unfold read
  cases hmark : c.marks.field with
  | none => simp
  | some name =>
    dsimp only
    cases hkind : AggregationKind.ofName? name with
    | none =>
      refine ⟨fun h => (nomatch h), ?_⟩
      rintro ⟨-, hname, -⟩
      rw [AggregationKind.ofName?_eq_some_iff.2 (Option.some.inj hname)] at hkind
      cases hkind
    | some kind' =>
      obtain rfl := AggregationKind.ofName?_eq_some_iff.1 hkind
      dsimp only
      constructor
      · intro h
        split at h
        · cases h
          exact ⟨rfl, rfl, .term⟩
        · split at h
          · cases h
          · rename_i hread
            cases h
            obtain ⟨hparts, hfield, rfl⟩ := readParts_ok_iff.1 hread
            exact ⟨rfl, rfl, .group hparts hfield⟩
        · cases h
      · rintro ⟨rfl, hname, hparts⟩
        obtain rfl := AggregationKind.name_injective (Option.some.inj hname)
        cases hparts with
        | term => rfl
        | @group _ _ _ children _ hparts hfield =>
          have hread : readParts none [] children =
              .ok ((field, occur), children.filterMap Clause.optionPart?) :=
            readParts_ok_iff.2 ⟨hparts, hfield, rfl⟩
          simp only [hread]

/-! ## Building -/

/-- The value that stands in for documents without the field. Only the kinds that compute a number
from the field take one. -/
def fallback? (r : RequestClause) : Option Value :=
  match r.kind with
  | .min | .max | .avg | .sum | .cardinality => (r.option? "default").map Value.read
  | _ => none

theorem metric_eq (r : RequestClause) :
    r.metric =
      match (r.option? "default").map Value.read with
      | none => r.onField r.field {}
      | some d => { r.onField r.field {} with source := .fallback r.field d } := by
  unfold metric
  cases r.option? "default" <;> rfl

theorem terms_cases {r : RequestClause} {schema : Schema} {a : Aggregation}
    (h : r.terms schema = .ok a) : ∃ options, a = r.onField (schema.wholeField r.field) options := by
  unfold terms at h
  split at h
  · cases h
  · cases h
    exact ⟨_, rfl⟩

theorem geogrid_cases {r : RequestClause} {schema : Schema} {a : Aggregation}
    (h : r.geogrid schema = .ok a) :
    ∃ options, a =
      { r.onField r.field options with
        children := [mean "avg_lat" r.field "lat", mean "avg_lon" r.field "lon"] } := by
  unfold geogrid at h
  split at h
  · split at h
    · cases h
    · cases h
      exact ⟨_, rfl⟩
  · cases h

/-- A clause builds an aggregation over a field, one with a value for documents without the field, or
a grid with the means of the two coordinates. -/
theorem buildKind_cases {r : RequestClause} {schema : Schema} {a : Aggregation}
    (h : r.buildKind schema = .ok a) :
    (r.kind ≠ .geogrid ∧ r.fallback? = none ∧ ∃ field options, a = r.onField field options) ∨
    (r.kind ≠ .geogrid ∧ ∃ d, r.fallback? = some d ∧
      a = { r.onField r.field {} with source := .fallback r.field d }) ∨
    (r.kind = .geogrid ∧ ∃ options, a =
      { r.onField r.field options with
        children := [mean "avg_lat" r.field "lat", mean "avg_lon" r.field "lon"] }) := by
  unfold buildKind at h
  unfold fallback?
  cases hkind : r.kind with
  | min | max | avg | sum | cardinality =>
    simp only [hkind, metric_eq, Except.ok.injEq] at h
    cases hd : (r.option? "default").map Value.read with
    | none => exact .inl ⟨by simp, rfl, r.field, {}, by simpa [hd] using h.symm⟩
    | some d => exact .inr (.inl ⟨by simp, d, rfl, by simpa [hd] using h.symm⟩)
  | percentiles | missing | date =>
    simp only [hkind, Except.ok.injEq] at h
    exact .inl ⟨by simp, rfl, _, _, h.symm⟩
  | terms =>
    simp only [hkind] at h
    exact .inl ⟨by simp, rfl, _, terms_cases h⟩
  | geogrid =>
    simp only [hkind] at h
    exact .inr (.inr ⟨rfl, geogrid_cases h⟩)

end RequestClause
end SearchQuery
