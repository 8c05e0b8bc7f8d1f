import Mathlib.Algebra.Group.Int.Defs
import SearchQuery.Proofs.NumberLiteral
import SearchQuery.Proofs.Request

/-!
# SearchQuery.Proofs.RequestForm

Which requests are accepted, and what becomes of them.

A clause is written `kind:field` or `kind:(field @option:value ...)`, where each kind has its own
options. Besides its form there are four things that a clause can be refused for: a sign in front of a
field that is not to be ordered by, a least count that is no integer, and for a grid a field without
points or a precision out of range. All of this is said here on the clauses themselves.

* `Clause.Asks`            — what a clause asks for, from the way it is written.
* `Schema.Accepts`         — such a clause, with nothing to be refused for.
* `Value.toInt?_read_iff`  — the texts that are read as integers.
* `option?_eq_lastWritten?` — of several options of one name the last counts.
* `buildKind_ok_iff`       — when a clause that has been read can be built.
* `exists_aggregation_iff` — the clauses that are accepted.
* `aggregate_exactly`      — whole requests.
-/

namespace SearchQuery

/-! ## The form of a clause -/

namespace Clause

/-- What a clause writes for an option. A sign in front of the text is a part of it. -/
def written? (name : String) : Clause → Option String
  | .leaf m (.term text _) =>
    if m.field = some ("@" ++ name) then some (signedText m.occur text) else none
  | _ => none

/-- What is written last for an option. -/
def lastWritten? (name : String) (cs : List Clause) : Option String :=
  (cs.filterMap (written? name)).getLast?

/-- A term on the field `@name`, where `name` is an option of the kind. -/
def IsOptionOf (kind : AggregationKind) (c : Clause) : Prop :=
  ∃ m text quoted name, c = .leaf m (.term text quoted) ∧ m.field = some ("@" ++ name) ∧
    name ∈ kind.options

/-- The clause asks for an aggregation of a kind over a field, which has a sign in front or not, and
with options. -/
inductive Asks : Clause → AggregationKind → String → Option Occur → List Clause → Prop where
  | term {m : Marks} {field : String} {quoted : Bool} {kind : AggregationKind}
      (hkind : m.field = some kind.name) : Asks (.leaf m (.term field quoted)) kind field m.occur []
  | group {m m' : Marks} {op : Option Connective} {parens : Bool} {before after : List Clause}
      {field : String} {quoted : Bool} {kind : AggregationKind} (hkind : m.field = some kind.name)
      (hfield : m'.field = none) (hoptions : ∀ c ∈ before ++ after, c.IsOptionOf kind) :
      Asks (.group m op parens (before ++ .leaf m' (.term field quoted) :: after)) kind field m'.occur
        (before ++ after)

end Clause

namespace Number.Decimal

/-- The mantissa with its sign. -/
def signed (d : Decimal) : Int :=
  if d.negative then -(d.mantissa : Int) else d.mantissa

end Number.Decimal

/-- The value is a number, and equal to the integer. -/
inductive Value.Equals : Value → Int → Prop where
  | int (n : Int) : Equals (.int n) n
  | decimal {d : Number.Decimal} {n : Int} (h : d.signed = n * 10 ^ d.scale) : Equals (.decimal d) n

/-- The text is read as an integer of at most 64 bits. -/
def Value.ReadsInt (text : String) (n : Int) : Prop :=
  (Value.read text).Equals n ∧ -2 ^ 63 ≤ n ∧ n < 2 ^ 63

/-- There is nothing to refuse the parts of a clause for. -/
structure Schema.Admits (schema : Schema) (kind : AggregationKind) (field : String)
    (sign : Option Occur) (options : List Clause) : Prop where
  order : sign ≠ none → kind = .terms
  minimum : kind = .terms → ∀ text ∈ Clause.lastWritten? "min" options, ∃ n, Value.ReadsInt text n
  point : kind = .geogrid → schema.fieldType field = some .geoPoint
  precision : kind = .geogrid → ∀ text ∈ Clause.lastWritten? "precision" options,
    ∃ n, Value.ReadsInt text n ∧ 1 ≤ n ∧ n ≤ 12

def Schema.Accepts (schema : Schema) (c : Clause) : Prop :=
  ∃ kind field sign options, c.Asks kind field sign options ∧ schema.Admits kind field sign options

/-- The aggregation is of the kind that the clause asks for and named after the kind and the field. Only
a grid has others under it, which are the means of the two coordinates. -/
def Clause.Gives (c : Clause) (a : Aggregation) : Prop :=
  ∃ kind field sign options, c.Asks kind field sign options ∧
    a.kind = kind ∧ a.name = kind.name ++ "_" ++ field ∧
    a.children =
      if kind = .geogrid then
        [{ name := "avg_lat", kind := .avg, source := .script ("doc['" ++ field ++ "'].lat") },
          { name := "avg_lon", kind := .avg, source := .script ("doc['" ++ field ++ "'].lon") }]
      else []

/-- The error is about the clause: it names the kind if there is no such kind, and otherwise it names
the clause. -/
inductive Clause.Blamed (c : Clause) : CompileError → Prop where
  | unsupported {name : String} (hname : c.marks.field = some name)
      (hkind : ∀ kind : AggregationKind, kind.name ≠ name) : Blamed c (.unsupportedAggregation name)
  | invalid {fault : RequestFault}
      (hkind : ∀ name, c.marks.field = some name → ∃ kind : AggregationKind, kind.name = name) :
      Blamed c (.invalidAggregation c fault)

/-! ## Integers -/

/-- A decimal is an integer when its fraction is zero. -/
theorem Number.Decimal.toInt?_eq_some_iff {d : Decimal} {n : Int} :
    d.toInt? = some n ↔ d.signed = n * 10 ^ d.scale := by
  have hpower : ((Nat.pow 10 d.scale : Nat) : Int) = 10 ^ d.scale := Int.natCast_pow 10 d.scale
  have hne : (10 : Int) ^ d.scale ≠ 0 := Int.pow_ne_zero (by decide)
  unfold toInt? signed
  split
  · rename_i hdiv
    have hwhole : (d.mantissa : Int) = (d.mantissa / Nat.pow 10 d.scale : Nat) * 10 ^ d.scale := by
      rw [← hpower, ← Int.natCast_mul, Nat.div_mul_cancel (Nat.dvd_of_mod_eq_zero hdiv)]
    rw [hwhole, Option.some.injEq]
    split
    · rw [← Int.neg_mul, Int.mul_eq_mul_right_iff hne]
    · rw [Int.mul_eq_mul_right_iff hne]
  · rename_i hdiv
    refine ⟨fun h => (nomatch h), fun h => absurd (Nat.mod_eq_zero_of_dvd ?_) hdiv⟩
    have hdvd : (10 : Int) ^ d.scale ∣ d.mantissa := by
      split at h
      · exact Int.dvd_neg.1 ⟨n, by rw [h, Int.mul_comm]⟩
      · exact ⟨n, by rw [h, Int.mul_comm]⟩
    rw [← hpower] at hdvd
    exact Int.natCast_dvd_natCast.1 hdvd

namespace Value

theorem fitsInt64_of_read {text : String} {n : Int} (h : Value.read text = .int n) :
    Number.fitsInt64 n = true :=
  (Option.filter_eq_some_iff.1 (read_eq_int_iff.1 h).2).2

theorem toInt?_read_iff {text : String} {n : Int} :
    (Value.read text).toInt? = some n ↔ ReadsInt text n := by
  rw [ReadsInt, ← Number.fitsInt64_iff]
  cases hread : Value.read text with
  | int m =>
    have hfits := fitsInt64_of_read hread
    constructor
    · intro h
      cases h
      exact ⟨.int n, hfits⟩
    · rintro ⟨h, -⟩
      cases h
      rfl
  | decimal d =>
    rw [toInt?, Option.filter_eq_some_iff, Number.Decimal.toInt?_eq_some_iff]
    constructor
    · rintro ⟨hd, hfits⟩
      exact ⟨.decimal hd, hfits⟩
    · rintro ⟨hd, hfits⟩
      cases hd with
      | decimal hd => exact ⟨hd, hfits⟩
  | null | bool b | text s =>
    constructor
    · rintro ⟨⟩
    · rintro ⟨⟨⟩, -⟩

end Value

/-! ## Options -/

theorem Clause.lastWritten?_eq_none_iff {name : String} {cs : List Clause} :
    lastWritten? name cs = none ↔ ∀ c ∈ cs, c.written? name = none := by
  rw [lastWritten?, List.getLast?_eq_none_iff, List.filterMap_eq_nil_iff]

theorem Clause.written?_eq_some_iff {c : Clause} {name value : String} :
    c.written? name = some value ↔ c.optionPart? = some (name, value) := by
  rw [optionPart?_eq_some_iff]
  constructor
  · intro h
    unfold written? at h
    split at h
    · rename_i m text quoted
      obtain ⟨hname, hvalue⟩ := Option.ite_none_right_eq_some.1 h
      exact ⟨m, text, quoted, rfl, hname, (Option.some.inj hvalue).symm⟩
    · cases h
  · rintro ⟨m, text, quoted, rfl, hname, rfl⟩
    simp [written?, hname]

namespace RequestClause

theorem lookup_eq_head? (name : String) (options : List (String × String)) :
    options.lookup name =
      (options.filterMap fun option => if option.1 = name then some option.2 else none).head? := by
  induction options with
  | nil => rfl
  | cons option options ih =>
    obtain ⟨n, value⟩ := option
    by_cases hn : n = name
    · simp [hn]
    · have hne : (name == n) = false := beq_eq_false_iff_ne.2 (Ne.symm hn)
      rw [List.lookup_cons, hne, List.filterMap_cons, if_neg hn]
      exact ih

/-- Of the options that were read, the one that was written last counts. -/
theorem option?_eq_lastWritten? {r : RequestClause} {cs : List Clause}
    (h : r.options = cs.filterMap Clause.optionPart?) (name : String) :
    r.option? name = Clause.lastWritten? name cs := by
  rw [option?, lookup_eq_head?, List.filterMap_reverse, List.head?_reverse, h, List.filterMap_filterMap,
    Clause.lastWritten?]
  congr 1
  refine List.filterMap_congr fun c _ => Option.ext fun value => ?_
  rw [Clause.written?_eq_some_iff, Option.bind_eq_some_iff]
  simp

theorem unknownOption?_eq_none_iff {r : RequestClause} :
    r.unknownOption? = none ↔ ∀ option ∈ r.options, option.1 ∈ r.kind.options := by
  simp [unknownOption?]

/-! ## Reading and building -/

theorem isOptionOf_iff {kind : AggregationKind} {c : Clause} :
    c.IsOptionOf kind ↔ ∃ option, c.optionPart? = some option ∧ option.1 ∈ kind.options := by
  constructor
  · rintro ⟨m, text, quoted, name, rfl, hname, hkind⟩
    exact ⟨(name, _), Clause.optionPart?_eq_some_iff.2 ⟨m, text, quoted, rfl, hname, rfl⟩, hkind⟩
  · rintro ⟨⟨name, value⟩, hpart, hkind⟩
    obtain ⟨m, text, quoted, rfl, hname, -⟩ := Clause.optionPart?_eq_some_iff.1 hpart
    exact ⟨m, text, quoted, name, rfl, hname, hkind⟩

/-- An option is not the field of a clause. -/
theorem fieldPart?_of_optionPart? {c : Clause} {option : String × String}
    (h : c.optionPart? = some option) : c.fieldPart? = none := by
  cases hfield : c.fieldPart? with
  | none => rfl
  | some part =>
    rw [Clause.optionPart?_of_fieldPart? hfield] at h
    cases h

theorem optionPart?_ne_none_iff {c : Clause} :
    c.optionPart? ≠ none ↔ c.IsPart ∧ c.fieldPart? = none := by
  constructor
  · intro h
    obtain ⟨option, hoption⟩ := Option.ne_none_iff_exists'.1 h
    exact ⟨.inr h, fieldPart?_of_optionPart? hoption⟩
  · rintro ⟨hpart, hnone⟩
    exact hpart.resolve_left (not_not_intro hnone)

/-- The parts of a group that has the field of a clause in it: all others are options. -/
theorem hasParts_around_iff {m : Marks} {op : Option Connective} {parens : Bool} {c : Clause}
    {before after : List Clause} {part part' : String × Option Occur}
    {options : List (String × String)} (hc : c.fieldPart? = some part) :
    (Clause.group m op parens (before ++ c :: after)).HasParts part' options ↔
      part' = part ∧ (∀ d ∈ before ++ after, d.optionPart? ≠ none) ∧
        options = (before ++ after).filterMap Clause.optionPart? := by
  have hpart : c.IsPart := .inl (by simp [hc])
  have hoptions : (before ++ c :: after).filterMap Clause.optionPart? =
      (before ++ after).filterMap Clause.optionPart? := by
    simp [Clause.optionPart?_of_fieldPart? hc]
  have hfields : (before ++ c :: after).filterMap Clause.fieldPart? =
      before.filterMap Clause.fieldPart? ++ part :: after.filterMap Clause.fieldPart? := by
    simp [hc]
  simp only [optionPart?_ne_none_iff, List.forall_mem_append, forall_and]
  constructor
  · intro h
    obtain ⟨hall, hfield, rfl⟩ := h.group_inv
    rw [List.forall_mem_append, List.forall_mem_cons] at hall
    obtain ⟨hbefore, rfl, hafter⟩ : before.filterMap Clause.fieldPart? = [] ∧ part = part' ∧
        after.filterMap Clause.fieldPart? = [] := by
      simpa [hfields, List.append_eq_singleton_iff] using hfield
    exact ⟨rfl, ⟨⟨hall.1, hall.2.2⟩, List.filterMap_eq_nil_iff.1 hbefore,
      List.filterMap_eq_nil_iff.1 hafter⟩, hoptions⟩
  · rintro ⟨rfl, ⟨⟨hbefore, hafter⟩, hnone, hnone'⟩, rfl⟩
    rw [← hoptions]
    refine .group (List.forall_mem_append.2 ⟨hbefore, List.forall_mem_cons.2 ⟨hpart, hafter⟩⟩) ?_
    rw [hfields, List.filterMap_eq_nil_iff.2 hnone, List.filterMap_eq_nil_iff.2 hnone']
    rfl

/-- The parts of a group: one of its clauses is the field, and all others are options. -/
theorem hasParts_group_iff {m : Marks} {op : Option Connective} {parens : Bool}
    {children : List Clause} {field : String} {sign : Option Occur}
    {options : List (String × String)} :
    (Clause.group m op parens children).HasParts (field, sign) options ↔
      ∃ before m' quoted after, children = before ++ .leaf m' (.term field quoted) :: after ∧
        m'.field = none ∧ m'.occur = sign ∧ (∀ c ∈ before ++ after, c.optionPart? ≠ none) ∧
        options = (before ++ after).filterMap Clause.optionPart? := by
  constructor
  · intro h
    obtain ⟨-, hfield, -⟩ := h.group_inv
    obtain ⟨before, c, after, rfl, -, hc, -⟩ := List.filterMap_eq_cons_iff.1 hfield
    obtain ⟨-, hoptions, rfl⟩ := (hasParts_around_iff hc).1 h
    obtain ⟨m', quoted, rfl, hm', hsign⟩ := Clause.fieldPart?_eq_some_iff.1 hc
    exact ⟨before, m', quoted, after, rfl, hm', hsign, hoptions, rfl⟩
  · rintro ⟨before, m', quoted, after, rfl, hm', rfl, hoptions, rfl⟩
    have hc : (Clause.leaf m' (.term field quoted)).fieldPart? = some (field, m'.occur) :=
      Clause.fieldPart?_eq_some_iff.2 ⟨m', quoted, rfl, hm', rfl⟩
    exact (hasParts_around_iff hc).2 ⟨rfl, hoptions, rfl⟩

/-- A clause that asks for something is read as that. -/
theorem read_of_asks {c : Clause} {kind : AggregationKind} {field : String} {sign : Option Occur}
    {options : List Clause} (h : c.Asks kind field sign options) :
    ∃ r, read c = .ok r ∧ r.kind = kind ∧ r.field = field ∧ r.occur = sign ∧
      r.options = options.filterMap Clause.optionPart? ∧ r.unknownOption? = none := by
  cases h with
  | @term m _ quoted _ hkind =>
    exact ⟨⟨_, kind, field, m.occur, []⟩, read_ok_iff.2 ⟨rfl, hkind, .term⟩, rfl, rfl, rfl, rfl, rfl⟩
  | @group m m' op parens before after _ quoted _ hkind hnone hoptions =>
    refine ⟨⟨_, kind, field, m'.occur, (before ++ after).filterMap Clause.optionPart?⟩,
      read_ok_iff.2 ⟨rfl, hkind, hasParts_group_iff.2
        ⟨before, m', quoted, after, rfl, hnone, rfl, fun c hc => ?_, rfl⟩⟩, rfl, rfl, rfl, rfl, ?_⟩
    · obtain ⟨option, hpart, -⟩ := isOptionOf_iff.1 (hoptions c hc)
      exact Option.ne_none_iff_exists'.2 ⟨option, hpart⟩
    · refine unknownOption?_eq_none_iff.2 fun option hmem => ?_
      obtain ⟨c, hc, hpart⟩ := List.mem_filterMap.1 hmem
      obtain ⟨option', hpart', hkind'⟩ := isOptionOf_iff.1 (hoptions c hc)
      obtain rfl := Option.some.inj (hpart.symm.trans hpart')
      exact hkind'

/-- A clause that was read with known options asks for what was read. -/
theorem asks_of_read {c : Clause} {r : RequestClause} (h : read c = .ok r)
    (hknown : r.unknownOption? = none) :
    ∃ options, c.Asks r.kind r.field r.occur options ∧
      r.options = options.filterMap Clause.optionPart? := by
  obtain ⟨clause, kind, field, sign, options⟩ := r
  obtain ⟨rfl, hkind, hparts⟩ := read_ok_iff.1 h
  rw [unknownOption?_eq_none_iff] at hknown
  dsimp only at hkind hparts hknown ⊢
  rcases clause with ⟨m, l⟩ | ⟨m, op, parens, children⟩
  · cases hparts
    exact ⟨[], .term hkind, rfl⟩
  · obtain ⟨before, m', quoted, after, rfl, hm', rfl, hoptions, rfl⟩ := hasParts_group_iff.1 hparts
    refine ⟨before ++ after, .group hkind hm' fun c hc => ?_, rfl⟩
    obtain ⟨option, hpart⟩ := Option.ne_none_iff_exists'.1 (hoptions c hc)
    exact isOptionOf_iff.2 ⟨option, hpart, hknown option (List.mem_filterMap.2 ⟨c, hc, hpart⟩)⟩

theorem minimum?_ok_iff {r : RequestClause} :
    (∃ minimum, r.minimum? = .ok minimum) ↔
      ∀ text ∈ r.option? "min", ∃ n, Value.ReadsInt text n := by
  unfold minimum?
  cases r.option? "min" with
  | none => simp
  | some text =>
    simp only [Option.mem_some_iff, forall_eq', ← Value.toInt?_read_iff]
    cases (Value.read text).toInt? <;> simp

theorem precision?_ok_iff {r : RequestClause} :
    (∃ precision, r.precision? = .ok precision) ↔
      ∀ text ∈ r.option? "precision", ∃ n, Value.ReadsInt text n ∧ 1 ≤ n ∧ n ≤ 12 := by
  unfold precision?
  cases r.option? "precision" with
  | none => simp
  | some text =>
    simp only [Option.mem_some_iff, forall_eq', ← Value.toInt?_read_iff]
    cases (Value.read text).toInt? with
    | none => simp
    | some n =>
      dsimp only
      split <;> simp_all

theorem buildKind_ok_iff {r : RequestClause} {schema : Schema} :
    (∃ a, r.buildKind schema = .ok a) ↔
      (r.kind = .terms → ∀ text ∈ r.option? "min", ∃ n, Value.ReadsInt text n) ∧
      (r.kind = .geogrid → schema.fieldType r.field = some .geoPoint) ∧
      (r.kind = .geogrid →
        ∀ text ∈ r.option? "precision", ∃ n, Value.ReadsInt text n ∧ 1 ≤ n ∧ n ≤ 12) := by
  rw [← minimum?_ok_iff, ← precision?_ok_iff]
  unfold buildKind
  cases r.kind with
  | terms =>
    simp only [terms]
    cases r.minimum? <;> simp
  | geogrid =>
    simp only [geogrid]
    split
    · rename_i hpoint
      cases r.precision? <;> simp [hpoint]
    · rename_i hpoint
      simp [hpoint]
  | _ => simp

end RequestClause

/-! ## Clauses and requests -/

open RequestClause

theorem admits_iff {schema : Schema} {r : RequestClause} {options : List Clause}
    (h : r.options = options.filterMap Clause.optionPart?) :
    schema.Admits r.kind r.field r.occur options ↔
      (r.occur ≠ none → r.kind = .terms) ∧ ∃ a, r.buildKind schema = .ok a := by
  rw [buildKind_ok_iff, option?_eq_lastWritten? h, option?_eq_lastWritten? h]
  constructor
  · rintro ⟨horder, hminimum, hpoint, hprecision⟩
    exact ⟨horder, hminimum, hpoint, hprecision⟩
  · rintro ⟨horder, hminimum, hpoint, hprecision⟩
    exact ⟨horder, hminimum, hpoint, hprecision⟩

/-- A clause is accepted when it is written in the right way and there is nothing to refuse it for. -/
theorem exists_aggregation_iff {schema : Schema} {c : Clause} :
    (∃ a, schema.aggregation c = .ok a) ↔ schema.Accepts c := by
  simp only [aggregation_ok_iff, buildChecked_ok_iff]
  constructor
  · rintro ⟨a, r, hread, hknown, horder, hbuild⟩
    obtain ⟨options, hasks, hoptions⟩ := asks_of_read hread hknown
    exact ⟨_, _, _, options, hasks, (admits_iff hoptions).2 ⟨horder, a, hbuild⟩⟩
  · rintro ⟨kind, field, sign, options, hasks, hadmits⟩
    obtain ⟨r, hread, rfl, rfl, rfl, hoptions, hknown⟩ := read_of_asks hasks
    obtain ⟨horder, a, hbuild⟩ := (admits_iff hoptions).1 hadmits
    exact ⟨a, r, hread, hknown, horder, hbuild⟩

theorem gives_of_aggregation {schema : Schema} {c : Clause} {a : Aggregation}
    (h : schema.aggregation c = .ok a) : c.Gives a := by
  obtain ⟨r, hread, hchecked⟩ := aggregation_ok_iff.1 h
  obtain ⟨hknown, -, hbuild⟩ := buildChecked_ok_iff.1 hchecked
  obtain ⟨options, hasks, -⟩ := asks_of_read hread hknown
  refine ⟨_, _, _, options, hasks, ?_⟩
  rcases buildKind_cases hbuild with ⟨hkind, -, field, os, rfl⟩ | ⟨hkind, d, -, rfl⟩ |
    ⟨hkind, os, rfl⟩
  · exact ⟨rfl, rfl, by rw [if_neg hkind]; rfl⟩
  · exact ⟨rfl, rfl, by rw [if_neg hkind]; rfl⟩
  · refine ⟨rfl, rfl, ?_⟩
    rw [if_pos hkind]
    simp only [mean, Source.docText, String.append_assoc]
    rfl

theorem blamed_of_read {c : Clause} {e : CompileError} (h : RequestClause.read c = .error e) :
    c.Blamed e := by
  unfold RequestClause.read at h
  cases hmark : c.marks.field with
  | none =>
    rw [hmark] at h
    cases h
    exact .invalid fun name hname => by rw [hmark] at hname; cases hname
  | some name =>
    rw [hmark] at h
    dsimp only at h
    cases hkind : AggregationKind.ofName? name with
    | none =>
      rw [hkind] at h
      cases h
      refine .unsupported hmark fun kind hname => ?_
      rw [AggregationKind.ofName?_eq_some_iff.2 hname.symm] at hkind
      cases hkind
    | some kind =>
      have hsupported : ∀ name, c.marks.field = some name →
          ∃ kind : AggregationKind, kind.name = name := by
        intro name' hname'
        obtain rfl := Option.some.inj (hmark.symm.trans hname')
        exact ⟨kind, (AggregationKind.ofName?_eq_some_iff.1 hkind).symm⟩
      rw [hkind] at h
      dsimp only at h
      split at h
      · cases h
      · split at h
        · cases h
          exact .invalid hsupported
        · cases h
      · cases h
        exact .invalid hsupported

theorem blamed_of_aggregation {schema : Schema} {c : Clause} {e : CompileError}
    (h : schema.aggregation c = .error e) : c.Blamed e := by
  unfold Schema.aggregation at h
  cases hread : RequestClause.read c with
  | error e' =>
    rw [hread] at h
    cases h
    exact blamed_of_read hread
  | ok r =>
    obtain ⟨rfl, hkind, -⟩ := read_ok_iff.1 hread
    rw [hread] at h
    dsimp only at h
    rw [build] at h
    cases hbuild : r.buildChecked schema with
    | ok a =>
      rw [hbuild] at h
      cases h
    | error fault =>
      rw [hbuild] at h
      cases h
      refine .invalid fun name hname => ⟨r.kind, ?_⟩
      exact Option.some.inj (hkind.symm.trans hname)

theorem aggregate_result (config : Config) (root : Group) :
    (config.aggregate root).result = config.schema.aggregations root := by
  unfold Config.aggregate
  cases config.schema.aggregations root <;> rfl

/-- A request is accepted when no connective joins its clauses and each of them is accepted. Then there
is one aggregation for each clause, in the same order. Otherwise the error is about the whole request,
if its clauses are joined, or it is what the first clause that is not accepted would give alone. -/
theorem aggregate_exactly (config : Config) (root : Group) :
    ((∃ as, (config.aggregate root).result = .ok as) ↔
      root.op = none ∧ ∀ c ∈ root.children, config.schema.Accepts c) ∧
    (∀ as, (config.aggregate root).result = .ok as →
      List.Forall₂ Clause.Gives root.children as) ∧
    ∀ e, (config.aggregate root).result = .error e →
      (root.op ≠ none ∧ e = .invalidAggregation root.toClause .booleanOperator) ∨
      (root.op = none ∧ ∃ before c after, root.children = before ++ c :: after ∧
        (∀ b ∈ before, config.schema.Accepts b) ∧ ¬ config.schema.Accepts c ∧ c.Blamed e ∧
        (config.aggregate { root with children := [c] }).result = .error e) := by
  simp only [aggregate_result]
  refine ⟨?_, fun as has => ?_, fun e he => ?_⟩
  · simp only [← exists_aggregation_iff]
    constructor
    · rintro ⟨as, has⟩
      obtain ⟨hop, hmap⟩ := aggregations_ok_iff.1 has
      exact ⟨hop, fun c hc => exists_of_mapM_ok hmap hc⟩
    · rintro ⟨hop, hall⟩
      cases hmap : root.children.mapM config.schema.aggregation with
      | ok as => exact ⟨as, aggregations_ok_iff.2 ⟨hop, hmap⟩⟩
      | error e =>
        obtain ⟨before, c, after, hsplit, -, hc⟩ := first_of_mapM_error hmap
        obtain ⟨a, ha⟩ := hall c (by rw [hsplit]; simp)
        rw [ha] at hc
        cases hc
  · exact (forall₂_of_mapM_ok (aggregations_ok_iff.1 has).2).imp fun c a => gives_of_aggregation
  · unfold Schema.aggregations at he
    cases hop : root.op with
    | some op =>
      rw [hop] at he
      cases he
      exact .inl ⟨by simp, rfl⟩
    | none =>
      rw [hop] at he
      obtain ⟨before, c, after, hsplit, hbefore, hc⟩ := first_of_mapM_error he
      refine .inr ⟨rfl, before, c, after, hsplit, fun b hb => exists_aggregation_iff.1 (hbefore b hb),
        fun haccepts => ?_, blamed_of_aggregation hc, ?_⟩
      · obtain ⟨a, ha⟩ := exists_aggregation_iff.2 haccepts
        rw [ha] at hc
        cases hc
      · simp only [Schema.aggregations, List.mapM_cons, hc]
        rfl

/-- The last of the least counts is an integer, though it has a sign and is written as a decimal, and
so the clause is accepted. A precision may have a sign, but not be negative. The kind that is not known
comes before a grid over a field without points. -/
theorem aggregate_exactly_median :
    let config : Config :=
      { schema := { fieldType := fun f => if f = "place" then some .geoPoint else none } }
    let listed : Clause := .group { field := some "terms" } none true
      [.leaf { field := some "@min" } (.term "few" false),
        .leaf { occur := some .prohibited } (.term "status" false),
        .leaf { field := some "@min", occur := some .prohibited } (.term "2.0" false)]
    let grid (field : String) (sign : Occur) : Clause := .group { field := some "geogrid" } none true
      [.leaf {} (.term field false),
        .leaf { field := some "@precision", occur := some sign } (.term "3" false)]
    let median : Clause := .leaf { field := some "median" } (.term "price" false)
    config.schema.Accepts listed ∧ config.schema.Accepts (grid "place" .required) ∧
      ¬ config.schema.Accepts (grid "place" .prohibited) ∧ ¬ config.schema.Accepts median ∧
      ¬ config.schema.Accepts (grid "price" .required) ∧
      (config.aggregate { children := [listed, median, grid "price" .required] }).result =
        .error (.unsupportedAggregation "median") := by
  intro config listed grid median
  have haccepted :=
    (aggregate_exactly config { children := [listed, grid "place" .required] }).1.1 ⟨_, rfl⟩
  have hrefused : ∀ {c : Clause} {e : CompileError},
      (config.aggregate { children := [c] }).result = .error e → ¬ config.schema.Accepts c := by
    intro c e he hc
    obtain ⟨as, has⟩ := (aggregate_exactly config { children := [c] }).1.2 ⟨rfl, by simpa using hc⟩
    rw [he] at has
    cases has
  exact ⟨haccepted.2 listed (by simp), haccepted.2 (grid "place" .required) (by simp), hrefused rfl,
    hrefused rfl, hrefused rfl, rfl⟩

end SearchQuery
