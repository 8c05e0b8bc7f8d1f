import SearchQuery.Proofs.RequestForm

/-!
# SearchQuery.Proofs.TermsOrder

The sign in front of the field of a `terms` clause.

It asks for an order by the field that is listed, and for nothing else: the clause is accepted with it
or without it, and lists the same. The options of the aggregation are a table in the order of their
names. The sign adds an order and the field it goes by to it, and the key to leave out if the clause
says nothing about such keys.

* `Options.Sorted`       — such a table, kept by every option that is set.
* `Options.insert_perm`  — an option that was not there is added to the others.
* `orderOptions_perm`    — what an order adds.
* `TermsClause`          — a clause by the sign in front of its field.
* `read_signed`          — the sign is read as the order, and makes no other difference.
* `aggregate_signed`     — the aggregation with the sign, by the one without.
-/

namespace SearchQuery

/-! ## Tables of options -/

namespace Options

def names (o : Options) : List String :=
  o.entries.map Prod.fst

/-- The names are in order, and no name comes twice. -/
def Sorted (o : Options) : Prop :=
  o.entries.Pairwise fun x y => x.1 < y.1

theorem get?_eq_none_iff {o : Options} {name : String} : o.get? name = none ↔ name ∉ o.names := by
  rw [get?, List.lookup_eq_none_iff]
  constructor
  · intro h hmem
    obtain ⟨entry, hentry, hname⟩ := List.mem_map.1 hmem
    exact bne_iff_ne.1 (h entry hentry) hname.symm
  · intro h entry hentry
    exact bne_iff_ne.2 fun hname => h (hname ▸ List.mem_map_of_mem hentry)

theorem mem_names_insertEntry {name n : String} {value : Value} {entries : List (String × Value)} :
    n ∈ (insertEntry name value entries).map Prod.fst ↔ n = name ∨ n ∈ entries.map Prod.fst := by
  induction entries with
  | nil => simp [insertEntry]
  | cons entry rest ih =>
    obtain ⟨m, v⟩ := entry
    rw [insertEntry]
    split
    · simp
    · split
      · rename_i heq
        simp [heq]
      · rw [List.map_cons, List.mem_cons, ih, List.map_cons, List.mem_cons, or_left_comm]

theorem mem_names_insert {o : Options} {name n : String} {value : Value} :
    n ∈ (o.insert name value).names ↔ n = name ∨ n ∈ o.names :=
  mem_names_insertEntry

theorem sorted_insertEntry (name : String) (value : Value) {entries : List (String × Value)}
    (h : entries.Pairwise fun x y => x.1 < y.1) :
    (insertEntry name value entries).Pairwise fun x y => x.1 < y.1 := by
  induction entries with
  | nil => exact List.pairwise_singleton _ _
  | cons entry rest ih =>
    obtain ⟨m, v⟩ := entry
    obtain ⟨hfirst, hrest⟩ := List.pairwise_cons.1 h
    rw [insertEntry]
    split
    · rename_i hlt
      refine List.pairwise_cons.2 ⟨fun x hx => ?_, h⟩
      rcases List.mem_cons.1 hx with rfl | hx
      · exact hlt
      · exact String.lt_trans hlt (hfirst x hx)
    · rename_i hle
      split
      · rename_i heq
        exact List.pairwise_cons.2 ⟨fun x hx => heq ▸ hfirst x hx, hrest⟩
      · rename_i hne
        have hlt : m < name := by
          by_contra hnot
          exact hne (String.le_antisymm (String.not_lt.1 hnot) (String.not_lt.1 hle))
        refine List.pairwise_cons.2 ⟨fun x hx => ?_, ih hrest⟩
        rcases mem_names_insertEntry.1 (List.mem_map_of_mem hx) with hname | hmem
        · exact hname ▸ hlt
        · obtain ⟨y, hy, hname⟩ := List.mem_map.1 hmem
          exact hname ▸ hfirst y hy

theorem Sorted.insert {o : Options} (h : o.Sorted) (name : String) (value : Value) :
    (o.insert name value).Sorted :=
  sorted_insertEntry name value h

theorem Sorted.insertText {o : Options} (h : o.Sorted) (name : String) (text : Option String) :
    (o.insertText name text).Sorted := by
  cases text with
  | none => exact h
  | some s => exact h.insert name (.text s)

theorem mem_names_insertText {o : Options} {name n : String} {text : Option String} :
    n ∈ (o.insertText name text).names ↔ (n = name ∧ text ≠ none) ∨ n ∈ o.names := by
  cases text with
  | none => simp [insertText]
  | some s => simp [insertText, mem_names_insert]

theorem insertEntry_perm {name : String} {value : Value} {entries : List (String × Value)}
    (h : name ∉ entries.map Prod.fst) :
    (insertEntry name value entries).Perm ((name, value) :: entries) := by
  induction entries with
  | nil => exact .rfl
  | cons entry rest ih =>
    obtain ⟨m, v⟩ := entry
    rw [List.map_cons, List.mem_cons, not_or] at h
    rw [insertEntry]
    split
    · exact .rfl
    · rw [if_neg h.1]
      exact ((ih h.2).cons (m, v)).trans (.swap _ _ _)

/-- A new option is added to those that were there. -/
theorem insert_perm {o : Options} {name : String} (h : name ∉ o.names) (value : Value) :
    (o.insert name value).entries.Perm (o.entries ++ [(name, value)]) :=
  (insertEntry_perm h).trans (List.perm_append_singleton _ _).symm

end Options

namespace RequestClause

/-! ## Options of a list -/

/-- The options of a list without an order. -/
def listOptions (r : RequestClause) (minimum : Option Int) : Options :=
  let texts := ["include", "exclude", "missing"].foldl
    (fun (o : Options) name => o.insertText name (r.option? name)) {}
  match minimum with
  | none => texts
  | some n => texts.insert "min_doc_count" (.int n)

theorem terms_ok_iff {r : RequestClause} {schema : Schema} {a : Aggregation} :
    r.terms schema = .ok a ↔ ∃ minimum, r.minimum? = .ok minimum ∧
      a = r.onField (schema.wholeField r.field)
        (orderOptions (r.listOptions minimum) (schema.wholeField r.field) r.occur) := by
  unfold terms
  cases r.minimum? with
  | error fault => simp
  | ok minimum =>
    simp only [Except.ok.injEq, exists_eq_left']
    exact eq_comm

theorem sorted_listOptions (r : RequestClause) (minimum : Option Int) :
    (r.listOptions minimum).Sorted := by
  have hempty : ({} : Options).Sorted := List.Pairwise.nil
  have htexts := ((hempty.insertText "include" (r.option? "include")).insertText "exclude"
    (r.option? "exclude")).insertText "missing" (r.option? "missing")
  cases minimum with
  | none => exact htexts
  | some n => exact htexts.insert "min_doc_count" (.int n)

theorem mem_names_listOptions {r : RequestClause} {minimum : Option Int} {name : String} :
    name ∈ (r.listOptions minimum).names ↔
      (name ∈ ["include", "exclude", "missing"] ∧ r.option? name ≠ none) ∨
        (name = "min_doc_count" ∧ minimum ≠ none) := by
  have hempty : name ∉ ({} : Options).names := List.not_mem_nil
  cases minimum with
  | none =>
    simp only [listOptions, List.foldl_cons, List.foldl_nil, Options.mem_names_insertText, hempty]
    grind
  | some n =>
    simp only [listOptions, List.foldl_cons, List.foldl_nil, Options.mem_names_insert,
      Options.mem_names_insertText, hempty]
    grind

/-! ## The order -/

/-- The way in which a sign orders. -/
def direction : Occur → String
  | .prohibited => "desc"
  | .required => "asc"

/-- What an order adds to the options of a list. -/
def orderEntries (sign : Occur) (exact : String) (excludes : Bool) : List (String × Value) :=
  ("order", .text (direction sign)) :: ("order_by", .text exact) ::
    if excludes then [] else [("exclude", .text "1")]

theorem orderOptions_some (o : Options) (exact : String) (sign : Occur) :
    orderOptions o exact (some sign) =
      let ordered := (o.insert "order" (.text (direction sign))).insert "order_by" (.text exact)
      if (o.get? "exclude").isSome then ordered else ordered.insert "exclude" (.text "1") := by
  cases hexclude : o.get? "exclude" <;> cases sign <;> simp [orderOptions, direction, hexclude]

theorem sorted_orderOptions {o : Options} (h : o.Sorted) (exact : String) (sign : Option Occur) :
    (orderOptions o exact sign).Sorted := by
  cases sign with
  | none => exact h
  | some sign =>
    have hordered := (h.insert "order" (.text (direction sign))).insert "order_by" (.text exact)
    rw [orderOptions_some]
    dsimp only
    split
    · exact hordered
    · exact hordered.insert "exclude" (.text "1")

theorem orderOptions_perm {o : Options} (horder : "order" ∉ o.names) (hby : "order_by" ∉ o.names)
    (exact : String) (sign : Occur) :
    (orderOptions o exact (some sign)).entries.Perm
      (o.entries ++ orderEntries sign exact (o.get? "exclude").isSome) := by
  have hby' : "order_by" ∉ (o.insert "order" (.text (direction sign))).names := by
    simp [Options.mem_names_insert, hby]
  have hordered := (Options.insert_perm hby' (.text exact)).trans
    ((Options.insert_perm horder (.text (direction sign))).append_right _)
  rw [orderOptions_some, orderEntries]
  cases hexclude : o.get? "exclude" with
  | some value => simpa using hordered
  | none =>
    have hnew : "exclude" ∉ ((o.insert "order" (.text (direction sign))).insert "order_by"
        (.text exact)).names := by
      simp [Options.mem_names_insert, Options.get?_eq_none_iff.1 hexclude]
    have hexcluding := (Options.insert_perm hnew (.text "1")).trans (hordered.append_right _)
    simpa using hexcluding

end RequestClause

/-! ## Clauses -/

/-- A clause that lists the terms of a field, for each sign that its field may have in front, with the
options that stand in its parentheses. -/
inductive TermsClause (field : String) : List Clause → (Option Occur → Clause) → Prop where
  | term {negated quoted : Bool} : TermsClause field [] fun sign =>
      .leaf { field := some "terms", negated, occur := sign } (.term field quoted)
  | group {m : Marks} {op : Option Connective} {parens negated quoted : Bool}
      {before after : List Clause} (hkind : m.field = some "terms") :
      TermsClause field (before ++ after) fun sign =>
        .group m op parens (before ++ .leaf { negated, occur := sign } (.term field quoted) :: after)

/-- An aggregation is another one with an order by a field, and with a key left out if the other does not
say which are. -/
structure OrderedBy (exact : String) (sign : Occur) (excludes : Bool)
    (ordered plain : Aggregation) : Prop where
  name : ordered.name = plain.name
  kind : ordered.kind = plain.kind
  source : ordered.source = plain.source
  children : ordered.children = plain.children
  options : ordered.options.entries.Perm
    (plain.options.entries ++ RequestClause.orderEntries sign exact excludes)
  sorted : ordered.options.Sorted ∧ plain.options.Sorted

variable {field : String} {options : List Clause} {clause : Option Occur → Clause}

/-- The sign is read as the order, and the rest of the clause is read as it is without. -/
theorem read_signed (h : TermsClause field options clause) {sign : Option Occur} {r : RequestClause}
    (hr : RequestClause.read (clause sign) = .ok r) :
    r.kind = .terms ∧ r.field = field ∧ r.options = options.filterMap Clause.optionPart? ∧
      ∀ sign', RequestClause.read (clause sign') =
        .ok { r with clause := clause sign', occur := sign' } := by
  obtain ⟨_, kind, _, _, _⟩ := r
  obtain ⟨hclause, hkind, hparts⟩ := RequestClause.read_ok_iff.1 hr
  dsimp only at hclause hkind hparts
  cases h with
  | term =>
    obtain rfl : kind = .terms := AggregationKind.name_injective (Option.some.inj hkind).symm
    cases hparts
    exact ⟨rfl, rfl, rfl, fun sign' => RequestClause.read_ok_iff.2 ⟨rfl, rfl, .term⟩⟩
  | @group m op parens negated quoted before after hm =>
    obtain rfl : kind = .terms :=
      AggregationKind.name_injective (Option.some.inj (hm.symm.trans hkind)).symm
    obtain ⟨hpart, hoptions, rfl⟩ := (RequestClause.hasParts_around_iff rfl).1 hparts
    cases hpart
    exact ⟨rfl, rfl, rfl, fun sign' => RequestClause.read_ok_iff.2
      ⟨rfl, hm, (RequestClause.hasParts_around_iff rfl).2 ⟨rfl, hoptions, rfl⟩⟩⟩

/-- One list of options is made for all signs. -/
theorem aggregation_signed (h : TermsClause field options clause) {schema : Schema}
    {sign : Option Occur} {a : Aggregation} (ha : schema.aggregation (clause sign) = .ok a) :
    ∃ (r : RequestClause) (minimum : Option Int), r.options = options.filterMap Clause.optionPart? ∧
      ∀ sign', schema.aggregation (clause sign') = .ok (r.onField (schema.wholeField field)
        (RequestClause.orderOptions (r.listOptions minimum) (schema.wholeField field) sign')) := by
  obtain ⟨⟨c, kind, f, occur, parts⟩, hread, hchecked⟩ := aggregation_ok_iff.1 ha
  obtain ⟨hkind, hfield, hoptions, hread'⟩ := read_signed h hread
  obtain ⟨hknown, -, hbuild⟩ := RequestClause.buildChecked_ok_iff.1 hchecked
  dsimp only at hkind hfield hoptions hread'
  subst hkind hfield
  obtain ⟨minimum, hminimum, -⟩ := RequestClause.terms_ok_iff.1 hbuild
  refine ⟨⟨c, .terms, f, occur, parts⟩, minimum, hoptions, fun sign' => ?_⟩
  refine aggregation_ok_iff.2 ⟨_, hread' sign', ?_⟩
  exact RequestClause.buildChecked_ok_iff.2 ⟨hknown, fun _ => rfl,
    RequestClause.terms_ok_iff.2 ⟨minimum, hminimum, rfl⟩⟩

theorem aggregate_single {config : Config} {c : Clause} {as : List Aggregation} :
    (config.aggregate { children := [c] }).result = .ok as ↔
      ∃ a, config.schema.aggregation c = .ok a ∧ as = [a] := by
  have hnil : ∀ zs : List Aggregation,
      ([] : List Clause).mapM config.schema.aggregation = .ok zs ↔ zs = [] :=
    fun zs => ⟨fun h => (Except.ok.inj h).symm, fun h => h ▸ rfl⟩
  simp only [aggregate_result, aggregations_ok_iff, mapM_cons_ok_iff, hnil, true_and]
  constructor
  · rintro ⟨a, _, ha, rfl, rfl⟩
    exact ⟨a, ha, rfl⟩
  · rintro ⟨a, ha, rfl⟩
    exact ⟨a, [], ha, rfl, rfl⟩

theorem isSome_lastWritten? (name : String) (cs : List Clause) :
    (Clause.lastWritten? name cs).isSome = cs.any fun c => (c.written? name).isSome := by
  rw [Bool.eq_iff_iff, Option.isSome_iff_ne_none, ne_eq, Clause.lastWritten?_eq_none_iff]
  simp [Option.isSome_iff_ne_none]

/-- The order of a list. -/
theorem orderedBy_orderOptions {r : RequestClause} (exact : String) (sign : Occur)
    (minimum : Option Int) (hoptions : r.options = options.filterMap Clause.optionPart?) :
    OrderedBy exact sign (options.any fun c => (c.written? "exclude").isSome)
      (r.onField exact (RequestClause.orderOptions (r.listOptions minimum) exact (some sign)))
      (r.onField exact (r.listOptions minimum)) := by
  have hsorted := r.sorted_listOptions minimum
  refine ⟨rfl, rfl, rfl, rfl, ?_, RequestClause.sorted_orderOptions hsorted exact _, hsorted⟩
  have hexclude : ((r.listOptions minimum).get? "exclude").isSome =
      options.any fun c => (c.written? "exclude").isSome := by
    rw [← isSome_lastWritten?, ← RequestClause.option?_eq_lastWritten? hoptions, Bool.eq_iff_iff,
      Option.isSome_iff_ne_none, Option.isSome_iff_ne_none, ne_eq, Options.get?_eq_none_iff, not_not,
      RequestClause.mem_names_listOptions]
    simp
  rw [← hexclude]
  refine RequestClause.orderOptions_perm ?_ ?_ exact sign <;>
    simp [RequestClause.mem_names_listOptions]

/-- A `terms` clause with a sign in front of its field. -/
theorem aggregate_signed (config : Config) (h : TermsClause field options clause) (sign : Occur) :
    let result (sign : Option Occur) := (config.aggregate { children := [clause sign] }).result
    ((∃ as, result (some sign) = .ok as) ↔ ∃ as, result none = .ok as) ∧
      ∀ as as', result (some sign) = .ok as → result none = .ok as' →
        ∃ ordered plain exact, as = [ordered] ∧ as' = [plain] ∧ plain.source = .field exact ∧
          exact = (if config.schema.isAnalyzed field then (config.schema.exactField field).getD field
            else field) ∧
          OrderedBy exact sign (options.any fun c => (c.written? "exclude").isSome) ordered plain := by
  intro result
  have haccepted : ∀ {s : Option Occur} (s' : Option Occur),
      (∃ as, result s = .ok as) → ∃ as, result s' = .ok as := by
    rintro s s' ⟨as, has⟩
    obtain ⟨a, ha, rfl⟩ := aggregate_single.1 has
    obtain ⟨r, minimum, -, hall⟩ := aggregation_signed h ha
    exact ⟨_, aggregate_single.2 ⟨_, hall s', rfl⟩⟩
  refine ⟨⟨haccepted none, haccepted (some sign)⟩, fun as as' has has' => ?_⟩
  obtain ⟨ordered, hordered, rfl⟩ := aggregate_single.1 has
  obtain ⟨plain, hplain, rfl⟩ := aggregate_single.1 has'
  obtain ⟨r, minimum, hoptions, hall⟩ := aggregation_signed h hordered
  obtain rfl := Except.ok.inj (hordered.symm.trans (hall (some sign)))
  obtain rfl := Except.ok.inj (hplain.symm.trans (hall none))
  exact ⟨_, _, config.schema.wholeField field, rfl, rfl, rfl, rfl,
    orderedBy_orderOptions _ sign minimum hoptions⟩

/-- The values of `title` are split into words, so the list and its order go by another field. Of the
options in front of and behind the field none says which keys to leave out. -/
theorem aggregate_signed_title :
    let config : Config :=
      { schema := { isAnalyzed := (· == "title"), exactField := fun f => some (f ++ ".raw") } }
    let parts (sign : Option Occur) : List Clause :=
      [.leaf { field := some "@min" } (.term "2" false), .leaf { occur := sign } (.term "title" false),
        .leaf { field := some "@missing" } (.term "none" false)]
    let request (sign : Option Occur) : Group :=
      { children := [.group { field := some "terms" } none true (parts sign)] }
    let listed (options : List (String × Value)) : Aggregation :=
      { name := "terms_title", kind := .terms, source := .field "title.raw", options := ⟨options⟩ }
    let plain := listed [("min_doc_count", .int 2), ("missing", .text "none")]
    let ordered := listed [("exclude", .text "1"), ("min_doc_count", .int 2), ("missing", .text "none"),
      ("order", .text "desc"), ("order_by", .text "title.raw")]
    (config.aggregate (request none)).result = .ok [plain] ∧
      (config.aggregate (request (some .prohibited))).result = .ok [ordered] ∧
      OrderedBy "title.raw" .prohibited false ordered plain := by
  intro config parts request listed plain ordered
  have hclause : TermsClause "title"
      ([.leaf { field := some "@min" } (.term "2" false)] ++
        [.leaf { field := some "@missing" } (.term "none" false)])
      (fun sign => .group { field := some "terms" } none true (parts sign)) :=
    .group rfl
  have hplain : (config.aggregate (request none)).result = .ok [plain] := rfl
  have hordered : (config.aggregate (request (some .prohibited))).result = .ok [ordered] := rfl
  obtain ⟨a, a', exact, ha, ha', -, hexact, h⟩ :=
    (aggregate_signed config hclause .prohibited).2 _ _ hordered hplain
  cases ha
  cases ha'
  cases hexact
  exact ⟨hplain, hordered, h⟩

end SearchQuery
