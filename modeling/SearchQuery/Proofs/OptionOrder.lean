import Mathlib.Logic.Relation
import SearchQuery.Proofs.RequestForm

/-!
# SearchQuery.Proofs.OptionOrder

What stands in the parentheses of a clause may be written in any order.

Of several options of one name the last counts, so the order of these is all that matters. The field
may stand anywhere between the options, options of different names change places, and an option that
is written once more further on can be left out.

* `Clause.Rearranges`     — one such change.
* `Clause.SameParts`      — what it keeps.
* `buildKind_congr`       — a clause is built from the options that count.
* `aggregate_rearranged`  — a request with one clause written in another way.
-/

namespace SearchQuery

namespace Clause

/-- Another way to write what stands in the parentheses of a clause. -/
inductive Rearranges : List Clause → List Clause → Prop where
  /-- The order changes, but not that of what is written for one option. -/
  | permute {cs cs' : List Clause} (hperm : cs.Perm cs')
      (horder : ∀ name, cs.filterMap (written? name) = cs'.filterMap (written? name)) :
      Rearranges cs cs'
  /-- An option is left out that is written again later. -/
  | discard {before after : List Clause} {c d : Clause} {name : String}
      (hc : c.written? name ≠ none) (hd : d ∈ after) (hagain : d.written? name ≠ none) :
      Rearranges (before ++ c :: after) (before ++ after)

/-- The same parts in the end: the same fields, and for each option the same text counts. -/
structure SameParts (cs cs' : List Clause) : Prop where
  parts : (∀ c ∈ cs, c.IsPart) ↔ ∀ c ∈ cs', c.IsPart
  fields : (cs.filterMap fieldPart?).Perm (cs'.filterMap fieldPart?)
  last : ∀ name, lastWritten? name cs = lastWritten? name cs'

theorem SameParts.symm {cs cs' : List Clause} (h : SameParts cs cs') : SameParts cs' cs :=
  ⟨h.parts.symm, h.fields.symm, fun name => (h.last name).symm⟩

theorem SameParts.trans {cs cs' cs'' : List Clause} (h : SameParts cs cs')
    (h' : SameParts cs' cs'') : SameParts cs cs'' :=
  ⟨h.parts.trans h'.parts, h.fields.trans h'.fields, fun name => (h.last name).trans (h'.last name)⟩

theorem lastWritten?_ne_none_iff {cs : List Clause} {name : String} :
    lastWritten? name cs ≠ none ↔ ∃ value, (name, value) ∈ cs.filterMap optionPart? := by
  rw [ne_eq, lastWritten?_eq_none_iff]
  constructor
  · intro h
    obtain ⟨c, hc, hwritten⟩ : ∃ c ∈ cs, c.written? name ≠ none := by
      simpa using h
    obtain ⟨value, hvalue⟩ := Option.ne_none_iff_exists'.1 hwritten
    exact ⟨value, List.mem_filterMap.2 ⟨c, hc, written?_eq_some_iff.1 hvalue⟩⟩
  · rintro ⟨value, hmem⟩ hnone
    obtain ⟨c, hc, hoption⟩ := List.mem_filterMap.1 hmem
    exact Option.some_ne_none value ((written?_eq_some_iff.2 hoption).symm.trans (hnone c hc))

theorem lastWritten?_discard {before after : List Clause} {c d : Clause} {name : String}
    (hc : c.written? name ≠ none) (hd : d ∈ after) (hagain : d.written? name ≠ none)
    (name' : String) :
    lastWritten? name' (before ++ c :: after) = lastWritten? name' (before ++ after) := by
  obtain ⟨value, hvalue⟩ := Option.ne_none_iff_exists'.1 hc
  rw [lastWritten?, lastWritten?, List.filterMap_append, List.filterMap_append, List.filterMap_cons]
  by_cases hname : name' = name
  · subst hname
    -- what is written last comes after the option that is left out
    obtain ⟨value', hvalue'⟩ := Option.ne_none_iff_exists'.1 hagain
    have hmem : value' ∈ after.filterMap (written? name') := List.mem_filterMap.2 ⟨d, hd, hvalue'⟩
    obtain ⟨last, hlast⟩ := Option.ne_none_iff_exists'.1
      (mt List.getLast?_eq_none_iff.1 (List.ne_nil_of_mem hmem))
    simp only [hvalue, List.getLast?_append, List.getLast?_cons, hlast, Option.getD_some,
      Option.some_or]
  · have hother : c.written? name' = none := by
      rw [Option.eq_none_iff_forall_ne_some]
      intro value' hvalue'
      have hsame := (written?_eq_some_iff.1 hvalue').symm.trans (written?_eq_some_iff.1 hvalue)
      exact hname (Prod.mk.inj (Option.some.inj hsame)).1
    rw [hother]

/-- One change keeps the parts. -/
theorem Rearranges.sameParts {cs cs' : List Clause} (h : Rearranges cs cs') : SameParts cs cs' := by
  cases h with
  | permute hperm horder =>
    refine ⟨⟨fun hall c hc => hall c (hperm.mem_iff.2 hc), fun hall c hc => hall c (hperm.mem_iff.1 hc)⟩,
      hperm.filterMap _, fun name => ?_⟩
    rw [lastWritten?, lastWritten?, horder name]
  | @discard before after c d name hc hd hagain =>
    obtain ⟨value, hvalue⟩ := Option.ne_none_iff_exists'.1 hc
    have hoption := written?_eq_some_iff.1 hvalue
    refine ⟨?_, ?_, lastWritten?_discard hc hd hagain⟩
    · have hpart : c.IsPart := .inr (by simp [hoption])
      simp only [List.forall_mem_append, List.forall_mem_cons, hpart, true_and]
    · simp [RequestClause.fieldPart?_of_optionPart? hoption]

/-- So do all changes one after the other, and changes that are taken back. -/
theorem sameParts_of_rearranged {cs cs' : List Clause} (h : Relation.EqvGen Rearranges cs cs') :
    SameParts cs cs' := by
  induction h with
  | rel cs cs' h => exact h.sameParts
  | refl cs => exact ⟨.rfl, .rfl, fun _ => rfl⟩
  | symm cs cs' _ ih => exact ih.symm
  | trans cs cs' cs'' _ _ ih ih' => exact ih.trans ih'

end Clause

namespace RequestClause

/-- The options of a clause play a part only through the one of each name that counts. -/
theorem buildKind_congr {r r' : RequestClause} (hkind : r.kind = r'.kind)
    (hfield : r.field = r'.field) (hoccur : r.occur = r'.occur)
    (hoptions : ∀ name, r.option? name = r'.option? name) (schema : Schema) :
    r.buildKind schema = r'.buildKind schema := by
  have hname : r.name = r'.name := by rw [name, name, hkind, hfield]
  have honField : ∀ field options, r.onField field options = r'.onField field options := by
    intro field options
    rw [onField, onField, hname, hkind]
  simp only [buildKind, metric, percentiles, date, terms, minimum?, geogrid, precision?, hkind, hfield,
    hoccur, hname, hoptions, honField]

end RequestClause

section Clauses

variable {schema : Schema} {m : Marks} {op : Option Connective} {parens : Bool}
  {children children' : List Clause}

theorem aggregation_of_sameParts {a : Aggregation} (h : Clause.SameParts children children')
    (ha : schema.aggregation (.group m op parens children) = .ok a) :
    schema.aggregation (.group m op parens children') = .ok a := by
  obtain ⟨r, hread, hchecked⟩ := aggregation_ok_iff.1 ha
  obtain ⟨hclause, hkind, hparts⟩ := RequestClause.read_ok_iff.1 hread
  obtain ⟨hknown, horder, hbuild⟩ := RequestClause.buildChecked_ok_iff.1 hchecked
  obtain ⟨hall, hfield, hoptions⟩ := hparts.group_inv
  have hfield' : children'.filterMap Clause.fieldPart? = [(r.field, r.occur)] :=
    List.perm_singleton.1 (hfield ▸ h.fields.symm)
  let r' : RequestClause :=
    ⟨.group m op parens children', r.kind, r.field, r.occur, children'.filterMap Clause.optionPart?⟩
  have hread' : RequestClause.read (.group m op parens children') = .ok r' :=
    RequestClause.read_ok_iff.2 ⟨rfl, hkind, .group (h.parts.1 hall) hfield'⟩
  refine aggregation_ok_iff.2 ⟨r', hread', RequestClause.buildChecked_ok_iff.2 ⟨?_, horder, ?_⟩⟩
  · rw [RequestClause.unknownOption?_eq_none_iff, hoptions] at hknown
    refine RequestClause.unknownOption?_eq_none_iff.2 ?_
    rintro ⟨name, value⟩ hmem
    have hlast : Clause.lastWritten? name children ≠ none := by
      rw [h.last name]
      exact Clause.lastWritten?_ne_none_iff.2 ⟨value, hmem⟩
    obtain ⟨value', hmem'⟩ := Clause.lastWritten?_ne_none_iff.1 hlast
    exact hknown (name, value') hmem'
  · have hsame : ∀ name, r'.option? name = r.option? name := by
      intro name
      rw [RequestClause.option?_eq_lastWritten? hoptions, h.last name]
      exact RequestClause.option?_eq_lastWritten? rfl name
    have hkinds : r'.buildKind schema = r.buildKind schema :=
      RequestClause.buildKind_congr (show r'.kind = r.kind from rfl) rfl rfl hsame schema
    exact hkinds.trans hbuild

/-- A clause of a request may be written in another way, and the whole request then gives the same. -/
theorem aggregate_rearranged (config : Config) (root : Group) {before after : List Clause}
    (hroot : root.children = before ++ .group m op parens children :: after)
    (h : Relation.EqvGen Clause.Rearranges children children') (as : List Aggregation) :
    (config.aggregate { root with
        children := before ++ .group m op parens children' :: after }).result = .ok as ↔
      (config.aggregate root).result = .ok as := by
  have hparts := Clause.sameParts_of_rearranged h
  have hclause : ∀ a, config.schema.aggregation (.group m op parens children') = .ok a ↔
      config.schema.aggregation (.group m op parens children) = .ok a :=
    fun a => ⟨aggregation_of_sameParts hparts.symm, aggregation_of_sameParts hparts⟩
  simp only [aggregate_result, aggregations_ok_iff, hroot, mapM_append_ok_iff, mapM_cons_ok_iff, hclause]

end Clauses

/-- The first least count, which is not even a number, is left out. Then the field and the options change
places. -/
theorem aggregate_rearranged_terms :
    let least (text : String) : Clause := .leaf { field := some "@min" } (.term text false)
    let absent : Clause := .leaf { field := some "@missing" } (.term "none" false)
    let status : Clause := .leaf {} (.term "status" false)
    let request (parts : List Clause) : Group :=
      { children := [.group { field := some "terms" } none true parts] }
    let listed : Aggregation :=
      { name := "terms_status", kind := .terms, source := .field "status"
        options := ⟨[("min_doc_count", .int 2), ("missing", .text "none")]⟩ }
    (Config.aggregate {} (request [least "few", absent, least "2", status])).result = .ok [listed] ∧
      (Config.aggregate {} (request [status, least "2", absent])).result = .ok [listed] := by
  intro least absent status request listed
  have hwritten : (least "few").written? "min" ≠ none ∧ (least "2").written? "min" ≠ none := by decide
  have hdiscard : Clause.Rearranges ([] ++ least "few" :: [absent, least "2", status])
      ([] ++ [absent, least "2", status]) :=
    .discard hwritten.1 (by simp) hwritten.2
  have hpermute : Clause.Rearranges [absent, least "2", status] [status, least "2", absent] := by
    refine .permute (List.reverse_perm [status, least "2", absent]) fun name => ?_
    have hstatus : status.written? name = none := by simp [Clause.written?, status]
    by_cases hmin : "@min" = "@" ++ name
    · have habsent : absent.written? name = none := by simp [Clause.written?, absent, ← hmin]
      simp only [List.filterMap_cons, hstatus, habsent]
    · have hleast : (least "2").written? name = none := by simp [Clause.written?, least, hmin]
      simp only [List.filterMap_cons, hstatus, hleast]
  have hlisted : (Config.aggregate {} (request [least "few", absent, least "2", status])).result =
      .ok [listed] := rfl
  refine ⟨hlisted, ?_⟩
  exact (aggregate_rearranged {} (request [least "few", absent, least "2", status])
    (show _ = [] ++ _ :: [] from rfl) (.trans _ _ _ (.rel _ _ hdiscard) (.rel _ _ hpermute)) _).2 hlisted

end SearchQuery
