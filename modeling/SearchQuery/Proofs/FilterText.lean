import SearchQuery.Filter.Json
import SearchQuery.Proofs.JsonText
import SearchQuery.Proofs.LeafOrder

/-!
# SearchQuery.Proofs.FilterText

A filter can be told from its JSON text.

The document of a filter names its kind, and below that each part has a name of its own. A part that
is left out is missed where it would have stood, since no later part has its name. So the document
determines the filter, and its text determines the document as long as no number is in it. The only
filters with numbers are those that ask for points near another.

* `Json.optional_append_inj`  — members that may be left out.
* `Filter.toJson_inj`         — no two filters have the same document.
* `Filter.toJson_numberless`  — the document has no number in it.
* `Filter.eq_of_compact_eq`   — no two filters have the same text.
-/

namespace SearchQuery

/-! ## Optional members -/

namespace Json

theorem optional_append_inj {name : String} {o o' : Option String} {ms ns : List (String × Json)}
    (hms : name ∉ ms.map Prod.fst) (hns : name ∉ ns.map Prod.fst)
    (h : optional name o ++ ms = optional name o' ++ ns) : o = o' ∧ ms = ns := by
  cases o with
  | none =>
    cases o' with
    | none => exact ⟨rfl, h⟩
    | some s' =>
      obtain rfl : ms = (name, .str s') :: ns := h
      exact absurd List.mem_cons_self hms
  | some s =>
    cases o' with
    | none =>
      obtain rfl : ns = (name, .str s) :: ms := h.symm
      exact absurd List.mem_cons_self hns
    | some s' =>
      obtain ⟨hmember, rfl⟩ := List.cons.inj h
      cases hmember
      exact ⟨rfl, rfl⟩

theorem optional_inj {name : String} {o o' : Option String}
    (h : optional name o = optional name o') : o = o' := by
  have happend : optional name o ++ [] = optional name o' ++ [] := by rw [h]
  exact (optional_append_inj List.not_mem_nil List.not_mem_nil happend).1

@[simp] theorem mem_names_optional {name x : String} {o : Option String} :
    x ∈ (optional name o).map Prod.fst ↔ o.isSome ∧ x = name := by
  cases o <;> simp [optional]

/-- The name of the only member of an object. -/
def tag? : Json → Option String
  | .obj [(tag, _)] => some tag
  | _ => none

end Json

open Json (optional_append_inj optional_inj tagged)

/-! ## Documents -/

/-- Whether a filter asks for the points near another. -/
def Filter.isNear : Filter → Bool
  | .leaf (.near _ _ _ _) => true
  | _ => false

theorem Connective.name_inj {op op' : Connective} (h : op.name = op'.name) : op = op' := by
  cases op <;> cases op' <;> simp [Connective.name] at h ⊢

theorem Presence.name_inj {p p' : Presence} (h : p.name = p'.name) : p = p' := by
  cases p <;> cases p' <;> simp [Presence.name] at h ⊢

theorem Bounds.toJson_inj {b b' : Bounds} (h : b.toJson = b'.toJson) : b = b' := by
  obtain ⟨field, gt, gte, lt, lte⟩ := b
  obtain ⟨field', gt', gte', lt', lte'⟩ := b'
  simp only [Bounds.toJson, Json.obj.injEq, List.append_assoc, List.cons_append, List.nil_append,
    List.cons.injEq, Prod.mk.injEq, Json.str.injEq, true_and] at h
  -- no name comes twice, so what is left of the members is compared from the front
  obtain ⟨rfl, hgt⟩ := h
  obtain ⟨rfl, hgte⟩ := optional_append_inj (by simp) (by simp) hgt
  obtain ⟨rfl, hlt⟩ := optional_append_inj (by simp) (by simp) hgte
  obtain ⟨rfl, hlte⟩ := optional_append_inj (by simp) (by simp) hlt
  rw [optional_inj hlte]

/-- The name of a constraint's kind. -/
def Constraint.tag : Constraint → String
  | .term _ _ => "term"
  | .words _ _ _ => "query_string"
  | .range _ => "range"
  | .presence p _ => p.name
  | .near _ _ _ _ => "geo_distance"

theorem Constraint.tag?_toJson (c : Constraint) : c.toJson.tag? = some c.tag := by
  cases c <;> rfl

theorem Constraint.toJson_inj {c c' : Constraint} (hc : (Filter.leaf c).isNear = false)
    (hc' : (Filter.leaf c').isNear = false) (h : c.toJson = c'.toJson) : c = c' := by
  -- constraints of two kinds have different tags
  have htag : c.tag = c'.tag := by
    rw [← Option.some.injEq, ← c.tag?_toJson, h, c'.tag?_toJson]
  cases c with
  | term field value =>
    cases c' with
    | term field' value' => simpa [toJson, tagged] using h
    | presence p field' => cases p <;> simp [tag, Presence.name] at htag
    | near _ _ _ _ => cases hc'
    | _ => simp [tag] at htag
  | words query field op =>
    cases c' with
    | words query' field' op' =>
      obtain ⟨rfl, hfield, hop⟩ : query = query' ∧
          Json.optional "default_field" field = Json.optional "default_field" field' ∧
          op.name = op'.name := by
        simpa [toJson, tagged] using h
      rw [optional_inj hfield, Connective.name_inj hop]
    | presence p field' => cases p <;> simp [tag, Presence.name] at htag
    | near _ _ _ _ => cases hc'
    | _ => simp [tag] at htag
  | range b =>
    cases c' with
    | range b' =>
      have hbounds : b.toJson = b'.toJson := by simpa [toJson, tagged] using h
      rw [Bounds.toJson_inj hbounds]
    | presence p field' => cases p <;> simp [tag, Presence.name] at htag
    | near _ _ _ _ => cases hc'
    | _ => simp [tag] at htag
  | presence p field =>
    cases c' with
    | presence p' field' =>
      obtain rfl := Presence.name_inj htag
      simpa [toJson, tagged] using h
    | near _ _ _ _ => cases hc'
    | _ => cases p <;> simp [tag, Presence.name] at htag
  | near _ _ _ _ => cases hc

theorem Constraint.tag_ne_not (c : Constraint) : c.tag ≠ "not" := by
  cases c with
  | presence p field => cases p <;> simp [tag, Presence.name]
  | _ => simp [tag]

theorem Constraint.tag_ne_name (c : Constraint) (op : Connective) : c.tag ≠ op.name := by
  cases op <;> cases c with
  | presence p field => cases p <;> simp [tag, Presence.name, Connective.name]
  | _ => simp [tag, Connective.name]

theorem Connective.name_ne_not (op : Connective) : op.name ≠ "not" := by
  cases op <;> simp [Connective.name]

namespace Filter

/-- The name of a filter's kind. The filter that lets every document pass has none. -/
def tag? : Filter → Option String
  | .matchAll => none
  | .leaf c => some c.tag
  | .join op _ => some op.name
  | .not _ => some "not"

theorem tag?_toJson (f : Filter) : f.toJson.tag? = f.tag? := by
  cases f with
  | leaf c => rw [toJson, c.tag?_toJson, tag?]
  | _ => rw [toJson]; rfl

mutual

theorem toJson_inj : ∀ {f g : Filter}, (∀ a ∈ f.atoms, a.isNear = false) →
    (∀ a ∈ g.atoms, a.isNear = false) → f.toJson = g.toJson → f = g
  | .matchAll, g, _, _, h => by
    have htag : none = g.tag? := by rw [← g.tag?_toJson, ← h, tag?_toJson]; rfl
    cases g with
    | matchAll => rfl
    | _ => cases htag
  | .leaf c, g, hf, hg, h => by
    have htag : some c.tag = g.tag? := by rw [← g.tag?_toJson, ← h, tag?_toJson]; rfl
    cases g with
    | matchAll => cases htag
    | leaf c' =>
      rw [toJson, toJson] at h
      rw [Constraint.toJson_inj (hf _ List.mem_cons_self) (hg _ List.mem_cons_self) h]
    | join op parts => exact absurd (Option.some.inj htag) (c.tag_ne_name op)
    | not g => exact absurd (Option.some.inj htag) c.tag_ne_not
  | .join op parts, g, hf, hg, h => by
    have htag : some op.name = g.tag? := by rw [← g.tag?_toJson, ← h, tag?_toJson]; rfl
    cases g with
    | matchAll => cases htag
    | leaf c => exact absurd (Option.some.inj htag).symm (c.tag_ne_name op)
    | join op' parts' =>
      obtain rfl := Connective.name_inj (Option.some.inj htag)
      rw [atoms] at hf hg
      have hparts : toJsonList parts = toJsonList parts' := by simpa [toJson, tagged] using h
      rw [toJsonList_inj hf hg hparts]
    | not g => exact absurd (Option.some.inj htag) op.name_ne_not
  | .not f, g, hf, hg, h => by
    have htag : some "not" = g.tag? := by rw [← g.tag?_toJson, ← h, tag?_toJson]; rfl
    cases g with
    | matchAll => cases htag
    | leaf c => exact absurd (Option.some.inj htag).symm c.tag_ne_not
    | join op parts => exact absurd (Option.some.inj htag).symm op.name_ne_not
    | not g =>
      rw [atoms] at hf hg
      have hinner : f.toJson = g.toJson := by simpa [toJson, tagged] using h
      rw [toJson_inj hf hg hinner]

theorem toJsonList_inj : ∀ {fs gs : List Filter}, (∀ a ∈ atomsAll fs, a.isNear = false) →
    (∀ a ∈ atomsAll gs, a.isNear = false) → toJsonList fs = toJsonList gs → fs = gs
  | [], [], _, _, _ => rfl
  | [], g :: gs, _, _, h => by rw [toJsonList, toJsonList] at h; cases h
  | f :: fs, [], _, _, h => by rw [toJsonList, toJsonList] at h; cases h
  | f :: fs, g :: gs, hf, hg, h => by
    rw [atomsAll, List.forall_mem_append] at hf hg
    rw [toJsonList, toJsonList] at h
    obtain ⟨hfirst, hrest⟩ := List.cons.inj h
    rw [toJson_inj hf.1 hg.1 hfirst, toJsonList_inj hf.2 hg.2 hrest]

end

end Filter

/-! ## Texts -/

namespace Json

theorem numberlessMembers_append (ms ns : List (String × Json)) :
    NumberlessMembers (ms ++ ns) ↔ NumberlessMembers ms ∧ NumberlessMembers ns := by
  induction ms with
  | nil => simp [NumberlessMembers]
  | cons m ms ih =>
    obtain ⟨name, value⟩ := m
    simp [NumberlessMembers, ih, and_assoc]

theorem numberlessMembers_optional (name : String) (o : Option String) :
    NumberlessMembers (optional name o) := by
  cases o <;> simp [optional, NumberlessMembers, Numberless]

end Json

open Json (Numberless NumberlessItems NumberlessMembers numberlessMembers_append
  numberlessMembers_optional)

theorem Constraint.toJson_numberless {c : Constraint} (hc : (Filter.leaf c).isNear = false) :
    c.toJson.Numberless := by
  cases c with
  | near _ _ _ _ => cases hc
  | range b =>
    simp [toJson, tagged, Bounds.toJson, Numberless, NumberlessMembers, numberlessMembers_append,
      numberlessMembers_optional]
  | _ =>
    simp [toJson, tagged, Numberless, NumberlessMembers, numberlessMembers_append,
      numberlessMembers_optional]

namespace Filter

mutual

theorem toJson_numberless : ∀ {f : Filter}, (∀ a ∈ f.atoms, a.isNear = false) →
    f.toJson.Numberless
  | .matchAll, _ => by rw [toJson, Numberless]; trivial
  | .leaf c, hf => by
    rw [toJson]
    exact Constraint.toJson_numberless (hf _ List.mem_cons_self)
  | .join op parts, hf => by
    rw [atoms] at hf
    rw [toJson, tagged, Numberless, NumberlessMembers, Numberless]
    exact ⟨toJsonList_numberless hf, by rw [NumberlessMembers]; trivial⟩
  | .not f, hf => by
    rw [atoms] at hf
    rw [toJson, tagged, Numberless, NumberlessMembers]
    exact ⟨toJson_numberless hf, by rw [NumberlessMembers]; trivial⟩

theorem toJsonList_numberless : ∀ {fs : List Filter}, (∀ a ∈ atomsAll fs, a.isNear = false) →
    NumberlessItems (toJsonList fs)
  | [], _ => by rw [toJsonList, NumberlessItems]; trivial
  | f :: fs, hf => by
    rw [atomsAll, List.forall_mem_append] at hf
    rw [toJsonList, NumberlessItems]
    exact ⟨toJson_numberless hf.1, toJsonList_numberless hf.2⟩

end

/-- Two filters with the same text are the same, as long as neither asks for points near another. -/
theorem eq_of_compact_eq {f g : Filter} (hf : ∀ a ∈ f.atoms, a.isNear = false)
    (hg : ∀ a ∈ g.atoms, a.isNear = false) (h : f.toJson.compact = g.toJson.compact) : f = g := by
  have htexts : f.toJson.compact.toList ++ [] = g.toJson.compact.toList ++ [] := by rw [h]
  have hdocuments : f.toJson = g.toJson :=
    (Json.compact_append_inj (toJson_numberless hf) (toJson_numberless hg) htexts).1
  exact toJson_inj hf hg hdocuments

/-- Joined in either order, three filters give one text and so one filter. -/
theorem eq_of_compact_eq_joined :
    let a := term "a" "\"\\\n\x01"
    let b := negate (.leaf (.range { field := "b", gte := some "1" }))
    let c := leaf (.words "c" none .or)
    let text := "\x7b\"and\":[" ++
      "\x7b\"term\":\x7b\"field\":\"a\",\"value\":\"\\\"\\\\\\n\\u0001\"\x7d\x7d," ++
      "\x7b\"not\":\x7b\"range\":\x7b\"field\":\"b\",\"gte\":\"1\"\x7d\x7d\x7d," ++
      "\x7b\"query_string\":\x7b\"query\":\"c\",\"default_operator\":\"or\"\x7d\x7d]\x7d"
    ((a.and b).and c).toJson.compact = text ∧ (a.and (b.and c)).toJson.compact = text ∧
      (a.and b).and c = a.and (b.and c) := by
  intro a b c text
  have hleft : ((a.and b).and c).toJson.compact = text := by decide +kernel
  have hright : (a.and (b.and c)).toJson.compact = text := by decide +kernel
  exact ⟨hleft, hright, eq_of_compact_eq (by decide) (by decide) (hleft.trans hright.symm)⟩

end Filter
end SearchQuery
