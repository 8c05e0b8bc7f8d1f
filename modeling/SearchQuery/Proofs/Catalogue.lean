import Mathlib.Data.List.Induction
import SearchQuery.Schema

/-!
# SearchQuery.Proofs.Catalogue

What a catalogue answers about a field, said by the declarations it was made from.

A field with a sibling is declared by one call that writes two entries: it marks the field, which it
takes for a text only if nothing is known about it yet, and it makes the sibling a keyword. The sibling
may itself be a field with a sibling, and either may be declared again before or after. Two questions
stay apart all the same. The sibling of a field depends on whether it was declared, the type on the last
declaration that gives one.

* `get?_set`, `get?_field`, `get?_withKeyword` — one call, seen from the entry of any name.
* `exactField_declare`, `fieldType_declare`    — one declaration, seen from the two questions.
* `build_answers`                              — all declarations.
-/

namespace SearchQuery
namespace Catalogue

/-- A call that adds to a catalogue. -/
inductive Declaration where
  | field (name : String) (type : FieldType)
  | analyzed (name : String)
  | withKeyword (name : String)
  deriving DecidableEq

def declare (c : Catalogue) : Declaration → Catalogue
  | .field name type => c.field name type
  | .analyzed name => c.analyzed name
  | .withKeyword name => c.withKeyword name

/-- The catalogue that the declarations make, in their order. -/
def build (ds : List Declaration) : Catalogue :=
  ds.foldl declare {}

/-- The type that a declaration gives to the field `x`. Its own sibling gives a field none. -/
def Declaration.typeFor (x : String) : Declaration → Option FieldType
  | .field name type => if name = x then some type else none
  | .analyzed name => if name = x then some .text else none
  | .withKeyword name => if name ++ ".keyword" = x then some .keyword else none

/-! ## One call -/

theorem get?_set (c : Catalogue) (name : String) (info : FieldInfo) (x : String) :
    (c.set name info).get? x = if name = x then some info else c.get? x := by
  rw [get?, set, List.lookup_cons]
  by_cases h : name = x
  · simp [h]
  · have hx : (x == name) = false := beq_eq_false_iff_ne.2 fun heq => h heq.symm
    simp [h, hx, get?]

theorem get?_field (c : Catalogue) (name : String) (type : FieldType) (x : String) :
    (c.field name type).get? x =
      if name = x then some { type, exact := c.exactField x } else c.get? x := by
  rw [field]
  cases h : c.get? name with
  | none =>
    rw [get?_set]
    split
    · rename_i heq
      rw [exactField, ← heq, h]
      rfl
    · rfl
  | some info =>
    rw [get?_set]
    split
    · rename_i heq
      rw [exactField, ← heq, h]
      rfl
    · rfl

theorem keywordName_ne (name : String) : keywordName name ≠ name := by
  intro h
  have hlength := congrArg String.length h
  rw [keywordName, String.length_append] at hlength
  have hpos : ".keyword".length = 8 := rfl
  omega

theorem withKeyword_eq (c : Catalogue) (name : String) :
    c.withKeyword name =
      (c.set name { type := (c.fieldType name).getD .text, exact := some (keywordName name) }).field
        (keywordName name) .keyword := by
  rw [withKeyword, fieldType]
  cases c.get? name <;> rfl

/-- The field is marked and keeps its type, the sibling is a keyword and keeps its own sibling. -/
theorem get?_withKeyword (c : Catalogue) (name x : String) :
    (c.withKeyword name).get? x =
      if name = x then
        some { type := (c.fieldType x).getD .text, exact := some (keywordName x) }
      else if keywordName name = x then some { type := .keyword, exact := c.exactField x }
      else c.get? x := by
  rw [withKeyword_eq, get?_field]
  by_cases hname : name = x
  · -- no name is that of its own sibling, so the second entry does not hide the first
    subst hname
    rw [if_neg (keywordName_ne name), get?_set, if_pos rfl, if_pos rfl]
  · rw [if_neg hname, exactField, get?_set, if_neg hname, ← exactField]

/-! ## One declaration -/

theorem exactField_declare (c : Catalogue) (d : Declaration) (x : String) :
    (c.declare d).exactField x =
      if d = .withKeyword x then some (x ++ ".keyword") else c.exactField x := by
  have hfield : ∀ name type, (c.field name type).exactField x = c.exactField x := by
    intro name type
    rw [exactField, get?_field]
    split <;> rfl
  cases d with
  | field name type => simpa [declare] using hfield name type
  | analyzed name => simpa [declare, analyzed] using hfield name .text
  | withKeyword name =>
    simp only [declare, exactField, get?_withKeyword, Declaration.withKeyword.injEq]
    by_cases hname : name = x
    · rw [if_pos hname, if_pos hname]
      rfl
    · rw [if_neg hname, if_neg hname]
      split <;> rfl

theorem fieldType_declare (c : Catalogue) (d : Declaration) (x : String) :
    (c.declare d).fieldType x =
      (d.typeFor x).or
        (if d = .withKeyword x then some ((c.fieldType x).getD .text) else c.fieldType x) := by
  have hfield : ∀ name type, (c.field name type).fieldType x =
      (if name = x then some type else none).or (c.fieldType x) := by
    intro name type
    rw [fieldType, get?_field]
    split <;> rfl
  cases d with
  | field name type => simpa [declare, Declaration.typeFor] using hfield name type
  | analyzed name => simpa [declare, analyzed, Declaration.typeFor] using hfield name .text
  | withKeyword name =>
    simp only [declare, fieldType, get?_withKeyword, Declaration.withKeyword.injEq,
      Declaration.typeFor]
    rw [← keywordName]
    by_cases hname : name = x
    · subst hname
      rw [if_pos rfl, if_pos rfl, if_neg (keywordName_ne name)]
      rfl
    · rw [if_neg hname, if_neg hname]
      split <;> rfl

/-! ## All declarations -/

theorem build_snoc (ds : List Declaration) (d : Declaration) :
    build (ds ++ [d]) = (build ds).declare d := by
  rw [build, List.foldl_append]
  rfl

theorem exactField_build (ds : List Declaration) (x : String) :
    (build ds).exactField x = if .withKeyword x ∈ ds then some (x ++ ".keyword") else none := by
  induction ds using List.reverseRecOn with
  | nil => rfl
  | append_singleton ds d ih =>
    rw [build_snoc, exactField_declare, ih]
    by_cases hd : d = .withKeyword x
    · simp [hd]
    · have hne : Declaration.withKeyword x ≠ d := fun h => hd h.symm
      simp [hd, hne]

/-- The last type that was declared, and without one a field with a sibling is a text. -/
theorem fieldType_build (ds : List Declaration) (x : String) :
    (build ds).fieldType x =
      ((ds.filterMap fun d => d.typeFor x).getLast?).or
        (if .withKeyword x ∈ ds then some .text else none) := by
  induction ds using List.reverseRecOn with
  | nil => rfl
  | append_singleton ds d ih =>
    rw [build_snoc, fieldType_declare, ih, List.filterMap_append]
    cases htype : d.typeFor x with
    | some type => simp [htype]
    | none =>
      by_cases hd : d = .withKeyword x
      · -- the field becomes a text here, unless it was given a type before
        subst hd
        cases hlast : (ds.filterMap fun d => d.typeFor x).getLast? with
        | some type => simp [htype, hlast]
        | none => by_cases hmem : .withKeyword x ∈ ds <;> simp [htype, hlast, hmem]
      · have hne : Declaration.withKeyword x ≠ d := fun h => hd h.symm
        simp [htype, hd, hne]

/-- All that a catalogue says about a field. It has a sibling exactly if one was declared for it. Its
type is the last one declared, be it as the sibling of another field, and if none was declared it is a
text or not known. So it makes no difference when its own sibling was declared. -/
theorem build_answers (ds : List Declaration) (x : String) :
    let schema := (build ds).schema
    schema.exactField x = (if .withKeyword x ∈ ds then some (x ++ ".keyword") else none) ∧
    schema.fieldType x =
      ((ds.filterMap fun d => d.typeFor x).getLast?).or
        (if .withKeyword x ∈ ds then some .text else none) ∧
    (schema.isAnalyzed x = true ↔ schema.fieldType x = some .text) ∧
    ∀ before between after, ds = before ++ .withKeyword x :: (between ++ after) →
      let moved := (build (before ++ (between ++ .withKeyword x :: after))).schema
      moved.exactField x = schema.exactField x ∧ moved.fieldType x = schema.fieldType x ∧
        moved.isAnalyzed x = schema.isAnalyzed x := by
  refine ⟨exactField_build ds x, fieldType_build ds x, decide_eq_true_iff, ?_⟩
  rintro before between after rfl
  have hown : (Declaration.withKeyword x).typeFor x = none := if_neg (keywordName_ne x)
  have htype : (build (before ++ (between ++ .withKeyword x :: after))).fieldType x =
      (build (before ++ .withKeyword x :: (between ++ after))).fieldType x := by
    simp [fieldType_build, List.filterMap_append, hown]
  have hexact : (build (before ++ (between ++ .withKeyword x :: after))).exactField x =
      (build (before ++ .withKeyword x :: (between ++ after))).exactField x := by
    simp [exactField_build]
  refine ⟨hexact, htype, ?_⟩
  simp only [schema, isAnalyzed, htype]

-- The sibling of a field can have a sibling, and a type of its own given later.
example :
    let c := build [.withKeyword "a.keyword", .field "a" .date, .withKeyword "a", .analyzed "a.keyword"]
    (c.get? "a" = some ⟨.date, some "a.keyword"⟩) ∧
      (c.get? "a.keyword" = some ⟨.text, some "a.keyword.keyword"⟩) := by
  decide

end Catalogue
end SearchQuery
